import Mathlib.Data.Nat.Notation

/-! Two runs of computations that may fail: related results, and relations that a pair of
steps keeps. -/

namespace Lockstep

/-- The same failure, or related values. -/
inductive Results {ε α β : Type} (R : α → β → Prop) : Except ε α → Except ε β → Prop
  | error (e : ε) : Results R (.error e) (.error e)
  | ok {a : α} {b : β} (h : R a b) : Results R (.ok a) (.ok b)

namespace Results

variable {ε α β γ δ : Type} {R : α → β → Prop} {S : γ → δ → Prop}

theorem bind {x : Except ε α} {y : Except ε β} {k : α → Except ε γ} {l : β → Except ε δ}
    (h : Results R x y) (hk : ∀ a b, R a b → Results S (k a) (l b)) :
    Results S (x >>= k) (y >>= l) := by
  cases h with
  | error e => exact .error e
  | ok h => exact hk _ _ h

theorem mono {R' : α → β → Prop} {x : Except ε α} {y : Except ε β} (h : Results R x y)
    (hR : ∀ a b, R a b → R' a b) : Results R' x y := by
  cases h with
  | error e => exact .error e
  | ok h => exact .ok (hR _ _ h)

theorem refl {R : α → α → Prop} (h : ∀ a, R a a) (x : Except ε α) : Results R x x := by
  cases x with
  | error e => exact .error e
  | ok a => exact .ok (h a)

theorem swap {x : Except ε α} {y : Except ε β} (h : Results R x y) :
    Results (fun b a => R a b) y x := by
  cases h with
  | error e => exact .error e
  | ok h => exact .ok h

theorem trans {R' : β → γ → Prop} {Q : α → γ → Prop} {x : Except ε α} {y : Except ε β}
    {z : Except ε γ} (h : Results R x y) (h' : Results R' y z)
    (hQ : ∀ a b c, R a b → R' b c → Q a c) : Results Q x z := by
  cases h with
  | error e =>
      cases h' with
      | error => exact .error e
  | ok h =>
      cases h' with
      | ok h' => exact .ok (hQ _ _ _ h h')

/-- Two computations with the same first part. -/
theorem bind_same (x : Except ε α) {k : α → Except ε γ} {l : α → Except ε δ}
    (h : ∀ a, Results S (k a) (l a)) : Results S (x >>= k) (x >>= l) := by
  cases x with
  | error e => exact .error e
  | ok a => exact h a

theorem ite {c : Prop} [Decidable c] {x x' : Except ε α} {y y' : Except ε β}
    (h : Results R x y) (h' : Results R x' y') :
    Results R (if c then x else x') (if c then y else y') := by
  by_cases hc : c
  · rwa [if_pos hc, if_pos hc]
  · rwa [if_neg hc, if_neg hc]

theorem of_ok {x : Except ε α} {y : Except ε β} {a : α} {b : β} (h : Results R x y)
    (hx : x = .ok a) (hy : y = .ok b) : R a b := by
  subst hx hy
  cases h with
  | ok h => exact h

/-- A result on the left has its partner on the right. -/
theorem right {x : Except ε α} {y : Except ε β} {a : α} (h : Results R x y) (hx : x = .ok a) :
    ∃ b, y = .ok b ∧ R a b := by
  subst hx
  cases h with
  | ok h => exact ⟨_, rfl, h⟩

/-- A result on the right has its partner on the left. -/
theorem left {x : Except ε α} {y : Except ε β} {b : β} (h : Results R x y) (hy : y = .ok b) :
    ∃ a, x = .ok a ∧ R a b := by
  subst hy
  cases h with
  | ok h => exact ⟨_, rfl, h⟩

end Results

section Iterate

variable {ε α β : Type} {R : α → β → Prop}

/-- The steps of a run, up to the first failure. -/
def iterate (f : α → Except ε α) : ℕ → α → Except ε α
  | 0, a => .ok a
  | n + 1, a => iterate f n a >>= f

/-- Steps that keep a relation as long as both sides admit it keep it over whole runs. -/
theorem iterate_results {f : α → Except ε α} {g : β → Except ε β} {n : ℕ} {a : α} {b : β}
    (hstart : R a b)
    (step : ∀ k < n, ∀ a' b', iterate f k a = .ok a' → iterate g k b = .ok b' → R a' b' →
      Results R (f a') (g b')) :
    ∀ k ≤ n, Results R (iterate f k a) (iterate g k b) := by
  intro k hk
  induction k with
  | zero => exact .ok hstart
  | succ k ih =>
      have hprev := ih (Nat.le_of_succ_le hk)
      rw [iterate, iterate]
      cases hf : iterate f k a with
      | error e =>
          rw [hf] at hprev
          generalize iterate g k b = y at hprev
          cases hprev
          exact .error e
      | ok a' =>
          obtain ⟨b', hb, hR⟩ := hprev.right hf
          rw [hb]
          exact step k hk a' b' hf hb hR

end Iterate

end Lockstep
