import Mathlib.Data.Nat.Find

/-! A loop with a counter that some of its steps set to a constant: when it makes as many
steps as its limit says. -/

namespace ResetCounter

variable (resets stops : ℕ → Prop) [DecidablePred resets] (reset limit : ℕ)

/-- The counter after `k` steps. Step `j` is the one that ends in position `j + 1`. -/
def counter : ℕ → ℕ
  | 0 => 0
  | k + 1 => if resets k then reset else counter k + 1

/-- The loop leaves at position `k`. -/
def Leaves (k : ℕ) : Prop := stops k ∨ limit ≤ counter resets reset k

/-- The loop ends at position `k`. -/
def Ends (k : ℕ) : Prop :=
  Leaves resets stops reset limit k ∧ ∀ j < k, ¬ Leaves resets stops reset limit j

/-- The loop keeps to its limit, and ends earlier only at a stop or behind a reset. -/
def Keeps : Prop := ∃ k ≤ limit, Ends resets stops reset limit k ∧
  (k < limit → stops k ∨ ∃ j, k = j + 1 ∧ resets j)

/-- The reset of step `j` falls on its own value, or a stop or another reset follows within
the steps that are left, and within the limit. -/
def Harmless (j : ℕ) : Prop := j + 1 = reset ∨
  ∃ n, j < n ∧ ((stops n ∧ n ≤ limit ∧ n + reset ≤ j + 1 + limit) ∨
    (resets n ∧ n < limit ∧ n + reset ≤ j + limit))

variable {resets stops reset limit}

theorem ends_or_never : (∃ k, Ends resets stops reset limit k) ∨
    ∀ k, ¬ Leaves resets stops reset limit k := by
  by_cases h : ∃ k, Leaves resets stops reset limit k
  · classical
    exact .inl ⟨Nat.find h, Nat.find_spec h, fun j hj => Nat.find_min h hj⟩
  · exact .inr fun k hk => h ⟨k, hk⟩

theorem exists_ends {k : ℕ} (h : Leaves resets stops reset limit k) :
    ∃ l ≤ k, Ends resets stops reset limit l := by
  classical
  have hex : ∃ k, Leaves resets stops reset limit k := ⟨k, h⟩
  exact ⟨Nat.find hex, Nat.find_min' hex h, Nat.find_spec hex, fun j hj => Nat.find_min hex hj⟩

/-- Without a reset the counter counts. -/
theorem counter_of_no_reset {k : ℕ} (h : ∀ j < k, ¬ resets j) : counter resets reset k = k := by
  induction k with
  | zero => rfl
  | succ k ih =>
      rw [counter, if_neg (h k k.lt_succ_self), ih fun j hj => h j (Nat.lt_succ_of_lt hj)]

/-- Behind a reset the counter counts from its value. -/
theorem counter_after (reset : ℕ) {j k : ℕ} (hj : resets j) (hjk : j < k)
    (h : ∀ i, j < i → i < k → ¬ resets i) :
    counter resets reset k + (j + 1) = reset + k := by
  induction k, hjk using Nat.le_induction with
  | base => rw [counter, if_pos hj]
  | succ k hk ih =>
      have hcount := ih fun i hi hik => h i hi (Nat.lt_succ_of_lt hik)
      rw [counter, if_neg (h k hk k.lt_succ_self)]
      omega

/-- The last reset before a position. -/
theorem last_reset (resets : ℕ → Prop) (k : ℕ) : (∀ j < k, ¬ resets j) ∨
    ∃ j < k, resets j ∧ ∀ i, j < i → i < k → ¬ resets i := by
  induction k with
  | zero => exact .inl nofun
  | succ k ih =>
      by_cases hk : resets k
      · exact .inr ⟨k, k.lt_succ_self, hk, fun i hi hik => by omega⟩
      · rcases ih with hnone | ⟨j, hj, hr, hlast⟩
        · refine .inl fun j hj => ?_
          rcases Nat.lt_succ_iff_lt_or_eq.mp hj with hj | rfl
          · exact hnone j hj
          · exact hk
        · refine .inr ⟨j, Nat.lt_succ_of_lt hj, hr, fun i hi hik => ?_⟩
          rcases Nat.lt_succ_iff_lt_or_eq.mp hik with hik | rfl
          · exact hlast i hi hik
          · exact hk

/-- The first reset in an interval. -/
theorem first_reset {j k : ℕ} (h : ∃ i, j < i ∧ i < k ∧ resets i) :
    ∃ i, j < i ∧ i < k ∧ resets i ∧ ∀ l, j < l → l < i → ¬ resets l := by
  have hfind := Nat.find_spec h
  refine ⟨Nat.find h, hfind.1, hfind.2.1, hfind.2.2, fun l hl hlt hr => ?_⟩
  exact Nat.find_min h hlt ⟨hl, Nat.lt_trans hlt hfind.2.1, hr⟩

theorem Keeps.harmless (h : Keeps resets stops reset limit) (hreset : reset < limit) {j : ℕ}
    (hj : j < limit) (hrun : ∀ i ≤ j, ¬ stops i) (hr : resets j) :
    Harmless resets stops reset limit j := by
  obtain ⟨k, hk, ⟨hleaves, hgoes⟩, hearly⟩ := h
  have hcount : ∀ i < k, counter resets reset i < limit := fun i hi =>
    Nat.lt_of_not_le fun hge => hgoes i hi (.inr hge)
  have hjk : j < k := by
    by_contra hle
    have hkj : k ≤ j := Nat.le_of_not_lt hle
    rcases hearly (by omega) with hstop | ⟨i, rfl, hi⟩
    · exact hrun k hkj hstop
    · rcases hleaves with hstop | hge
      · exact hrun _ hkj hstop
      · rw [counter, if_pos hi] at hge
        omega
  by_cases hmore : ∃ i, j < i ∧ i < k ∧ resets i
  · obtain ⟨i, hji, hik, hi, hfirst⟩ := first_reset hmore
    have hafter := counter_after reset hr hji hfirst
    have hlt := hcount i hik
    exact .inr ⟨i, hji, .inr ⟨hi, by omega, by omega⟩⟩
  · have hnone : ∀ i, j < i → i < k → ¬ resets i := fun i hi hik hri => hmore ⟨i, hi, hik, hri⟩
    have hafter := counter_after reset hr hjk hnone
    -- the position before the last is still below the limit
    have hbefore : reset + k ≤ j + 1 + limit := by
      rcases Nat.eq_or_lt_of_le (show j + 1 ≤ k from hjk) with heq | hlt
      · omega
      · have hprev := counter_after reset hr (show j < k - 1 by omega)
          fun i hi hik => hnone i hi (by omega)
        have hlt' := hcount (k - 1) (by omega)
        omega
    rcases hleaves with hstop | hge
    · exact .inr ⟨k, hjk, .inl ⟨hstop, hk, by omega⟩⟩
    · by_cases hend : k < limit
      · rcases hearly hend with hstop | ⟨i, rfl, hi⟩
        · exact .inr ⟨k, hjk, .inl ⟨hstop, hk, by omega⟩⟩
        · have hij : i = j := by
            by_contra hne
            exact hnone i (by omega) i.lt_succ_self hi
          omega
      · exact .inl (by omega)

theorem keeps_of_harmless
    (h : limit ≤ reset ∨ ∀ j < limit, (∀ i ≤ j, ¬ stops i) → resets j →
      Harmless resets stops reset limit j) :
    Keeps resets stops reset limit := by
  -- where the loop has not left before, it has a stop, it counted, or it is behind a reset
  have hpos : ∀ k ≤ limit, (∀ j < k, ¬ Leaves resets stops reset limit j) →
      limit ≤ counter resets reset k → stops k ∨ k = limit ∨ ∃ j, k = j + 1 ∧ resets j := by
    intro k hk hgoes hge
    rcases last_reset resets k with hnone | ⟨j, hj, hr, hlast⟩
    · rw [counter_of_no_reset hnone] at hge
      exact .inr (.inl (by omega))
    · have hafter := counter_after reset hr hj hlast
      by_cases hlt : j + 1 = k
      · exact .inr (.inr ⟨j, hlt.symm, hr⟩)
      · have hnext := counter_after reset hr (show j < j + 1 from Nat.lt_add_one j)
          fun i hi hik => hlast i hi (by omega)
        have hstay : ¬ limit ≤ counter resets reset (j + 1) := fun hle =>
          hgoes (j + 1) (by omega) (.inr hle)
        rcases h with hle | hharmless
        · omega
        · rcases hharmless j (by omega) (fun i hi hs => hgoes i (by omega) (.inl hs)) hr with
            heq | ⟨n, hjn, ⟨hstop, hnl, hn⟩ | ⟨hrn, hnl, hn⟩⟩
          · exact .inr (.inl (by omega))
          · rcases Nat.lt_or_ge n k with hnk | hnk
            · exact absurd (.inl hstop) (hgoes n hnk)
            · exact .inl (by rwa [show k = n by omega])
          · exact absurd hrn (hlast n hjn (by omega))
  have hleaves : ∃ k ≤ limit, Ends resets stops reset limit k := by
    by_contra hnone
    have hgoes : ∀ j ≤ limit, ¬ Leaves resets stops reset limit j := by
      intro j hj hl
      obtain ⟨l, hl, he⟩ := exists_ends hl
      exact hnone ⟨l, Nat.le_trans hl hj, he⟩
    have hstay : counter resets reset limit < limit :=
      Nat.lt_of_not_le fun hge => hgoes limit le_rfl (.inr hge)
    rcases last_reset resets limit with hcount | ⟨j, hj, hr, hlast⟩
    · rw [counter_of_no_reset hcount] at hstay
      omega
    · have hafter := counter_after reset hr hj hlast
      rcases h with hle | hharmless
      · omega
      · rcases hharmless j hj (fun i hi hs => hgoes i (by omega) (.inl hs)) hr with
          heq | ⟨n, hjn, ⟨hstop, hnl, -⟩ | ⟨hrn, hnl, -⟩⟩
        · omega
        · exact hgoes n hnl (.inl hstop)
        · exact hlast n hjn hnl hrn
  obtain ⟨k, hk, hend⟩ := hleaves
  refine ⟨k, hk, hend, fun hlt => ?_⟩
  rcases hend.1 with hstop | hge
  · exact .inl hstop
  · rcases hpos k hk hend.2 hge with hstop | heq | hr
    · exact .inl hstop
    · omega
    · exact .inr hr

/-- Exactly when the loop keeps to its limit. -/
theorem keeps_iff : Keeps resets stops reset limit ↔
    limit ≤ reset ∨ ∀ j < limit, (∀ i ≤ j, ¬ stops i) → resets j →
      Harmless resets stops reset limit j := by
  refine ⟨fun h => ?_, keeps_of_harmless⟩
  by_cases hle : limit ≤ reset
  · exact .inl hle
  · exact .inr fun j hj hrun hr => h.harmless (Nat.lt_of_not_le hle) hj hrun hr

end ResetCounter
