import Mathlib.Data.List.Basic

/-! Lists in which any two marked entries have a segment of a given kind between them. -/

namespace Separation

variable {α : Type*} (marked : α → Prop) (gap : List α → Prop)

/-- Every marked entry is followed by a gap, so that another one may come. -/
def Due (t : List α) : Prop := ∀ u e v, t = u ++ e :: v → marked e → gap v

/-- Every marked entry was due when it came. -/
def Separated (t : List α) : Prop :=
  ∀ u e w, t = u ++ e :: w → marked e → Due marked gap u

variable {marked gap} {t u : List α}

/-- An entry in front of a cut, if it is not behind it. -/
theorem split_before {t₁ t₂ u v : List α} {e m : α} (h : t₁ ++ m :: t₂ = u ++ e :: v)
    (hne : e ≠ m) (hnot : e ∉ t₂) : ∃ v₁, t₁ = u ++ e :: v₁ ∧ v = v₁ ++ m :: t₂ := by
  rcases List.append_eq_append_iff.mp h with ⟨as, -, has⟩ | ⟨bs, hbs, hev⟩
  · have hmem : e ∈ m :: t₂ := by
      rw [has]
      simp
    rcases List.mem_cons.mp hmem with he | he
    · exact absurd he hne
    · exact absurd he hnot
  · cases bs with
    | nil => exact absurd (List.cons.inj hev).1 hne
    | cons b bs =>
        obtain ⟨rfl, rfl⟩ := List.cons.inj hev
        exact ⟨bs, hbs, rfl⟩

/-- Two entries at known places. -/
theorem split_at {t : List α} {m n : ℕ} {e e' : α} (hm : t[m]? = some e)
    (hn : t[m + 1 + n]? = some e') :
    ∃ v w, t = t.take m ++ e :: (v ++ e' :: w) ∧ v.length = n := by
  obtain ⟨hlt, hget⟩ := List.getElem?_eq_some_iff.mp hm
  obtain ⟨hlt', hget'⟩ := List.getElem?_eq_some_iff.mp hn
  refine ⟨(t.drop (m + 1)).take n, t.drop (m + 1 + n + 1), ?_, by simp; omega⟩
  have hrest : e' :: t.drop (m + 1 + n + 1) = (t.drop (m + 1)).drop n := by
    rw [List.drop_drop, ← hget', List.getElem_cons_drop]
  rw [hrest, List.take_append_drop, ← hget, List.getElem_cons_drop, List.take_append_drop]

theorem due_nil : Due marked gap [] := by
  intro u e v h
  cases u <;> cases h

theorem separated_nil : Separated marked gap [] := by
  intro u e w h
  cases u <;> cases h

/-- A marked entry of a longer list whose new entries are unmarked is one of the old. -/
theorem split_append {t events u w : List α} {e : α} (h : t ++ events = u ++ e :: w)
    (hnot : e ∉ events) : ∃ v, t = u ++ e :: v ∧ w = v ++ events := by
  cases events with
  | nil => exact ⟨w, by rw [← h, List.append_nil], by rw [List.append_nil]⟩
  | cons m events =>
      have hne : e ≠ m := fun he => hnot (he ▸ List.mem_cons_self ..)
      exact split_before h hne fun he => hnot (List.mem_cons_of_mem _ he)

/-- Unmarked entries come at any time. -/
theorem Separated.append (h : Separated marked gap t) (hu : ∀ e ∈ u, ¬ marked e) :
    Separated marked gap (t ++ u) := by
  intro u' e w hsplit hm
  obtain ⟨v, ht, -⟩ := split_append hsplit fun he => hu e he hm
  exact h u' e v ht hm

/-- They use up nothing, when a gap may be longer. -/
theorem Due.append (hgap : ∀ v w, gap v → gap (v ++ w)) (h : Due marked gap t)
    (hu : ∀ e ∈ u, ¬ marked e) : Due marked gap (t ++ u) := by
  intro u' e w hsplit hm
  obtain ⟨v, ht, rfl⟩ := split_append hsplit fun he => hu e he hm
  exact hgap v u (h u' e v ht hm)

/-- A marked entry comes when it is due. -/
theorem Separated.snoc {e : α} (h : Separated marked gap t) (hd : Due marked gap t) :
    Separated marked gap (t ++ [e]) := by
  intro u e' w hsplit hm
  rcases List.eq_nil_or_concat w with rfl | ⟨w, b, rfl⟩
  · obtain ⟨rfl, -⟩ := List.append_inj' hsplit rfl
    exact hd
  · rw [List.concat_eq_append, ← List.cons_append, ← List.append_assoc] at hsplit
    obtain ⟨ht, -⟩ := List.append_inj' hsplit rfl
    exact h u e' w ht hm

/-- What begins with an unmarked entry and goes on without marks is a gap behind everything
before it. -/
theorem due_of_cut {t₁ t₂ : List α} {m : α} (hm : ¬ marked m) (hnot : ∀ e ∈ t₂, ¬ marked e)
    (hgap : ∀ v, gap (v ++ m :: t₂)) : Due marked gap (t₁ ++ m :: t₂) := by
  intro u e v hsplit he
  have hne : e ≠ m := fun hem => hm (hem ▸ he)
  obtain ⟨v₁, -, rfl⟩ := split_before hsplit hne fun hmem => hnot e hmem he
  exact hgap v₁

/-- Between any two marked entries there is a gap. -/
theorem Separated.between {e e' : α} {u v w : List α}
    (h : Separated marked gap (u ++ e :: (v ++ e' :: w))) (he : marked e) (he' : marked e') :
    gap v :=
  h (u ++ e :: v) e' w (by simp) he' u e v rfl he

end Separation
