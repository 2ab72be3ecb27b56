import Mathlib.Data.List.Basic

/-! Runs of a labelled step relation, with the labels of all their steps, oldest first. -/

universe u v

variable {S : Type u} {L : Type v}

inductive LabelledRun (step : S → List L → S → Prop) (start : S) : S → List L → Prop
  | nil : LabelledRun step start start []
  | snoc {s s' : S} {ls new : List L} (before : LabelledRun step start s ls)
      (next : step s new s') : LabelledRun step start s' (ls ++ new)

namespace LabelledRun

variable {step : S → List L → S → Prop} {start s : S} {ls : List L}

/-- A state that a run reaches, and a step from there. -/
theorem extend {s' : S} {new : List L} (h : ∃ ls, LabelledRun step start s ls)
    (next : step s new s') : ∃ ls, LabelledRun step start s' ls := by
  obtain ⟨ls, hrun⟩ := h
  exact ⟨ls ++ new, hrun.snoc next⟩

/-- An invariant of the steps holds where a run ends. -/
theorem invariant {I : S → Prop} (h : LabelledRun step start s ls) (init : I start)
    (keep : ∀ s new s', I s → step s new s' → I s') : I s := by
  induction h with
  | nil => exact init
  | snoc _ next ih => exact keep _ _ _ ih next

/-- What every step grants of its labels holds of all the labels of a run. -/
theorem forall_label {P : L → Prop} (h : LabelledRun step start s ls)
    (grant : ∀ s new s', step s new s' → ∀ l ∈ new, P l) : ∀ l ∈ ls, P l := by
  induction h with
  | nil => exact nofun
  | snoc _ next ih =>
      intro l hl
      rcases List.mem_append.mp hl with hold | hnew
      · exact ih l hold
      · exact grant _ _ _ next l hnew

end LabelledRun
