import Mathlib.Data.List.Forall2

/-! Rooted graphs: what a set of roots can reach, and the order in which a breadth-first walk
finds it. A value is data or a reference to a vertex; a vertex has a label and fields. -/

namespace RootedGraph

/-- A labelled graph whose vertices have an ordered list of fields. -/
structure Graph (V A L : Type) where
  label : V → L
  fields : V → List (A ⊕ V)

section Reach

variable {V A L : Type} (g : Graph V A L) (roots : List (A ⊕ V))

/-- The vertices found from the roots through fields. -/
inductive Reach : V → Prop
  | root {v : V} (h : Sum.inr v ∈ roots) : Reach v
  | field {u v : V} (hu : Reach u) (h : Sum.inr v ∈ g.fields u) : Reach v

variable {g roots}

/-- A set with the roots in it and closed under fields has every reachable vertex. -/
theorem Reach.subset {P : V → Prop} (hroots : ∀ v, Sum.inr v ∈ roots → P v)
    (hfields : ∀ u v, P u → Sum.inr v ∈ g.fields u → P v) {v : V} (h : Reach g roots v) : P v := by
  induction h with
  | root h => exact hroots _ h
  | field _ h ih => exact hfields _ _ ih h

/-- Roots that were reachable before reach nothing new. -/
theorem Reach.of_roots {roots' : List (A ⊕ V)} (h : ∀ v, Sum.inr v ∈ roots' → Reach g roots v)
    {v : V} (hv : Reach g roots' v) : Reach g roots v :=
  hv.subset h fun _ _ hu hf => .field hu hf

/-- Roots that were reachable before, and one vertex whose fields were. -/
theorem Reach.of_roots_or {roots' : List (A ⊕ V)} {n : V}
    (hn : ∀ v, Sum.inr v ∈ g.fields n → Reach g roots v)
    (hr : ∀ v, Sum.inr v ∈ roots' → v = n ∨ Reach g roots v) {v : V} (hv : Reach g roots' v) :
    v = n ∨ Reach g roots v := by
  refine hv.subset (P := fun v => v = n ∨ Reach g roots v) hr fun u v hu hf => ?_
  rcases hu with rfl | hu
  · exact .inr (hn v hf)
  · exact .inr (.field hu hf)

/-- Graphs that agree on the reachable vertices reach the same ones. -/
theorem Reach.congr {g' : Graph V A L} (h : ∀ v, Reach g roots v → g'.fields v = g.fields v)
    {v : V} : Reach g' roots v ↔ Reach g roots v := by
  constructor
  · intro hv
    induction hv with
    | root hr => exact .root hr
    | field _ hf ih => exact .field ih (h _ ih ▸ hf)
  · intro hv
    induction hv with
    | root hr => exact .root hr
    | field hu hf ih => exact .field ih ((h _ hu).symm ▸ hf)

end Reach

section Walk

variable {V Q : Type} (target : Q → Option V) (next : V → List Q)

/-- A breadth-first walk that has found `found` and has `queue` to look at ends with `all`,
in the order of finding. -/
inductive Walk : List V → List Q → List V → Prop
  | done (found : List V) : Walk found [] found
  | skip {found all : List V} {q : Q} {queue : List Q} (old : ∀ v, target q = some v → v ∈ found)
      (rest : Walk found queue all) : Walk found (q :: queue) all
  | find {found all : List V} {q : Q} {queue : List Q} {v : V} (refers : target q = some v)
      (new : v ∉ found) (rest : Walk (found ++ [v]) (queue ++ next v) all) :
      Walk found (q :: queue) all

variable {target next}

theorem Walk.unique {found all all' : List V} {queue : List Q}
    (h : Walk target next found queue all)
    (h' : Walk target next found queue all') : all' = all := by
  induction h with
  | done found =>
      cases h'
      rfl
  | skip old _ ih =>
      cases h' with
      | skip _ rest => exact ih rest
      | find refers new _ => exact absurd (old _ refers) new
  | find refers new _ ih =>
      cases h' with
      | skip old _ => exact absurd (old _ refers) new
      | find refers' _ rest =>
          rw [refers, Option.some.injEq] at refers'
          subst refers'
          exact ih rest

/-- A walk keeps what it has found, in its order. -/
theorem Walk.isPrefix {found all : List V} {queue : List Q} (h : Walk target next found queue all) :
    ∃ more, all = found ++ more := by
  induction h with
  | done found => exact ⟨[], (List.append_nil found).symm⟩
  | skip _ _ ih => exact ih
  | @find found all q queue v _ _ _ ih =>
      obtain ⟨more, hmore⟩ := ih
      exact ⟨v :: more, by rw [hmore, List.append_assoc, List.singleton_append]⟩

/-- A walk finds only what its queue and the entries behind it refer to. -/
theorem Walk.forall_mem {P : V → Prop}
    (hnext : ∀ v, P v → ∀ q ∈ next v, ∀ w, target q = some w → P w)
    {found all : List V} {queue : List Q} (h : Walk target next found queue all)
    (hfound : ∀ v ∈ found, P v) (hqueue : ∀ q ∈ queue, ∀ v, target q = some v → P v) :
    ∀ v ∈ all, P v := by
  induction h with
  | done found => exact hfound
  | skip _ _ ih => exact ih hfound fun q hq => hqueue q (List.mem_cons_of_mem _ hq)
  | find refers _ _ ih =>
      have hv := hqueue _ List.mem_cons_self _ refers
      apply ih
      · intro w hw
        rcases List.mem_append.mp hw with hw | hw
        · exact hfound w hw
        · exact List.mem_singleton.mp hw ▸ hv
      · intro q hq
        rcases List.mem_append.mp hq with hq | hq
        · exact hqueue q (List.mem_cons_of_mem _ hq)
        · exact hnext _ hv q hq

/-- A walk over other entries finds the same, as long as the entries refer to the same. -/
theorem Walk.congr {Q' : Type} {target' : Q' → Option V} {next' : V → List Q'} {P : V → Prop}
    {R : Q → Q' → Prop}
    (htarget : ∀ q q', R q q' → target' q' = target q ∧ ∀ v, target q = some v → P v)
    (hnext : ∀ v, P v → List.Forall₂ R (next v) (next' v)) {found all : List V} {queue : List Q}
    (h : Walk target next found queue all) {queue' : List Q'}
    (hqueue : List.Forall₂ R queue queue') :
    Walk target' next' found queue' all := by
  induction h generalizing queue' with
  | done found =>
      cases hqueue
      exact .done found
  | skip old _ ih =>
      cases hqueue with
      | cons hq hqueue =>
          exact .skip (fun v hv => old v ((htarget _ _ hq).1 ▸ hv)) (ih hqueue)
  | find refers new _ ih =>
      cases hqueue with
      | cons hq hqueue =>
          obtain ⟨heq, hP⟩ := htarget _ _ hq
          exact .find (heq.trans refers) new (ih (List.rel_append hqueue (hnext _ (hP _ refers))))

end Walk

end RootedGraph
