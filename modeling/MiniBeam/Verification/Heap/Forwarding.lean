import MiniBeam.Verification.Heap.Allocate

/-! Forwarding records. A record takes two words of the old space, so it stays inside the
object that is moved as long as no empty tuple is moved. -/

namespace MiniBeam

open Layout (slice addr)
open RootedGraph

/-- What the collector's forwarding should do: a call writes only words of the object it
moves, an object that is moved still has its original words, and all calls for one object
return the same reference. -/
structure ForwardsInside (heap : Heap) (roots : List Term) : Prop where
  inside : ∀ c ∈ gcCalls heap roots, ∀ o size, movedObject c = some (o, size) →
    ∀ w ∈ oldWrites c, o.off ≤ w.1 ∧ w.1 < o.off + size ∧ w.1 < heap.capacity
  intact : ∀ c ∈ gcCalls heap roots, ∀ o size, movedObject c = some (o, size) →
    slice c.1.toSpace o.off size = slice heap.fromSpace o.off size
  again : ∀ c ∈ gcCalls heap roots, ∀ c' ∈ gcCalls heap roots, c'.2 = c.2 →
    (mbGcCopyTerm c'.1 c'.2).map Prod.fst = (mbGcCopyTerm c.1 c.2).map Prod.fst

section Calls

variable {old : List Term} {hp₀ cap lo : ℕ} {live may : Obj → Prop}
  (hold : Old old hp₀ cap lo live may) {heap : Heap} {objs : List Obj} {scan : ℕ}
include hold

/-- A call moves the object its term refers to, if that was not copied before. -/
theorem Copied.movedObject_some (h : Copied old cap live may heap objs scan) {t : Term}
    (ht : Legal live t) {o : Obj} {size : ℕ} (hm : movedObject (heap, t) = some (o, size)) :
    live o ∧ o ∉ objs ∧ size = o.size old := by
  cases htarget : target t with
  | none =>
      have hdata : (isImmediate t || t == 0) = true := by
        rcases ht.data htarget with hz | hi
        · simp [hz]
        · simp [hi]
      simp only [movedObject] at hm
      rw [if_pos hdata] at hm
      cases hm
  | some a =>
      have ha := ht.target_live a htarget
      by_cases hmem : a ∈ objs
      · rw [h.movedObject_old htarget hmem] at hm
        cases hm
      · rw [h.movedObject_new hold htarget ha hmem] at hm
        cases hm
        exact ⟨ha, hmem, rfl⟩

/-- A call returns the reference that the walk over all objects gives. -/
theorem Copied.copyTerm_all (h : Copied old cap live may heap objs scan) {t : Term}
    (ht : Legal live t) (hmay : ∀ o, live o → may o) {queue : List Term} {all : List Obj}
    (hall : Finds old objs (t :: queue) all) :
    (mbGcCopyTerm heap t).map Prod.fst = .ok (relocate (addr (Obj.words old) all) t) := by
  cases htarget : target t with
  | none =>
      obtain ⟨heap', more, hcopy, -⟩ :=
        h.copyTerm hold ht fun o ho _ => hmay o (ht.target_live o ho)
      rw [hcopy, relocate_none htarget, relocate_none htarget]
      rfl
  | some o =>
      have hlive := ht.target_live o htarget
      have hsame : ∀ objs' more, all = objs' ++ more → o ∈ objs' →
          relocate (addr (Obj.words old) objs') t = relocate (addr (Obj.words old) all) t := by
        intro objs' more hmore ho
        rw [hmore]
        exact relocate_congr fun a ha => by
          rw [htarget, Option.some.injEq] at ha
          exact (Layout.addr_append_of_mem (ha ▸ ho) more).symm
      by_cases ho : o ∈ objs
      · obtain ⟨more, hmore⟩ := hall.isPrefix
        rw [h.copyTerm_old hold htarget ho, ← hsame objs more hmore ho]
        rfl
      · obtain ⟨heap', hcopy, -⟩ := h.copyTerm_new hold htarget hlive (hmay o hlive) ho
        cases hall with
        | skip old _ => exact absurd (old o htarget) ho
        | find refers _ rest =>
            rw [htarget, Option.some.injEq] at refers
            subst refers
            obtain ⟨more, hmore⟩ := rest.isPrefix
            rw [hcopy, ← hsame (objs ++ [o]) more hmore (by simp)]
            rfl

end Calls

/-- Forwarding stays inside the moved objects if and only if the roots reach no empty tuple. -/
theorem forwardsInside_iff {heap : Heap} {roots : List Term} (h : heap.WellFormed 0 roots) :
    ForwardsInside heap roots ↔
      ∀ off, Live heap.fromSpace roots (.tuple off) → 0 < Obj.arity heap.fromSpace off := by
  have hold := h.old (fun o => 2 ≤ o.size heap.fromSpace) fun o => h.recordFits
  constructor
  · intro hf off hlive
    have hadmits : Admits heap.fromSpace heap.capacity (Live heap.fromSpace roots)
        (fun o => 2 ≤ o.size heap.fromSpace) (gcCalls heap roots) := by
      rintro ⟨heap', t⟩ hc objs scan hcopied hlegal o ho hnew
      have hm := hcopied.movedObject_new hold ho (hlegal.target_live o ho) hnew
      have hw :=
        hf.inside _ hc _ _ hm (o.off + 1, BitVec.ofNat 32 heap'.hp) (by simp [oldWrites, hm])
      dsimp only at hw ⊢
      omega
    obtain ⟨objs, done, -, -, hcopied, hroots, -⟩ := h.gc_copied hold hadmits
    have hsize := hcopied.mayMove _ (hcopied.all_live hroots hlive)
    simp only [Obj.size] at hsize
    omega
  · intro hne
    have hlarge : ∀ o, Live heap.fromSpace roots o → 2 ≤ o.size heap.fromSpace := by
      intro o ho
      cases o with
      | cell off => exact Nat.le_refl 2
      | tuple off =>
          have := hne off ho
          simp only [Obj.size]
          omega
    obtain ⟨objs, done, -, -, -, -, -, hvisited⟩ :=
      h.gc_copied hold fun c _ _ _ _ hlegal o ho _ => hlarge o (hlegal.target_live o ho)
    constructor
    case inside =>
      rintro ⟨heap', t⟩ hc o size hm w hw
      obtain ⟨before, scan, queue, hcopied, hlegal, -⟩ := hvisited _ hc
      obtain ⟨hlive, -, rfl⟩ := hcopied.movedObject_some hold hlegal hm
      have hsize := hlarge o hlive
      have hbelow := hold.off_add_size_le hlive
      rw [h.fromLength] at hbelow
      simp only [oldWrites, hm, List.mem_cons, List.not_mem_nil, or_false] at hw
      rcases hw with rfl | rfl
      · exact ⟨Nat.le_refl _, by omega, by omega⟩
      · exact ⟨Nat.le_succ _, by omega, by omega⟩
    case intact =>
      rintro ⟨heap', t⟩ hc o size hm
      obtain ⟨before, scan, queue, hcopied, hlegal, -⟩ := hvisited _ hc
      obtain ⟨hlive, hnew, rfl⟩ := hcopied.movedObject_some hold hlegal hm
      exact hcopied.intact o hlive hnew
    case again =>
      rintro ⟨heap₁, t⟩ hc ⟨heap₂, u⟩ hc' hsame
      dsimp only at hsame
      subst hsame
      obtain ⟨_, _, _, hcopied, hlegal, hfinds⟩ := hvisited _ hc
      obtain ⟨_, _, _, hcopied', hlegal', hfinds'⟩ := hvisited _ hc'
      rw [hcopied.copyTerm_all hold hlegal hlarge hfinds,
        hcopied'.copyTerm_all hold hlegal' hlarge hfinds']

/-- The knot has no empty tuple. -/
theorem forwardsInside_knot : ForwardsInside knot [makeCons 2] := by
  obtain ⟨hfrom, hto, hcap, hhp, hsound⟩ := knot_wellFormed
  refine (forwardsInside_iff ⟨hfrom, hto, hcap, hhp, hsound.mono (Nat.zero_le 1)⟩).mpr
    fun off hlive => ?_
  rcases knot_live hlive with h | h
  · cases h
  · cases h
    decide

/-! ### An empty tuple in front of a cell -/

/-- An empty tuple, a cell behind it, and a second reference to the tuple. -/
def crowded : Heap where
  fromSpace := [makeTupleHdr 0, makeSmallint 5, makeSmallint 6] ++ List.replicate 125 0
  toSpace := List.replicate 128 0
  hp := 3
  capacity := 128
  gcCount := 0

def crowdedRoots : List Term := [makeBoxed 0, makeCons 1, makeBoxed 0]

theorem crowded_tuple : Obj.fields crowded.fromSpace (.tuple 0) = [] := rfl

theorem crowded_cell : Obj.fields crowded.fromSpace (.cell 1) = [makeSmallint 5, makeSmallint 6] :=
  rfl

theorem crowded_root {t : Term} (ht : t ∈ crowdedRoots) : t = makeBoxed 0 ∨ t = makeCons 1 := by
  simp only [crowdedRoots, List.mem_cons, List.not_mem_nil, or_false] at ht
  rcases ht with h | h | h
  · exact .inl h
  · exact .inr h
  · exact .inl h

theorem crowded_data {o : Obj} (ho : o = .tuple 0 ∨ o = .cell 1) :
    ∀ t ∈ o.fields crowded.fromSpace, isImmediate t = true := by
  intro t ht
  rcases ho with rfl | rfl
  · rw [crowded_tuple] at ht
    cases ht
  · rw [crowded_cell] at ht
    rcases List.mem_pair.mp ht with rfl | rfl <;> decide

theorem crowded_live {o : Obj} (h : Live crowded.fromSpace crowdedRoots o) :
    o = .tuple 0 ∨ o = .cell 1 := by
  refine h.subset (P := fun o => o = .tuple 0 ∨ o = .cell 1) (fun v hv => ?_) fun u v hu hv => ?_
  · obtain ⟨t, ht, htarget⟩ := mem_map_value.mp hv
    rcases crowded_root ht with rfl | rfl
    · exact .inl (Option.some.inj (htarget.symm.trans (by decide)))
    · exact .inr (Option.some.inj (htarget.symm.trans (by decide)))
  · obtain ⟨t, ht, htarget⟩ := mem_map_value.mp hv
    rw [target_of_immediate (.inr (crowded_data hu t ht))] at htarget
    cases htarget

theorem crowded_wellFormed : crowded.WellFormed 0 crowdedRoots := by
  refine ⟨by simp [crowded], by simp [crowded], by decide, by decide, fun t ht => ?_,
    fun o ho t ht => .immediate (crowded_data (crowded_live ho) t ht), fun o o' ho ho' hne => ?_⟩
  · rcases crowded_root ht with rfl | rfl
    · exact .boxed (makeTupleHdr 0) (by decide) (by decide) (by decide) (by decide) (by decide)
        (by decide)
    · exact .cons (by decide) (by decide)
  · rcases crowded_live ho with rfl | rfl <;> rcases crowded_live ho' with rfl | rfl
    · exact absurd rfl hne
    · exact .inl (by decide)
    · exact .inr (by decide)
    · exact absurd rfl hne

/-- The record of the empty tuple overwrites the head of the cell, and the record of the cell
overwrites the record of the tuple. -/
theorem crowded_not_inside :
    crowded.WellFormed 0 crowdedRoots ∧ ¬ ForwardsInside crowded crowdedRoots ∧
      (mbHeapGc crowded crowdedRoots).map (fun r => (r.1, r.2.fromSpace.take 3)) =
        .ok ([makeBoxed 0, makeCons 1, makeBoxed 0xDEAD0002],
          [makeTupleHdr 0, 0, makeSmallint 6]) := by
  refine ⟨crowded_wellFormed, fun h => ?_, by decide +kernel⟩
  let start : Heap :=
    { crowded with fromSpace := crowded.toSpace, toSpace := crowded.fromSpace, hp := 0 }
  have hc : (start, makeBoxed 0) ∈ gcCalls crowded crowdedRoots := List.mem_cons_self
  have hm : movedObject (start, makeBoxed 0) = some (.tuple 0, 1) := by decide +kernel
  have hw := h.inside _ hc _ _ hm (1, 0) (by simp [oldWrites, hm, Obj.off, start])
  exact absurd hw.2.1 (by decide)

end MiniBeam
