import MiniBeam.Verification.Heap.Bounds
import MiniBeam.Verification.Heap.Objects

/-! The calls of `mb_gc_copy_term` during a collection, with the heap that each call finds,
and the words that a call writes into the old space. -/

namespace MiniBeam

/-! ### The calls -/

/-- A call: the heap it finds, and its term. -/
abbrev GcCall := Heap × Term

def rootCalls (heap : Heap) : List Term → List GcCall
  | [] => []
  | root :: roots =>
    (heap, root) ::
      match mbGcCopyTerm heap root with
      | .ok (_, heap) => rootCalls heap roots
      | .error _ => []

def wordCalls (heap : Heap) (scan : ℕ) : List GcCall :=
  match readWord heap.fromSpace scan with
  | .ok w => [(heap, w)]
  | .error _ => []

def elemCalls (heap : Heap) (scan : ℕ) : ℕ → List GcCall
  | 0 => []
  | n + 1 =>
    wordCalls heap scan ++
      match scanWord heap scan with
      | .ok heap => elemCalls heap (scan + 1) n
      | .error _ => []

def loopCalls (heap : Heap) (scan : ℕ) : ℕ → List GcCall
  | 0 => []
  | fuel + 1 =>
    if scan < heap.hp then
      match readWord heap.fromSpace scan with
      | .error _ => []
      | .ok w =>
        if isTupleHdr w then
          elemCalls heap (scan + 1) (getTupleArity w) ++
            match scanElems heap (scan + 1) (getTupleArity w) with
            | .ok (scan, heap) => loopCalls heap scan fuel
            | .error _ => []
        else
          wordCalls heap scan ++
            match scanWord heap scan with
            | .ok heap => loopCalls heap (scan + 1) fuel
            | .error _ => []
    else []

/-- The calls of `mbHeapGc`, as long as it does not fault. -/
def gcCalls (heap : Heap) (roots : List Term) : List GcCall :=
  let heap := { heap with fromSpace := heap.toSpace, toSpace := heap.fromSpace, hp := 0 }
  rootCalls heap roots ++
    match copyRoots heap roots with
    | .ok (_, heap) => loopCalls heap 0 (heap.fromSpace.length + 1)
    | .error _ => []

/-! ### The writes of a call -/

/-- The object that a call moves, and how many words it has; `none` when the call moves
nothing. -/
def movedObject (c : GcCall) : Option (Obj × ℕ) :=
  if isImmediate c.2 || c.2 == 0 then none
  else if isBoxed c.2 then
    match readWord c.1.toSpace (getBoxed c.2) with
    | .error _ => none
    | .ok hdr =>
      if isMoved hdr || !isTupleHdr hdr then none
      else some (.tuple (getBoxed c.2), 1 + getTupleArity hdr)
  else if isCons c.2 then
    match readWord c.1.toSpace (getCons c.2) with
    | .error _ => none
    | .ok head => if isMoved head then none else some (.cell (getCons c.2), 2)
  else none

/-- The writes of a call into the old space: the forwarding record of the object it moves. -/
def oldWrites (c : GcCall) : List (ℕ × Term) :=
  match movedObject c with
  | none => []
  | some (o, _) => [(o.off, movedMarker), (o.off + 1, BitVec.ofNat 32 c.1.hp)]

theorem moveObject_toSpace {heap heap' : Heap} {off size newOff : ℕ}
    (h : moveObject heap off size = .ok (newOff, heap')) :
    heap'.toSpace = (heap.toSpace.set off movedMarker).set (off + 1) (BitVec.ofNat 32 heap.hp) := by
  obtain ⟨new, -, h⟩ := bind_eq_ok.mp h
  obtain ⟨old₁, hold₁, h⟩ := bind_eq_ok.mp h
  obtain ⟨old₂, hold₂, h⟩ := bind_eq_ok.mp h
  simp only [pure_ok, Except.ok.injEq, Prod.mk.injEq] at h
  rw [← h.2, ← (writeWord_ok hold₁).2]
  exact (writeWord_ok hold₂).2

/-- A call that moves no object changes nothing. -/
theorem mbGcCopyTerm_keeps {heap heap' : Heap} {term term' : Term}
    (hnone : movedObject (heap, term) = none) (h : mbGcCopyTerm heap term = .ok (term', heap')) :
    heap' = heap := by
  have hkeep : ∀ {t : Term}, (Except.ok (t, heap) : Except Fault (Term × Heap)) =
      .ok (term', heap') → heap' = heap := by
    intro t h
    simp only [Except.ok.injEq, Prod.mk.injEq] at h
    exact h.2.symm
  simp only [movedObject] at hnone
  unfold mbGcCopyTerm at h
  split at h
  · exact hkeep h
  · rename_i hdata
    rw [if_neg hdata] at hnone
    split at h
    · rename_i hb
      obtain ⟨hdr, hread, h⟩ := bind_eq_ok.mp h
      rw [if_pos hb, hread] at hnone
      dsimp only at hnone
      split at h
      · obtain ⟨w, -, h⟩ := bind_eq_ok.mp h
        exact hkeep h
      · rename_i hmoved
        split at h
        · exact hkeep h
        · rename_i hhdr
          rw [if_neg (by simp [hmoved, hhdr])] at hnone
          cases hnone
    · rename_i hb
      rw [if_neg hb] at hnone
      split at h
      · rename_i hc
        obtain ⟨head, hread, h⟩ := bind_eq_ok.mp h
        rw [if_pos hc, hread] at hnone
        dsimp only at hnone
        split at h
        · obtain ⟨w, -, h⟩ := bind_eq_ok.mp h
          exact hkeep h
        · rename_i hmoved
          rw [if_neg hmoved] at hnone
          cases hnone
      · exact hkeep h

/-- A call that moves an object is its move. -/
theorem mbGcCopyTerm_moves {heap : Heap} {term : Term} {o : Obj} {size : ℕ}
    (hsome : movedObject (heap, term) = some (o, size)) :
    mbGcCopyTerm heap term = do
      let (newOff, heap) ← moveObject heap o.off size
      return ((o.moveTo newOff).term, heap) := by
  simp only [movedObject] at hsome
  split at hsome
  · cases hsome
  · rename_i hdata
    split at hsome
    · rename_i hb
      split at hsome
      · cases hsome
      · rename_i hdr hread
        split at hsome
        · cases hsome
        · rename_i hhdr
          simp only [Bool.or_eq_true, Bool.not_eq_true', not_or] at hhdr
          cases hsome
          rw [mbGcCopyTerm, if_neg hdata, if_pos hb]
          dsimp only
          rw [hread, ok_bind, if_neg hhdr.1, if_neg (by simpa using hhdr.2)]
          rfl
    · rename_i hb
      split at hsome
      · rename_i hc
        split at hsome
        · cases hsome
        · rename_i head hread
          split at hsome
          · cases hsome
          · rename_i hmoved
            cases hsome
            rw [mbGcCopyTerm, if_neg hdata, if_neg hb, if_pos hc]
            dsimp only
            rw [hread, ok_bind, if_neg hmoved]
            rfl
      · cases hsome

/-- These are all the writes of a call that returns. -/
theorem mbGcCopyTerm_toSpace {heap heap' : Heap} {term term' : Term}
    (h : mbGcCopyTerm heap term = .ok (term', heap')) :
    heap'.toSpace =
      (oldWrites (heap, term)).foldl (fun space w => space.set w.1 w.2) heap.toSpace := by
  unfold oldWrites
  cases hmoved : movedObject (heap, term) with
  | none => rw [mbGcCopyTerm_keeps hmoved h, List.foldl_nil]
  | some object =>
      obtain ⟨o, size⟩ := object
      rw [mbGcCopyTerm_moves hmoved] at h
      obtain ⟨⟨newOff, heap₁⟩, hm, h⟩ := bind_eq_ok.mp h
      simp only [pure_ok, Except.ok.injEq, Prod.mk.injEq] at h
      rw [← h.2]
      exact moveObject_toSpace hm

end MiniBeam
