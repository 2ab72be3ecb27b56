import MiniBeam.Verification.Step.Lens

/-! Heap operations touch heap words and nothing else: the only fault they can end in is
a heap word out of range, and the collector's loop always ends. -/

namespace MiniBeam

/-- A computation whose only possible fault is a heap word out of range. -/
def Safe {α : Type} (x : Except Fault α) : Prop := ∀ f, x = .error f → ∃ i, f = .word i

namespace Safe

variable {α β : Type}

theorem ok (a : α) : Safe (.ok a) := fun _ h => nomatch h

theorem word (i : ℕ) : Safe (.error (.word i) : Except Fault α) := by
  rintro f ⟨⟩
  exact ⟨i, rfl⟩

theorem bind {x : Except Fault α} {k : α → Except Fault β} (hx : Safe x)
    (hk : ∀ a, x = .ok a → Safe (k a)) : Safe (x >>= k) := by
  cases x with
  | error f =>
      intro g hg
      rw [error_bind] at hg
      cases hg
      exact hx f rfl
  | ok a => exact hk a rfl

end Safe

theorem readWord_safe (space : List Term) (i : ℕ) : Safe (readWord space i) := by
  unfold readWord
  split
  · exact Safe.ok _
  · exact Safe.word i

theorem readWord_ok {space : List Term} {i : ℕ} {w : Term} (h : readWord space i = .ok w) :
    i < space.length ∧ space[i]? = some w := by
  unfold readWord at h
  split at h
  · rename_i hw
    simp only [Except.ok.injEq] at h
    subst h
    exact ⟨(List.getElem?_eq_some_iff.mp hw).1, hw⟩
  · simp at h

theorem writeWord_safe (space : List Term) (i : ℕ) (w : Term) : Safe (writeWord space i w) := by
  unfold writeWord
  split
  · exact Safe.ok _
  · exact Safe.word i

theorem writeWord_ok {space space' : List Term} {i : ℕ} {w : Term}
    (h : writeWord space i w = .ok space') : i < space.length ∧ space' = space.set i w := by
  unfold writeWord at h
  split at h
  · simp only [Except.ok.injEq] at h
    exact ⟨by assumption, h.symm⟩
  · simp at h

theorem copyWords_safe (dst : List Term) (dstOff : ℕ) (src : List Term) (srcOff n : ℕ) :
    Safe (copyWords dst dstOff src srcOff n) := by
  induction n with
  | zero => exact Safe.ok _
  | succ n ih =>
      exact ih.bind fun _ _ => (readWord_safe _ _).bind fun _ _ => writeWord_safe _ _ _

theorem copyWords_length {dst dst' src : List Term} {dstOff srcOff n : ℕ}
    (h : copyWords dst dstOff src srcOff n = .ok dst') : dst'.length = dst.length := by
  induction n generalizing dst' with
  | zero =>
      simp only [copyWords, Except.ok.injEq] at h
      rw [h]
  | succ n ih =>
      obtain ⟨mid, hmid, h⟩ := bind_eq_ok.mp h
      obtain ⟨w, -, h⟩ := bind_eq_ok.mp h
      rw [(writeWord_ok h).2, List.length_set, ih hmid]

theorem storeElems_safe (space : List Term) (off : ℕ) (elems : List Term) (i n : ℕ)
    (hn : i + n ≤ elems.length) : Safe (storeElems space off elems i n) := by
  induction n generalizing space i with
  | zero => exact Safe.ok _
  | succ n ih =>
      have hi : i < elems.length := by omega
      simp only [storeElems, List.getElem?_eq_getElem hi]
      exact (writeWord_safe _ _ _).bind fun _ _ => ih _ _ (by omega)

theorem mbHeapMakeTuple_safe (heap : Heap) (elems : List Term) :
    Safe (mbHeapMakeTuple heap elems elems.length) := by
  unfold mbHeapMakeTuple
  split
  · exact Safe.ok _
  · exact (writeWord_safe _ _ _).bind fun _ _ =>
      (storeElems_safe _ _ _ _ _ (by omega)).bind fun _ _ => Safe.ok _

theorem mbHeapCons_safe (heap : Heap) (head tail : Term) : Safe (mbHeapCons heap head tail) := by
  unfold mbHeapCons
  split
  · exact Safe.ok _
  · exact (writeWord_safe _ _ _).bind fun _ _ => (writeWord_safe _ _ _).bind fun _ _ => Safe.ok _

/-! ### The collector -/

theorem moveObject_safe (heap : Heap) (oldOff size : ℕ) : Safe (moveObject heap oldOff size) :=
  (copyWords_safe _ _ _ _ _).bind fun _ _ => (writeWord_safe _ _ _).bind fun _ _ =>
    (writeWord_safe _ _ _).bind fun _ _ => Safe.ok _

theorem moveObject_length {heap heap' : Heap} {oldOff size newOff : ℕ}
    (h : moveObject heap oldOff size = .ok (newOff, heap')) :
    heap'.fromSpace.length = heap.fromSpace.length := by
  obtain ⟨new, hnew, h⟩ := bind_eq_ok.mp h
  obtain ⟨old₁, -, h⟩ := bind_eq_ok.mp h
  obtain ⟨old₂, -, h⟩ := bind_eq_ok.mp h
  simp only [pure_ok, Except.ok.injEq, Prod.mk.injEq] at h
  rw [← h.2]
  exact copyWords_length hnew

theorem mbGcCopyTerm_safe (heap : Heap) (term : Term) : Safe (mbGcCopyTerm heap term) := by
  unfold mbGcCopyTerm
  split
  · exact Safe.ok _
  · split
    · refine (readWord_safe _ _).bind fun hdr _ => ?_
      split
      · exact (readWord_safe _ _).bind fun _ _ => Safe.ok _
      · split
        · exact Safe.ok _
        · exact (moveObject_safe _ _ _).bind fun _ _ => Safe.ok _
    · split
      · refine (readWord_safe _ _).bind fun hdr _ => ?_
        split
        · exact (readWord_safe _ _).bind fun _ _ => Safe.ok _
        · exact (moveObject_safe _ _ _).bind fun _ _ => Safe.ok _
      · exact Safe.ok _

theorem mbGcCopyTerm_length {heap heap' : Heap} {term term' : Term}
    (h : mbGcCopyTerm heap term = .ok (term', heap')) :
    heap'.fromSpace.length = heap.fromSpace.length := by
  have hmove : ∀ {oldOff size : ℕ} {mk : ℕ → Term}, (do
      let r ← moveObject heap oldOff size
      return (mk r.1, r.2)) = Except.ok (term', heap') →
      heap'.fromSpace.length = heap.fromSpace.length := by
    intro oldOff size mk h
    obtain ⟨⟨newOff, heap₁⟩, hm, h⟩ := bind_eq_ok.mp h
    simp only [pure_ok, Except.ok.injEq, Prod.mk.injEq] at h
    rw [← h.2]
    exact moveObject_length hm
  have hkeep : ∀ {t : Term}, (Except.ok (t, heap) : Except Fault (Term × Heap)) =
      .ok (term', heap') → heap'.fromSpace.length = heap.fromSpace.length := by
    intro t h
    simp only [Except.ok.injEq, Prod.mk.injEq] at h
    rw [h.2]
  unfold mbGcCopyTerm at h
  split at h
  · exact hkeep h
  · split at h
    · obtain ⟨hdr, -, h⟩ := bind_eq_ok.mp h
      split at h
      · obtain ⟨w, -, h⟩ := bind_eq_ok.mp h
        exact hkeep h
      · split at h
        · exact hkeep h
        · exact hmove h
    · split at h
      · obtain ⟨hdr, -, h⟩ := bind_eq_ok.mp h
        split at h
        · obtain ⟨w, -, h⟩ := bind_eq_ok.mp h
          exact hkeep h
        · exact hmove h
      · exact hkeep h

theorem copyRoots_safe (heap : Heap) (roots : List Term) : Safe (copyRoots heap roots) := by
  induction roots generalizing heap with
  | nil => exact Safe.ok _
  | cons root roots ih =>
      exact (mbGcCopyTerm_safe _ _).bind fun _ _ => (ih _).bind fun _ _ => Safe.ok _

theorem scanWord_safe (heap : Heap) (scan : ℕ) : Safe (scanWord heap scan) :=
  (readWord_safe _ _).bind fun _ _ => (mbGcCopyTerm_safe _ _).bind fun _ _ =>
    (writeWord_safe _ _ _).bind fun _ _ => Safe.ok _

theorem scanWord_length {heap heap' : Heap} {scan : ℕ} (h : scanWord heap scan = .ok heap') :
    heap'.fromSpace.length = heap.fromSpace.length := by
  obtain ⟨w, -, h⟩ := bind_eq_ok.mp h
  obtain ⟨⟨w', heap₁⟩, hcopy, h⟩ := bind_eq_ok.mp h
  obtain ⟨space, hwrite, h⟩ := bind_eq_ok.mp h
  simp only [pure_ok, Except.ok.injEq] at h
  rw [← h]
  show space.length = _
  rw [(writeWord_ok hwrite).2, List.length_set, mbGcCopyTerm_length hcopy]

theorem scanElems_safe (heap : Heap) (scan n : ℕ) : Safe (scanElems heap scan n) := by
  induction n generalizing heap scan with
  | zero => exact Safe.ok _
  | succ n ih => exact (scanWord_safe _ _).bind fun _ _ => ih _ _

theorem scanElems_length {heap heap' : Heap} {scan scan' n : ℕ}
    (h : scanElems heap scan n = .ok (scan', heap')) :
    scan' = scan + n ∧ heap'.fromSpace.length = heap.fromSpace.length := by
  induction n generalizing heap scan with
  | zero =>
      simp only [scanElems, Except.ok.injEq, Prod.mk.injEq] at h
      exact ⟨h.1.symm, by rw [h.2]⟩
  | succ n ih =>
      obtain ⟨heap₁, hword, h⟩ := bind_eq_ok.mp h
      obtain ⟨hscan, hlen⟩ := ih h
      exact ⟨by omega, hlen.trans (scanWord_length hword)⟩

/-- A round of the scan moves past a word of the space, so the bound is never used up. -/
theorem scanLoop_safe (heap : Heap) (scan fuel : ℕ) (hpos : 0 < fuel)
    (h : heap.fromSpace.length < scan + fuel) : Safe (scanLoop heap scan fuel) := by
  induction fuel generalizing heap scan with
  | zero => exact absurd hpos (Nat.lt_irrefl 0)
  | succ fuel ih =>
      unfold scanLoop
      split
      · refine (readWord_safe _ _).bind fun w hw => ?_
        have hscan := (readWord_ok hw).1
        split
        · refine (scanElems_safe _ _ _).bind fun r hr => ?_
          obtain ⟨scan', heap'⟩ := r
          obtain ⟨hs, hlen⟩ := scanElems_length hr
          exact ih _ _ (by omega) (by omega)
        · refine (scanWord_safe _ _).bind fun heap' hr => ?_
          have hlen := scanWord_length hr
          exact ih _ _ (by omega) (by omega)
      · exact Safe.ok _

theorem mbHeapGc_safe (heap : Heap) (roots : List Term) : Safe (mbHeapGc heap roots) := by
  refine (copyRoots_safe _ _).bind fun r _ => ?_
  exact (scanLoop_safe _ _ _ (Nat.succ_pos _) (by omega)).bind fun _ _ => Safe.ok _

theorem gcRegs_safe (p : Process) : Safe (gcRegs p) :=
  (mbHeapGc_safe _ _).bind fun _ _ => Safe.ok _

end MiniBeam
