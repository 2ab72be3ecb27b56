import MiniBeam.Verification.Process.HeapOk

/-! The allocating instructions on well-formed heaps: the object is placed at once, or after
a collection, or not at all. -/

namespace MiniBeam

open RootedGraph

/-- `p` is `q` with a new object above the others, and a reference to it in register `dst`. -/
structure Process.Stores (q : Process) (dst : Reg) (o : Obj) (label : Option ℕ)
    (words : List Term) (p : Process) : Prop where
  eq : p = (q.setHeap p.heap).setReg dst o.term
  length : p.heap.fromSpace.length = q.heap.fromSpace.length
  toSpace : p.heap.toSpace = q.heap.toSpace
  capacity : p.heap.capacity = q.heap.capacity
  off : o.off = q.heap.hp
  hp : p.heap.hp = q.heap.hp + o.size p.heap.fromSpace
  hp_le : p.heap.hp ≤ p.heap.capacity
  below : ∀ k, k < q.heap.hp → p.heap.fromSpace[k]? = q.heap.fromSpace[k]?
  off_lt : o.off < maxOffset
  fits : o.Fits p.heap.fromSpace p.heap.hp 0
  label_eq : o.label p.heap.fromSpace = label
  fields : o.fields p.heap.fromSpace = words

namespace Process.Stores

variable {q p : Process} {dst : Reg} {o : Obj} {label : Option ℕ} {words : List Term}
  (h : q.Stores dst o label words p)
include h

theorem reg (r : Reg) : p.reg r = if dst = r then o.term else q.reg r := by
  rw [h.eq, Process.reg_setReg]
  rfl

theorem new : target o.term = some o := target_term h.off_lt

/-- An object made from words seen before keeps the heap well formed. -/
theorem heapOk (hq : q.HeapOk 0) (hwords : ∀ t ∈ words, q.Sees 0 t) : p.HeapOk 0 := by
  rw [h.eq]
  exact hq.place o dst h.length h.toSpace h.capacity (by rw [h.hp]; exact Nat.le_add_right _ _)
    h.hp_le h.below (Nat.le_of_eq h.off.symm) h.fits (by rwa [h.fields]) h.off_lt

end Process.Stores

/-- What `alloc` does with a well-formed heap: a new object of `n` words at `hp`, whose
fields are `words`, or nothing when there is no room. -/
structure Allocator (alloc : Process → Except Fault (Term × Heap)) (kind : ℕ → Obj) (n : ℕ)
    (label : Option ℕ) (words : Process → List Term) : Prop where
  room : ∀ {lo q}, q.HeapOk lo → q.heap.hp + n ≤ q.heap.capacity → ∃ t heap,
    alloc q = .ok (t, heap) ∧ t ≠ 0 ∧
      ∀ dst, q.Stores dst (kind q.heap.hp) label (words q) ((q.setHeap heap).setReg dst t)
  full : ∀ {lo q}, q.HeapOk lo → q.heap.capacity < q.heap.hp + n → alloc q = .ok (0, q.heap)

theorem Process.HeapOk.hp_lt {lo : ℕ} {q : Process} (h : q.HeapOk lo) : q.heap.hp < maxOffset := by
  have hcap := h.capacity
  have hle := h.wellFormed.hp_le
  simp only [heapWords, maxOffset] at hcap ⊢
  omega

theorem consAllocator (hd tl : Reg) :
    Allocator (fun q => mbHeapCons q.heap (q.reg hd) (q.reg tl)) .cell 2 none
      fun q => [q.reg hd, q.reg tl] where
  room := by
    intro lo q h hroom
    obtain ⟨space, hrun, hlen, hagree, hfields⟩ :=
      mbHeapCons_room h.wellFormed.fromLength hroom (q.reg hd) (q.reg tl)
    refine ⟨_, _, hrun, makeCons_ne_zero _, fun dst => ⟨rfl, hlen, rfl, rfl, rfl, rfl, hroom,
      hagree, h.hp_lt, ⟨Nat.le_refl _, fun _ he => by cases he⟩, rfl, hfields⟩⟩
  full h hfull := mbHeapCons_full hfull _ _

theorem tupleAllocator {words : List Term} (hmost : words.length ≤ maxTupleArity) :
    Allocator (fun q => mbHeapMakeTuple q.heap words words.length) .tuple (1 + words.length)
      (some words.length) fun _ => words where
  room := by
    intro lo q h hroom
    obtain ⟨space, hrun, hlen, hagree, header, hslice⟩ :=
      mbHeapMakeTuple_room h.wellFormed.fromLength hroom
    have harity := getTupleArity_makeTupleHdr hmost
    have hsize : Obj.size space (.tuple q.heap.hp) = 1 + words.length := by
      rw [Obj.size, Obj.arity_eq header, harity]
    refine ⟨_, _, hrun, makeBoxed_ne_zero _, fun dst => ⟨rfl, hlen, rfl, rfl, rfl, ?_, hroom,
      hagree, h.hp_lt, ⟨?_, fun off he => ?_⟩, ?_, ?_⟩⟩
    · exact congrArg (q.heap.hp + ·) hsize.symm
    · exact Nat.le_of_eq (congrArg (q.heap.hp + ·) hsize)
    · cases he
      exact ⟨_, header, isTupleHdr_makeTupleHdr hmost, Nat.zero_le _, harity.symm ▸ hmost⟩
    · show Obj.label space (.tuple q.heap.hp) = _
      rw [Obj.label, Obj.arity_eq header, harity]
    · show Obj.fields space (.tuple q.heap.hp) = _
      rw [Obj.fields, Obj.arity_eq header, harity]
      exact hslice
  full h hfull := mbHeapMakeTuple_full hfull

/-- How an allocation ends. -/
inductive Allocated (lo : ℕ) (p : Process) (dst : Reg)
    (alloc : Process → Except Fault (Term × Heap))
    (kind : ℕ → Obj) (n : ℕ) (label : Option ℕ) (words : Process → List Term) : Prop
  | atOnce (room : p.heap.hp + n ≤ p.heap.capacity) (p' : Process)
      (run : allocate p alloc dst = .ok (.ok, p'))
      (stores : p.Stores dst (kind p.heap.hp) label (words p) p')
  | collected (full : p.heap.capacity < p.heap.hp + n) (q : Process) (f : Obj → Obj)
      (gc : gcRegs p = .ok q) (collects : p.Collects lo q f)
      (room : q.heap.hp + n ≤ p.heap.capacity) (p' : Process)
      (run : allocate p alloc dst = .ok (.ok, p'))
      (stores : q.Stores dst (kind q.heap.hp) label (words q) p')
  | oom (full : p.heap.capacity < p.heap.hp + n) (q : Process) (f : Obj → Obj)
      (gc : gcRegs p = .ok q) (collects : p.Collects lo q f)
      (noRoom : p.heap.capacity < q.heap.hp + n) (run : allocate p alloc dst = .ok (.heapOom, q))

theorem Process.HeapOk.allocated {lo : ℕ} {p : Process}
    {alloc : Process → Except Fault (Term × Heap)}
    {kind : ℕ → Obj} {n : ℕ} {label : Option ℕ} {words : Process → List Term} (h : p.HeapOk lo)
    (hrec : p.heap.capacity < p.heap.hp + n → p.heap.RecordsFit p.regs.toList)
    (ha : Allocator alloc kind n label words) (dst : Reg) :
    Allocated lo p dst alloc kind n label words := by
  by_cases hroom : p.heap.hp + n ≤ p.heap.capacity
  · obtain ⟨t, heap, hrun, hne, hs⟩ := ha.room h hroom
    exact .atOnce hroom _ (allocate_room hrun hne) (hs dst)
  · have hfull := Nat.lt_of_not_le hroom
    obtain ⟨q, f, hgc, hq⟩ := h.gc (hrec hfull)
    have hcap : q.heap.capacity = p.heap.capacity := hq.heapOk.capacity.trans h.capacity.symm
    by_cases hroom' : q.heap.hp + n ≤ p.heap.capacity
    · obtain ⟨t, heap, hrun, hne, hs⟩ := ha.room hq.heapOk (hcap ▸ hroom')
      exact .collected hfull q f hgc hq hroom' _ (allocate_retry (ha.full h hfull) hgc hrun hne)
        (hs dst)
    · have hlt := Nat.lt_of_not_le hroom'
      exact .oom hfull q f hgc hq hlt
        (allocate_oom (ha.full h hfull) hgc (ha.full hq.heapOk (hcap ▸ hlt)))

end MiniBeam
