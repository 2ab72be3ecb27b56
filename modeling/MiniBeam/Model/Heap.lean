import MiniBeam.Model.Term

/-! Per-process semi-space heap with a bump allocator and Cheney's collector
(`mb_heap.c`). Every word access is checked against the space it addresses. -/

namespace MiniBeam

/-- `mb_heap_t`. The pointers `from` and `to` are the spaces they point at, so the
swap of the two pointers exchanges the lists; a null pointer is the empty space. -/
structure Heap where
  fromSpace : List Term
  toSpace : List Term
  hp : ℕ
  capacity : ℕ
  gcCount : BitVec 32
  deriving DecidableEq

/-- All-zero memory, as `memset` leaves it. -/
def Heap.zero : Heap := ⟨[], [], 0, 0, 0⟩

def mbHeapInit : Heap :=
  { fromSpace := List.replicate heapWords 0
    toSpace := List.replicate heapWords 0
    hp := 0
    capacity := heapWords
    gcCount := 0 }

def readWord (space : List Term) (i : ℕ) : Except Fault Term :=
  match space[i]? with
  | some w => .ok w
  | none => .error (.word i)

def writeWord (space : List Term) (i : ℕ) (w : Term) : Except Fault (List Term) :=
  if i < space.length then .ok (space.set i w) else .error (.word i)

/-- `memcpy` of `n` words, one at a time. -/
def copyWords (dst : List Term) (dstOff : ℕ) (src : List Term) (srcOff : ℕ) :
    ℕ → Except Fault (List Term)
  | 0 => .ok dst
  | n + 1 => do
    let dst ← copyWords dst dstOff src srcOff n
    let w ← readWord src (srcOff + n)
    writeWord dst (dstOff + n) w

/-- `mb_heap_alloc`: the offset of the reserved words, or `none` when they do not fit. -/
def mbHeapAlloc (heap : Heap) (nWords : ℕ) : Option (ℕ × Heap) :=
  if heap.hp + nWords > heap.capacity then none
  else some (heap.hp, { heap with hp := heap.hp + nWords })

/-- Writes `elems[i]`, `elems[i+1]`, ... for the remaining `n` elements. -/
def storeElems (space : List Term) (off : ℕ) (elems : List Term) (i : ℕ) :
    ℕ → Except Fault (List Term)
  | 0 => .ok space
  | n + 1 =>
    match elems[i]? with
    | none => .error (.element i)
    | some e => do
      let space ← writeWord space (off + 1 + i) e
      storeElems space off elems (i + 1) n

/-- `mb_heap_make_tuple`: the boxed term, or 0 on allocation failure. -/
def mbHeapMakeTuple (heap : Heap) (elems : List Term) (arity : ℕ) :
    Except Fault (Term × Heap) :=
  match mbHeapAlloc heap (1 + arity) with
  | none => .ok (0, heap)
  | some (off, heap) => do
    let space ← writeWord heap.fromSpace off (makeTupleHdr arity)
    let space ← storeElems space off elems 0 arity
    return (makeBoxed off, { heap with fromSpace := space })

/-- `mb_heap_cons`: the cons term, or 0 on allocation failure. -/
def mbHeapCons (heap : Heap) (head tail : Term) : Except Fault (Term × Heap) :=
  match mbHeapAlloc heap 2 with
  | none => .ok (0, heap)
  | some (off, heap) => do
    let space ← writeWord heap.fromSpace off head
    let space ← writeWord space (off + 1) tail
    return (makeCons off, { heap with fromSpace := space })

/-! ### Cheney's copying collector -/

/-- The part shared by both kinds of object: copy `size` words to the new space and
leave a forwarding record in the first two words of the old object. -/
def moveObject (heap : Heap) (oldOff size : ℕ) : Except Fault (ℕ × Heap) := do
  let newOff := heap.hp
  let new ← copyWords heap.fromSpace newOff heap.toSpace oldOff size
  let old ← writeWord heap.toSpace oldOff movedMarker
  let old ← writeWord old (oldOff + 1) (BitVec.ofNat 32 newOff)
  return (newOff, { heap with fromSpace := new, toSpace := old, hp := heap.hp + size })

/-- `mb_gc_copy_term`. During a collection `old_space` is the space `to` points at. -/
def mbGcCopyTerm (heap : Heap) (term : Term) : Except Fault (Term × Heap) :=
  if isImmediate term || term == 0 then .ok (term, heap)
  else if isBoxed term then do
    let oldOff := getBoxed term
    let hdr ← readWord heap.toSpace oldOff
    if isMoved hdr then
      let newOff ← readWord heap.toSpace (oldOff + 1)
      return (makeBoxed newOff.toNat, heap)
    else if !isTupleHdr hdr then
      -- unknown boxed type, left in place
      return (term, heap)
    else
      let (newOff, heap) ← moveObject heap oldOff (1 + getTupleArity hdr)
      return (makeBoxed newOff, heap)
  else if isCons term then do
    let oldOff := getCons term
    let head ← readWord heap.toSpace oldOff
    if isMoved head then
      let newOff ← readWord heap.toSpace (oldOff + 1)
      return (makeCons newOff.toNat, heap)
    else
      let (newOff, heap) ← moveObject heap oldOff 2
      return (makeCons newOff, heap)
  else .ok (term, heap)

/-- Phase 1: copy the root terms in order. -/
def copyRoots (heap : Heap) : List Term → Except Fault (List Term × Heap)
  | [] => .ok ([], heap)
  | root :: roots => do
    let (root, heap) ← mbGcCopyTerm heap root
    let (roots, heap) ← copyRoots heap roots
    return (root :: roots, heap)

/-- Replaces the word at `scan` by its copy. -/
def scanWord (heap : Heap) (scan : ℕ) : Except Fault Heap := do
  let w ← readWord heap.fromSpace scan
  let (w, heap) ← mbGcCopyTerm heap w
  let space ← writeWord heap.fromSpace scan w
  return { heap with fromSpace := space }

/-- The inner loop over the `n` elements of a tuple. -/
def scanElems (heap : Heap) (scan : ℕ) : ℕ → Except Fault (ℕ × Heap)
  | 0 => .ok (scan, heap)
  | n + 1 => do
    let heap ← scanWord heap scan
    scanElems heap (scan + 1) n

/-- Phase 2: the scan loop. Each round reads the word at `scan` and moves past it,
so a bound above the size of the space is never used up. -/
def scanLoop (heap : Heap) (scan : ℕ) : ℕ → Except Fault Heap
  | 0 => .error .fuel
  | fuel + 1 =>
    if scan < heap.hp then do
      let w ← readWord heap.fromSpace scan
      if isTupleHdr w then
        let (scan, heap) ← scanElems heap (scan + 1) (getTupleArity w)
        scanLoop heap scan fuel
      else
        let heap ← scanWord heap scan
        scanLoop heap (scan + 1) fuel
    else .ok heap

/-- `mb_heap_gc`, returning the updated root cells. -/
def mbHeapGc (heap : Heap) (roots : List Term) : Except Fault (List Term × Heap) := do
  let heap := { heap with fromSpace := heap.toSpace, toSpace := heap.fromSpace, hp := 0 }
  let (roots, heap) ← copyRoots heap roots
  let heap ← scanLoop heap 0 (heap.fromSpace.length + 1)
  return (roots, { heap with
    toSpace := List.replicate heap.capacity 0
    gcCount := heap.gcCount + 1 })

end MiniBeam
