import MiniBeam.Verification.Heap.Allocate
import MiniBeam.Verification.Step.Exec

/-! The heap of a process and its registers: what reading, writing, allocating and
collecting do to a well-formed heap whose roots are the registers. -/

namespace MiniBeam

open Layout (slice)
open RootedGraph

theorem makeSmallint_toNat_mod (v : I32) : (makeSmallint v).toNat % 16 = 15 := by
  rw [makeSmallint, BitVec.toNat_or, show (16 : ℕ) = 2 ^ 4 from rfl, Nat.or_mod_two_pow,
    BitVec.toNat_shiftLeft, Nat.shiftLeft_eq]
  have h : v.toNat * 2 ^ 4 % 2 ^ 32 % 2 ^ 4 = 0 := by omega
  rw [h]
  rfl

theorem makePid_toNat_mod (pid : Byte) : (makePid pid).toNat % 16 = 3 := by
  rw [makePid, BitVec.toNat_or, show (16 : ℕ) = 2 ^ 4 from rfl, Nat.or_mod_two_pow,
    BitVec.toNat_shiftLeft, Nat.shiftLeft_eq]
  have h : (pid.setWidth 32).toNat * 2 ^ 4 % 2 ^ 32 % 2 ^ 4 = 0 := by omega
  rw [h]
  rfl

theorem isImmediate_makeSmallint (v : I32) : isImmediate (makeSmallint v) = true :=
  isImmediate_iff.mpr (.inl (makeSmallint_toNat_mod v))

theorem isImmediate_makePid (pid : Byte) : isImmediate (makePid pid) = true :=
  isImmediate_iff.mpr (.inr (.inr (makePid_toNat_mod pid)))

/-- The heap of a process is well formed for its registers and has the size that
`mb_proc_init` gives it. Live tuples have at least `lo` elements. -/
structure Process.HeapOk (lo : ℕ) (p : Process) : Prop where
  wellFormed : p.heap.WellFormed lo p.regs.toList
  capacity : p.heap.capacity = heapWords

/-- The words that the registers of a process see. -/
abbrev Process.Sees (lo : ℕ) (p : Process) : Term → Prop :=
  Seen p.heap.fromSpace p.heap.hp lo p.regs.toList

/-- The objects that the registers of a process reach. -/
abbrev Process.Live (p : Process) : Obj → Prop := MiniBeam.Live p.heap.fromSpace p.regs.toList

section HeapOk

variable {lo : ℕ} {p : Process}

theorem Process.reg_mem (p : Process) (r : Reg) : p.reg r ∈ p.regs.toList := by
  rw [Vector.mem_toList_iff]
  exact Vector.getElem_mem r.isLt

theorem Process.mem_setReg {r : Reg} {t u : Term} (h : u ∈ (p.setReg r t).regs.toList) :
    u = t ∨ u ∈ p.regs.toList := by
  rw [setReg, Vector.toList_set] at h
  exact (List.mem_or_eq_of_mem_set h).symm

theorem Process.live_target {r : Reg} {o : Obj} (ht : target (p.reg r) = some o) : p.Live o :=
  .root (mem_map_value.mpr ⟨_, p.reg_mem r, ht⟩)

namespace Process.HeapOk

theorem init (lo : ℕ) (pid : Byte) (program : List Byte) : (mbProcInit pid program).HeapOk lo := by
  have hzero : ∀ t ∈ (mbProcInit pid program).regs.toList, t = 0 := by
    intro t ht
    simpa [mbProcInit, Process.zero] using ht
  have hdead : ∀ o, ¬ (mbProcInit pid program).Live o := fun o ho =>
    ho.subset (P := fun _ => False) (fun v hv => by
      obtain ⟨t, ht, htarget⟩ := mem_map_value.mp hv
      rw [hzero t ht, target_of_immediate (.inl rfl)] at htarget
      cases htarget) fun _ _ h _ => h
  refine ⟨⟨?_, ?_, Nat.le_refl _, Nat.zero_le _, fun t ht => .zero (hzero t ht), ?_, ?_⟩, rfl⟩
  · simp [mbProcInit, mbHeapInit]
  · simp [mbProcInit, mbHeapInit]
  · exact fun o ho => absurd ho (hdead o)
  · exact fun o _ ho => absurd ho (hdead o)

/-- Only the heap and the registers matter. -/
theorem congr {p' : Process} (h : p.HeapOk lo) (hheap : p'.heap = p.heap)
    (hregs : p'.regs = p.regs) : p'.HeapOk lo := by
  obtain ⟨hw, hc⟩ := h
  rw [← hheap, ← hregs] at hw
  exact ⟨hw, hheap ▸ hc⟩

theorem mono {lo' : ℕ} (h : p.HeapOk lo) (hlo : lo' ≤ lo) : p.HeapOk lo' :=
  ⟨⟨h.wellFormed.fromLength, h.wellFormed.toLength, h.wellFormed.capacity_le, h.wellFormed.hp_le,
    h.wellFormed.sound.mono hlo⟩, h.capacity⟩

theorem fail (h : p.HeapOk lo) (e : Status) : (p.fail e).HeapOk lo := h.congr rfl rfl

theorem setPc (h : p.HeapOk lo) (pc : ℕ) : (p.setPc pc).HeapOk lo := h.congr rfl rfl

theorem setMailbox (h : p.HeapOk lo) (mb : Mailbox) : (p.setMailbox mb).HeapOk lo :=
  h.congr rfl rfl

theorem sees_reg (h : p.HeapOk lo) (r : Reg) : p.Sees lo (p.reg r) :=
  h.wellFormed.sound.seen_root (p.reg_mem r)

theorem setReg (h : p.HeapOk lo) (r : Reg) {t : Term} (ht : p.Sees lo t) :
    (p.setReg r t).HeapOk lo := by
  obtain ⟨⟨hfrom, hto, hcap, hhp, hsound⟩, hc⟩ := h
  refine ⟨⟨hfrom, hto, hcap, hhp, hsound.reroot fun u hu => ?_⟩, hc⟩
  rcases mem_setReg hu with rfl | hu
  · exact ht
  · exact hsound.seen_root hu

theorem setInt (h : p.HeapOk lo) (r : Reg) (v : I32) : (p.setReg r (makeSmallint v)).HeapOk lo :=
  h.setReg r (.data (.inr (isImmediate_makeSmallint v)))

theorem loadCommand (h : p.HeapOk lo) (t a b c d : Reg) (cmd : Command) :
    (p.loadCommand t a b c d cmd).HeapOk lo :=
  ((((h.setInt t _).setInt a _).setInt b _).setInt c _).setInt d _

/-- A field of a live object is read inside the space and may go into a register. -/
theorem field (h : p.HeapOk lo) {o : Obj} (ho : p.Live o) {i k : ℕ} {w : Term}
    (hw : (o.fields p.heap.fromSpace)[k]? = some w) (hi : p.heap.fromSpace[i]? = some w) :
    readWord p.heap.fromSpace i = .ok w ∧ p.Sees lo w :=
  ⟨readWord_eq hi, h.wellFormed.sound.seen_field ho (List.mem_of_getElem? hw)⟩

/-- `HEAD` and `TAIL` read a word of a live cell. -/
theorem readCell (h : p.HeapOk lo) {r : Reg} (hc : isCons (p.reg r) = true) {k : ℕ} (hk : k < 2) :
    ∃ w, readWord p.heap.fromSpace (getCons (p.reg r) + k) = .ok w ∧ p.Sees lo w ∧
      target (p.reg r) = some (.cell (getCons (p.reg r))) ∧
      (Obj.fields p.heap.fromSpace (.cell (getCons (p.reg r))))[k]? = some w := by
  have htarget : target (p.reg r) = some (.cell (getCons (p.reg r))) := by
    have hb : isBoxed (p.reg r) = false := by
      rw [← Bool.not_eq_true, isBoxed_iff, isCons_iff.mp hc]
      omega
    simp [target, hb, hc]
  have hlive := Process.live_target htarget
  have hbelow := (h.wellFormed.sound.fits hlive).below
  have hle := h.wellFormed.hp_le
  simp only [Obj.off, Obj.size] at hbelow
  have hlt : getCons (p.reg r) + k < p.heap.fromSpace.length := by
    rw [h.wellFormed.fromLength]
    omega
  have hword : p.heap.fromSpace[getCons (p.reg r) + k]? = some _ := List.getElem?_eq_getElem hlt
  have hfield : (Obj.fields p.heap.fromSpace (.cell (getCons (p.reg r))))[k]? =
      some p.heap.fromSpace[getCons (p.reg r) + k] := by
    rw [Obj.fields, Layout.getElem?_slice hk, hword]
  obtain ⟨hread, hsees⟩ := h.field hlive hfield hword
  exact ⟨_, hread, hsees, htarget, hfield⟩

/-- `TUPLE_ELEM` finds a header, and reads an element of a live tuple. -/
theorem readTuple (h : p.HeapOk lo) {r : Reg} (hb : isBoxed (p.reg r) = true) :
    target (p.reg r) = some (.tuple (getBoxed (p.reg r))) ∧
    ∃ hdr, readWord p.heap.fromSpace (getBoxed (p.reg r)) = .ok hdr ∧ isTupleHdr hdr = true ∧
      Obj.arity p.heap.fromSpace (getBoxed (p.reg r)) = getTupleArity hdr ∧
      ∀ k, k < getTupleArity hdr → ∃ w,
        readWord p.heap.fromSpace (getBoxed (p.reg r) + (1 + k)) = .ok w ∧ p.Sees lo w ∧
          (Obj.fields p.heap.fromSpace (.tuple (getBoxed (p.reg r))))[k]? = some w := by
  have htarget : target (p.reg r) = some (.tuple (getBoxed (p.reg r))) := by simp [target, hb]
  have hlive := Process.live_target htarget
  have hfits := h.wellFormed.sound.fits hlive
  obtain ⟨hdr, header, isHdr, -, -⟩ := hfits.header _ rfl
  have hbelow := hfits.below
  have hle := h.wellFormed.hp_le
  simp only [Obj.off, Obj.size, Obj.arity_eq header] at hbelow
  refine ⟨htarget, hdr, readWord_eq header, isHdr, Obj.arity_eq header, fun k hk => ?_⟩
  have hlt : getBoxed (p.reg r) + (1 + k) < p.heap.fromSpace.length := by
    rw [h.wellFormed.fromLength]
    omega
  have hword : p.heap.fromSpace[getBoxed (p.reg r) + (1 + k)]? = some _ :=
    List.getElem?_eq_getElem hlt
  have hfield : (Obj.fields p.heap.fromSpace (.tuple (getBoxed (p.reg r))))[k]? =
      some p.heap.fromSpace[getBoxed (p.reg r) + (1 + k)] := by
    rw [Obj.fields, Obj.arity_eq header, Layout.getElem?_slice hk, Nat.add_assoc, hword]
  obtain ⟨hread, hsees⟩ := h.field hlive hfield hword
  exact ⟨_, hread, hsees, hfield⟩

end Process.HeapOk

end HeapOk

/-! ### Collecting -/

/-- The words that the objects reached from `roots` take. -/
def LiveWords (space roots : List Term) (n : ℕ) : Prop :=
  ∃ objs : List Obj, objs.Nodup ∧ (∀ o, o ∈ objs ↔ Live space roots o) ∧
    (objs.map (Obj.size space)).sum = n

theorem LiveWords.unique {space roots : List Term} {n k : ℕ} (h : LiveWords space roots n)
    (h' : LiveWords space roots k) : n = k := by
  obtain ⟨objs, hnodup, hmem, rfl⟩ := h
  obtain ⟨objs', hnodup', hmem', rfl⟩ := h'
  have hperm : objs.Perm objs' :=
    (List.perm_ext_iff_of_nodup hnodup hnodup').mpr fun o => (hmem o).trans (hmem' o).symm
  exact (hperm.map _).sum_eq

section Allocate

variable {lo : ℕ} {p : Process}

/-- The process after a collection: the registers follow the live objects, and nothing
besides the heap and the registers changes. -/
structure Process.Collects (lo : ℕ) (p q : Process) (f : Obj → Obj) : Prop where
  rest : q = { p with heap := q.heap, regs := q.regs }
  iso : IsoVia (graph p.heap.fromSpace) (p.regs.toList.map value) (graph q.heap.fromSpace)
    (q.regs.toList.map value) f
  live : LiveWords p.heap.fromSpace p.regs.toList q.heap.hp
  hp_le : q.heap.hp ≤ p.heap.hp
  heapOk : q.HeapOk lo
  moves : ∃ objs, Finds p.heap.fromSpace [] p.regs.toList objs ∧ (∀ o ∈ objs, p.Live o) ∧
    (∀ o, f o = o.moveTo (Layout.addr (Obj.words p.heap.fromSpace) objs o)) ∧
    ∀ r, q.reg r = relocate (Layout.addr (Obj.words p.heap.fromSpace) objs) (p.reg r)

theorem Process.HeapOk.gc (h : p.HeapOk lo) (hrec : p.heap.RecordsFit p.regs.toList) :
    ∃ q f, gcRegs p = .ok q ∧ p.Collects lo q f := by
  obtain ⟨heap, objs, hrun, hfinds, hc⟩ := mbHeapGc_collected h.wellFormed hrec
  generalize hroots : p.regs.toList.map _ = roots at hrun hc
  have hlen : roots.length = regCount := by
    rw [← hroots, List.length_map, Vector.length_toList]
  have hregs : (Vector.ofFn fun i : Fin regCount => roots.getD i 0).toList = roots := by
    refine List.ext_getElem (by simp [hlen]) fun i h1 h2 => ?_
    simp [h2]
  refine ⟨{ p with heap := heap, regs := Vector.ofFn fun i => roots.getD i 0 }, _, ?_, rfl, ?_, ?_,
    hc.hp_le, ⟨?_, hc.capacity.trans h.capacity⟩, objs, hfinds, fun o => (hc.mem o).mp,
    fun _ => rfl, fun r => ?_⟩
  · simp only [gcRegs, hrun, ok_bind, pure_ok]
  · show IsoVia _ _ _ ((Vector.ofFn fun i : Fin regCount => roots.getD i 0).toList.map value) _
    rw [hregs]
    exact hc.iso
  · exact ⟨objs, hc.nodup, hc.mem, hc.hp_eq.symm⟩
  · show heap.WellFormed lo (Vector.ofFn fun i : Fin regCount => roots.getD i 0).toList
    rw [hregs]
    exact hc.wellFormed
  · rw [← hroots]
    simp [reg]

/-- Register by register, the values after follow the values before. -/
theorem Process.value_reg {q : Process} {f : Obj → Obj}
    (h : q.regs.toList.map value = (p.regs.toList.map value).map (mapRef f)) (r : Reg) :
    value (q.reg r) = mapRef f (value (p.reg r)) := by
  have hr := congrArg (fun l => l[r.val]?) h
  simpa [Process.reg] using hr

/-! ### Allocating -/

/-- A new object above the others, with a register that refers to it. -/
theorem Process.HeapOk.place (h : p.HeapOk lo) {heap : Heap} (new : Obj) (dst : Reg)
    (hfrom : heap.fromSpace.length = p.heap.fromSpace.length)
    (hto : heap.toSpace = p.heap.toSpace) (hcap : heap.capacity = p.heap.capacity)
    (hhp : p.heap.hp ≤ heap.hp) (hle : heap.hp ≤ heap.capacity)
    (hagree : ∀ k, k < p.heap.hp → heap.fromSpace[k]? = p.heap.fromSpace[k]?)
    (hoff : p.heap.hp ≤ new.off) (hfits : new.Fits heap.fromSpace heap.hp lo)
    (hfields : ∀ t ∈ new.fields heap.fromSpace, p.Sees lo t) (hlt : new.off < maxOffset) :
    ((p.setHeap heap).setReg dst new.term).HeapOk lo := by
  refine ⟨⟨?_, ?_, ?_, hle, ?_⟩, hcap.trans h.capacity⟩
  · exact hfrom.trans (h.wellFormed.fromLength.trans hcap.symm)
  · show heap.toSpace.length = heap.capacity
    rw [hto, hcap]
    exact h.wellFormed.toLength
  · exact hcap ▸ h.wellFormed.capacity_le
  · refine h.wellFormed.sound.extend hagree hhp hoff hfits hfields fun t ht => ?_
    rcases Process.mem_setReg ht with rfl | ht
    · exact .inr (target_term hlt)
    · exact .inl (h.wellFormed.sound.seen_root ht)

theorem Process.HeapOk.cons (h : p.HeapOk lo) {hd tl : Term} (hhd : p.Sees lo hd)
    (htl : p.Sees lo tl) (hroom : p.heap.hp + 2 ≤ heapWords) (dst : Reg) :
    ∃ heap, mbHeapCons p.heap hd tl = .ok (makeCons p.heap.hp, heap) ∧
      heap.hp = p.heap.hp + 2 ∧
      (∀ k, k < p.heap.hp → heap.fromSpace[k]? = p.heap.fromSpace[k]?) ∧
      Obj.fields heap.fromSpace (.cell p.heap.hp) = [hd, tl] ∧
      ((p.setHeap heap).setReg dst (makeCons p.heap.hp)).HeapOk lo := by
  have hcap : p.heap.hp + 2 ≤ p.heap.capacity := h.capacity ▸ hroom
  obtain ⟨space, hrun, hlen, hagree, hfields⟩ :=
    mbHeapCons_room h.wellFormed.fromLength hcap hd tl
  refine ⟨_, hrun, rfl, hagree, hfields, ?_⟩
  refine h.place (.cell p.heap.hp) dst hlen rfl rfl (Nat.le_add_right _ _) hcap hagree
    (Nat.le_refl _) ⟨Nat.le_refl _, fun _ he => by cases he⟩ (fun t ht => ?_) ?_
  · rw [Obj.fields] at ht
    rcases List.mem_pair.mp (hfields ▸ ht) with rfl | rfl
    · exact hhd
    · exact htl
  · show p.heap.hp < maxOffset
    simp only [heapWords, maxOffset] at hroom ⊢
    omega

section Cases

variable {alloc : Process → Except Fault (Term × Heap)} {dst : Reg} {t : Term} {heap : Heap}

theorem allocate_room (h : alloc p = .ok (t, heap)) (ht : t ≠ 0) :
    allocate p alloc dst = .ok (.ok, (p.setHeap heap).setReg dst t) := by
  simp only [allocate, h, ok_bind, ne_eq, ht, not_false_eq_true, if_true, pure_ok]

theorem allocate_retry {q : Process} (hfull : alloc p = .ok (0, p.heap)) (hgc : gcRegs p = .ok q)
    (h : alloc q = .ok (t, heap)) (ht : t ≠ 0) :
    allocate p alloc dst = .ok (.ok, (q.setHeap heap).setReg dst t) := by
  have hsame : p.setHeap p.heap = p := rfl
  simp only [allocate, hfull, ok_bind, ne_eq, not_true_eq_false, if_false, hsame, hgc, h, ht,
    not_false_eq_true, if_true, pure_ok]

theorem allocate_oom {q : Process} (hfull : alloc p = .ok (0, p.heap)) (hgc : gcRegs p = .ok q)
    (h : alloc q = .ok (0, q.heap)) : allocate p alloc dst = .ok (.heapOom, q) := by
  have hsame : ∀ p : Process, p.setHeap p.heap = p := fun _ => rfl
  simp only [allocate, hfull, ok_bind, ne_eq, not_true_eq_false, if_false, hsame, hgc, h, pure_ok]

end Cases

end Allocate

end MiniBeam
