import MiniBeam.Verification.Process.Safety

/-! `MAKE_TUPLE` and the collection in its slow path. The elements are the words that were
read before the collection, so the tuple is right as long as these words still mean the
same. -/

namespace MiniBeam

open RootedGraph

/-! ### What the instruction should build -/

/-- The registers whose terms survive: the elements, and all registers but `dst`. -/
def keptRegs (dst : Reg) (elems : List Reg) : List Reg :=
  (List.finRange regCount).filter (· ≠ dst) ++ elems

/-- In `q`, whose heap is well formed, register `dst` denotes the tuple of the terms that the
registers `elems` denoted in `p`, and every other register denotes the term it denoted in `p`;
`f` says which object of `q` stands for an object of `p`, with the same labels, fields and
sharing. -/
structure Process.Builds (p : Process) (dst : Reg) (elems : List Reg) (q : Process)
    (f : Obj → Obj) : Prop where
  heapOk : q.HeapOk 0
  iso : IsoVia (graph p.heap.fromSpace) ((keptRegs dst elems).map fun r => value (p.reg r))
    (graph q.heap.fromSpace)
    (((keptRegs dst elems).map fun r => value (p.reg r)).map (mapRef f)) f
  others : ∀ r, r ≠ dst → value (q.reg r) = mapRef f (value (p.reg r))
  tuple : ∃ o, target (q.reg dst) = some o ∧ o.label q.heap.fromSpace = some elems.length ∧
    (o.fields q.heap.fromSpace).map value = elems.map fun r => mapRef f (value (p.reg r))

/-- Whenever the step returns `MB_OK`, the tuple was built. -/
def TupleBuilt (hal : Hal) (m : Machine) (dst : Reg) (elems : List Reg) : Prop :=
  ∀ m', mbProcStep hal m = .ok (.ok, m') → ∃ f, m.proc.Builds dst elems m'.proc f

/-! ### When the old words still mean the same -/

/-- The object that a register refers to stands where a collection puts it: behind the
objects that a breadth-first walk from the registers finds before it. -/
def Process.InPlace (p : Process) (r : Reg) : Prop :=
  ∀ o objs, target (p.reg r) = some o → Finds p.heap.fromSpace [] p.regs.toList objs →
    Layout.addr (Obj.words p.heap.fromSpace) objs o = o.off

/-- A tuple of `n` elements fits without a collection, or does not fit with one, or the
objects of the registers `rs` are in place. -/
def Process.KeepsWords (p : Process) (n : ℕ) (rs : List Reg) : Prop :=
  p.heap.hp + (1 + n) ≤ p.heap.capacity ∨
    (∃ k, LiveWords p.heap.fromSpace p.regs.toList k ∧ p.heap.capacity < k + (1 + n)) ∨
    ∀ r ∈ rs, p.InPlace r

section Collect

variable {lo : ℕ} {p q : Process} {f : Obj → Obj}

/-- A collection leaves the word of a register as it is if and only if its object is in
place. -/
theorem Process.Collects.reg_eq_iff (h : p.Collects lo q f) (r : Reg) :
    q.reg r = p.reg r ↔ p.InPlace r := by
  obtain ⟨objs, hfinds, -, hmoves, hregs⟩ := h.moves
  have hlt : ∀ o, target (p.reg r) = some o →
      Layout.addr (Obj.words p.heap.fromSpace) objs o < maxOffset := by
    intro o ho
    have hlive : p.Live o := .root (mem_map_value.mpr ⟨_, p.reg_mem r, ho⟩)
    have hbelow := (h.heapOk.wellFormed.sound.fits (h.iso.reach hlive)).below
    rw [hmoves, Obj.off_moveTo] at hbelow
    have := h.heapOk.hp_lt
    omega
  rw [hregs, relocate_eq_self hlt]
  constructor
  · intro hsame o all ho hall
    rw [hfinds.unique hall]
    exact hsame o ho
  · exact fun hplace o ho => hplace o objs ho hfinds

end Collect

/-! ### Storing the tuple -/

section Store

variable {p q p' : Process} {dst : Reg} {o : Obj} {elems : List Reg} {words : List Term}

/-- Objects below a new tuple keep their labels and fields, so a tuple of words with the
right values is what `MAKE_TUPLE` should build. -/
theorem Process.Stores.builds (h : q.HeapOk 1)
    (hs : q.Stores dst o (some words.length) words p') {f : Obj → Obj}
    (hiso : IsoVia (graph p.heap.fromSpace) (p.regs.toList.map value) (graph q.heap.fromSpace)
      (q.regs.toList.map value) f) (hwords : words = elems.map q.reg) :
    p.Builds dst elems p' f := by
  have hreg := Process.value_reg hiso.roots_eq
  have hroots : ∀ v, Sum.inr v ∈ (keptRegs dst elems).map (fun r => value (p.reg r)) →
      p.Live v := by
    intro v hv
    obtain ⟨r, -, hr⟩ := List.mem_map.mp hv
    exact .root (mem_map_value.mpr ⟨_, p.reg_mem r, value_inr.mp hr⟩)
  have hfits : ∀ v, Reach (graph p.heap.fromSpace)
      ((keptRegs dst elems).map fun r => value (p.reg r)) v →
      (f v).Fits q.heap.fromSpace q.heap.hp 1 := fun v hv =>
    h.wellFormed.sound.fits (hiso.reach (hv.of_roots hroots))
  constructor
  case heapOk =>
    refine hs.heapOk (h.mono (Nat.zero_le 1)) fun t ht => ?_
    rw [hwords] at ht
    obtain ⟨r, -, rfl⟩ := List.mem_map.mp ht
    exact (h.mono (Nat.zero_le 1)).sees_reg r
  case iso =>
    apply (hiso.reroot hroots).congr (fun _ _ => rfl) (fun _ _ => rfl)
    · exact fun v hv => (hfits v hv).label_congr hs.below
    · exact fun v hv => congrArg (List.map value) ((hfits v hv).fields_congr hs.below)
  case others =>
    intro r hr
    rw [hs.reg, if_neg (Ne.symm hr)]
    exact hreg r
  case tuple =>
    refine ⟨o, ?_, hs.label_eq.trans ?_, ?_⟩
    · rw [hs.reg, if_pos rfl]
      exact hs.new
    · rw [hwords, List.length_map]
    · rw [hs.fields, hwords, List.map_map]
      exact List.map_congr_left fun r _ => hreg r

/-- If a tuple of words read in `p` is what `MAKE_TUPLE` should build, then these words are
still in their registers. -/
theorem Process.Builds.words_eq {f : Obj → Obj} (hb : p.Builds dst elems p' f)
    {label : Option ℕ} (hs : q.Stores dst o label (elems.map p.reg) p') {r : Reg} (hr : r ∈ elems)
    (hne : r ≠ dst) : q.reg r = p.reg r := by
  obtain ⟨o', htarget, -, hfields⟩ := hb.tuple
  rw [hs.reg, if_pos rfl, hs.new, Option.some.injEq] at htarget
  rw [← htarget, hs.fields, List.map_map] at hfields
  have hstored : value (p.reg r) = mapRef f (value (p.reg r)) := List.map_inj_left.mp hfields r hr
  have hkept := hb.others r hne
  rw [hs.reg, if_neg (Ne.symm hne)] at hkept
  exact value_injective (hkept.trans hstored.symm)

end Store

/-! ### The instruction -/

section Step

variable {hal : Hal} {m : Machine} {p : Process} {dst : Reg} {elems : List Reg} {pc : ℕ}

/-- The allocation of a `MAKE_TUPLE`: the elements are words read before any collection. -/
abbrev Process.makeTuple (p : Process) (dst : Reg) (elems : List Reg) :
    Except Fault (Status × Process) :=
  allocate p (fun q => mbHeapMakeTuple q.heap (elems.map p.reg) (elems.map p.reg).length) dst

/-- The step returns `MB_OK` exactly when the allocation does. -/
theorem makeTuple_step (hhalted : m.proc.halted = false)
    (hd : decode m.proc.program m.proc.pc = (.ok (.makeTuple dst elems), pc)) (m' : Machine) :
    mbProcStep hal m = .ok (.ok, m') ↔
      ∃ p, (m.proc.setPc pc).makeTuple dst elems = .ok (.ok, p) ∧ m' = m.setProc p := by
  have hsend : ¬ (Instr.makeTuple dst elems).IsSend := Instr.not_isSend nofun
  rw [mbProcStep_exec hal hhalted hd, execInstr_run hal m.proc.pc hsend]
  simp only [Instr.run, Machine.proc_setProc, Machine.setProc_setProc, bind_assoc, pure_ok, ok_bind]
  rw [bind_eq_ok]
  have hemit : ∀ p, (m.setProc p).emit [] = m.setProc p := fun p => by
    rw [Machine.emit, List.append_nil]
  constructor
  · rintro ⟨⟨rc, p⟩, hrun, h⟩
    simp only [Except.ok.injEq, Prod.mk.injEq] at h
    obtain ⟨rfl, rfl⟩ := h
    exact ⟨p, hrun, hemit p⟩
  · rintro ⟨p, hrun, rfl⟩
    refine ⟨(.ok, p), hrun, ?_⟩
    rw [if_pos rfl, hemit]

theorem Process.HeapOk.makeTuple_allocated (h : p.HeapOk 1) (dst : Reg)
    (hmost : elems.length ≤ maxTupleArity) :
    Allocated 1 p dst
      (fun q => mbHeapMakeTuple q.heap (elems.map p.reg) (elems.map p.reg).length) .tuple
      (1 + elems.length) (some (elems.map p.reg).length) fun _ => elems.map p.reg := by
  have hlen : (elems.map p.reg).length = elems.length := List.length_map _
  rw [← hlen] at hmost ⊢
  exact h.allocated (fun _ => h.wellFormed.recordsFit) (tupleAllocator hmost) dst

/-- Words that are still in their registers when the tuple is made are right. -/
theorem tupleBuilt_of_keepsWords (h : m.proc.HeapOk 1) (hhalted : m.proc.halted = false)
    (hd : decode m.proc.program m.proc.pc = (.ok (.makeTuple dst elems), pc))
    (hkeeps : m.proc.KeepsWords elems.length elems) : TupleBuilt hal m dst elems := by
  have hp : (m.proc.setPc pc).HeapOk 1 := h.setPc pc
  intro m' hstep
  obtain ⟨p, hrun, rfl⟩ := (makeTuple_step hhalted hd m').mp hstep
  rw [Machine.proc_setProc]
  cases hp.makeTuple_allocated dst (decode_arityOk hd) with
  | atOnce _ p' run stores =>
      obtain ⟨-, rfl⟩ := Prod.mk.inj (Except.ok.inj (hrun.symm.trans run))
      exact ⟨id, stores.builds hp (.refl _ _) rfl⟩
  | collected full q f gc collects room p' run stores =>
      obtain ⟨-, rfl⟩ := Prod.mk.inj (Except.ok.inj (hrun.symm.trans run))
      refine ⟨f, stores.builds collects.heapOk collects.iso (List.map_congr_left fun r hr => ?_)⟩
      rcases hkeeps with hfits | ⟨k, hlive, hbig⟩ | hplace
      · exact absurd hfits (Nat.not_le.mpr full)
      · rw [hlive.unique collects.live] at hbig
        exact absurd room (Nat.not_le.mpr hbig)
      · exact ((collects.reg_eq_iff r).mpr (hplace r hr)).symm
  | oom _ q f _ _ _ run =>
      exact absurd (Prod.mk.inj (Except.ok.inj (hrun.symm.trans run))).1 (by decide)

/-- A right tuple was made of words that are still in their registers. -/
theorem keepsWords_of_tupleBuilt (h : m.proc.HeapOk 1) (hhalted : m.proc.halted = false)
    (hd : decode m.proc.program m.proc.pc = (.ok (.makeTuple dst elems), pc))
    (hbuilt : TupleBuilt hal m dst elems) :
    m.proc.KeepsWords elems.length (elems.filter (· ≠ dst)) := by
  have hp : (m.proc.setPc pc).HeapOk 1 := h.setPc pc
  cases hp.makeTuple_allocated dst (decode_arityOk hd) with
  | atOnce room => exact .inl room
  | collected _ q f gc collects _ p' run stores =>
      obtain ⟨f', hb⟩ := hbuilt _ ((makeTuple_step hhalted hd _).mpr ⟨p', run, rfl⟩)
      rw [Machine.proc_setProc] at hb
      refine .inr (.inr fun r hr => ?_)
      obtain ⟨hr, hne⟩ : r ∈ elems ∧ r ≠ dst := by simpa using hr
      exact (collects.reg_eq_iff r).mp (hb.words_eq stores hr hne)
  | oom _ q f _ collects noRoom => exact .inr (.inl ⟨q.heap.hp, collects.live, noRoom⟩)

/-- `MAKE_TUPLE` builds the right tuple if the tuple fits without a collection, or does not
fit at all, or the objects of its elements are in place. For elements other than the
destination itself it does so only then. -/
theorem makeTuple_builds_iff (hal : Hal) {m : Machine} {dst : Reg} {elems : List Reg} {pc : ℕ}
    (h : m.proc.HeapOk 1) (hhalted : m.proc.halted = false)
    (hd : decode m.proc.program m.proc.pc = (.ok (.makeTuple dst elems), pc)) :
    (m.proc.KeepsWords elems.length elems → TupleBuilt hal m dst elems) ∧
    (TupleBuilt hal m dst elems → m.proc.KeepsWords elems.length (elems.filter (· ≠ dst))) :=
  ⟨tupleBuilt_of_keepsWords h hhalted hd, keepsWords_of_tupleBuilt h hhalted hd⟩

end Step

/-! ### A nearly full heap -/

/-- A cell at `off`, 124 words of garbage and two free words. The next instruction makes a
tuple of two references to the cell, so it has to collect. -/
def nearlyFull (off : ℕ) : Machine where
  ctx := .compat { mbProcInit 1 [0x50, 0, 2, 1, 1] with
    regs := (Vector.replicate regCount 0).set 1 (makeCons off)
    heap := { mbHeapInit with
      fromSpace := ((List.replicate heapWords 0).set off (makeSmallint 5)).set (off + 1)
        (makeSmallint 6)
      hp := 126 } }
  trace := []

theorem nearlyFull_decode (off : ℕ) :
    decode (nearlyFull off).proc.program (nearlyFull off).proc.pc =
      (.ok (.makeTuple 0 [1, 1]), 5) := by
  show decode [0x50, 0, 2, 1, 1] 0 = _
  rfl

theorem nearlyFull_cell {off : ℕ} (hoff : off + 2 ≤ 126) :
    Obj.fields (nearlyFull off).proc.heap.fromSpace (.cell off) =
      [makeSmallint 5, makeSmallint 6] := by
  have hlen : (List.replicate heapWords (0 : Term)).length = 128 := List.length_replicate
  have hfirst : (nearlyFull off).proc.heap.fromSpace[off]? = some (makeSmallint 5) := by
    show (((List.replicate heapWords 0).set off _).set (off + 1) _)[off]? = _
    rw [List.getElem?_set_ne (by omega), List.getElem?_set_self (by omega)]
  have hsecond : (nearlyFull off).proc.heap.fromSpace[off + 1]? = some (makeSmallint 6) :=
    List.getElem?_set_self (by rw [List.length_set]; omega)
  rw [Obj.fields, Layout.slice_succ hfirst, Layout.slice_succ hsecond]
  simp [Layout.slice]

theorem nearlyFull_regs (off : ℕ) : (nearlyFull off).proc.regs.toList =
    (List.replicate regCount 0).set 1 (makeCons off) := by
  simp [nearlyFull, Machine.proc, Context.proc, Vector.toList_set]

theorem nearlyFull_reg {off : ℕ} {t : Term} (ht : t ∈ (nearlyFull off).proc.regs.toList) :
    t = 0 ∨ t = makeCons off := by
  rw [nearlyFull_regs] at ht
  rcases List.mem_or_eq_of_mem_set ht with ht | ht
  · exact .inl (List.eq_of_mem_replicate ht)
  · exact .inr ht

theorem nearlyFull_field {off : ℕ} (hoff : off + 2 ≤ 126) {t : Term}
    (ht : t ∈ Obj.fields (nearlyFull off).proc.heap.fromSpace (.cell off)) :
    isImmediate t = true := by
  rw [nearlyFull_cell hoff] at ht
  rcases List.mem_pair.mp ht with rfl | rfl <;> decide

theorem nearlyFull_live {off : ℕ} (hoff : off + 2 ≤ 126) {o : Obj}
    (ho : (nearlyFull off).proc.Live o) : o = .cell off := by
  have hlt : off < maxOffset := by
    simp only [maxOffset]
    omega
  refine ho.subset (P := fun o => o = .cell off) (fun v hv => ?_) fun u v hu hv => ?_
  · obtain ⟨t, ht, htarget⟩ := mem_map_value.mp hv
    rcases nearlyFull_reg ht with rfl | rfl
    · rw [target_of_immediate (.inl rfl)] at htarget
      cases htarget
    · exact Option.some.inj (htarget.symm.trans (target_term (o := .cell off) hlt))
  · obtain ⟨t, ht, htarget⟩ := mem_map_value.mp hv
    subst hu
    rw [target_of_immediate (.inr (nearlyFull_field hoff ht))] at htarget
    cases htarget

theorem nearlyFull_heapOk {off : ℕ} (hoff : off + 2 ≤ 126) : (nearlyFull off).proc.HeapOk 1 := by
  have hlt : off < maxOffset := by
    simp only [maxOffset]
    omega
  refine ⟨⟨?_, ?_, Nat.le_refl _, ?_, fun t ht => ?_, fun o ho t ht => ?_,
    fun o o' ho ho' hne => ?_⟩, rfl⟩
  · simp [nearlyFull, mbHeapInit, Machine.proc, Context.proc]
  · simp [nearlyFull, mbHeapInit, Machine.proc, Context.proc]
  · show 126 ≤ 128
    decide
  · rcases nearlyFull_reg ht with rfl | rfl
    · exact .zero rfl
    · exact .cons (isCons_makeCons hlt) (by rw [getCons_makeCons hlt]; exact hoff)
  · obtain rfl := nearlyFull_live hoff ho
    exact .immediate (nearlyFull_field hoff ht)
  · exact absurd ((nearlyFull_live hoff ho).trans (nearlyFull_live hoff ho').symm) hne

/-- The cell at the front stays where it is: the tuple holds two references to it. -/
theorem makeTuple_builds_front : TupleBuilt idleHal (nearlyFull 0) 0 [1, 1] := by
  have h : (nearlyFull 0).proc.HeapOk 1 := nearlyFull_heapOk (by decide)
  have hgc : (gcRegs (nearlyFull 0).proc).map (fun q => q.reg 1) =
      .ok ((nearlyFull 0).proc.reg 1) := by decide +kernel
  obtain ⟨q, f, hq, hc⟩ := h.gc h.wellFormed.recordsFit
  have hreg : q.reg 1 = (nearlyFull 0).proc.reg 1 := by
    rw [hq] at hgc
    exact Except.ok.inj hgc
  have hplace := (hc.reg_eq_iff 1).mp hreg
  exact (makeTuple_builds_iff idleHal h rfl (nearlyFull_decode 0)).1
    (.inr (.inr fun r hr => by simp at hr; exact hr ▸ hplace))

/-- A cell at the end moves to the front, and the tuple refers to where it was. -/
theorem nearlyFull_stale :
    (nearlyFull 124).proc.HeapOk 1 ∧
      decode (nearlyFull 124).proc.program (nearlyFull 124).proc.pc =
        (.ok (.makeTuple 0 [1, 1]), 5) ∧
      (∃ m', mbProcStep idleHal (nearlyFull 124) = .ok (.ok, m')) ∧
      ¬ TupleBuilt idleHal (nearlyFull 124) 0 [1, 1] := by
  have hrun : (mbProcStep idleHal (nearlyFull 124)).map (fun r => (r.1, target (r.2.proc.reg 0),
      r.2.proc.reg 1, Obj.fields r.2.proc.heap.fromSpace (.tuple 2))) =
      .ok (.ok, some (.tuple 2), makeCons 0, [makeCons 124, makeCons 124]) := by decide +kernel
  obtain ⟨⟨rc, m'⟩, hstep, hm⟩ := exists_ok_of_map _ _ _ hrun
  simp only [Prod.mk.injEq] at hm
  obtain ⟨rfl, htuple, hcell, hfields⟩ := hm
  refine ⟨nearlyFull_heapOk (by decide), nearlyFull_decode 124, ⟨m', hstep⟩, fun hbuilt => ?_⟩
  obtain ⟨f, hb⟩ := hbuilt m' hstep
  obtain ⟨o, ho, -, hvalues⟩ := hb.tuple
  obtain rfl := Option.some.inj (htuple.symm.trans ho)
  rw [hfields] at hvalues
  have helem : value (makeCons 124) = mapRef f (value ((nearlyFull 124).proc.reg 1)) :=
    List.head_eq_of_cons_eq hvalues
  have hmoved := hb.others 1 (by decide)
  rw [← helem, hcell] at hmoved
  exact absurd (value_injective hmoved) (by decide)

end MiniBeam
