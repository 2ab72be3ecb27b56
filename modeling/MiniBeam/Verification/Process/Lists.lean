import MiniBeam.Verification.Process.Safety

/-! Lists. A machine with an unbounded store of cells that is never collected says what
the list instructions mean; the interpreter with its two spaces refines it. -/

namespace MiniBeam

open RootedGraph

/-! ### The abstract machine -/

/-- The instructions of the list machine. -/
inductive ListInstr where
  | cons (dst head tail : Reg)
  | head (dst cell : Reg)
  | tail (dst cell : Reg)
  | move (dst a b : Reg)
  | constI32 (dst : Reg) (val : I32)
  | self (dst : Reg)

def ListInstr.instr : ListInstr → Instr
  | cons dst hd tl => .cons dst hd tl
  | head dst cell => .head dst cell
  | tail dst cell => .tail dst cell
  | move dst a b => .move dst a b
  | constI32 dst val => .constI32 dst val
  | self dst => .self dst

/-- Data, or a reference to a cell of the store. -/
abbrev RefValue := Term ⊕ ℕ

/-- The cells below `next` are in use. -/
structure ListMachine where
  regs : Vector RefValue regCount
  store : ℕ → RefValue × RefValue
  next : ℕ

namespace ListMachine

def init : ListMachine :=
  { regs := Vector.replicate regCount (.inl 0), store := fun _ => (.inl 0, .inl 0), next := 0 }

def reg (S : ListMachine) (r : Reg) : RefValue := S.regs.get r

def setReg (S : ListMachine) (r : Reg) (v : RefValue) : ListMachine :=
  { S with regs := S.regs.set r v r.isLt }

/-- The cells as a graph. -/
def graph (S : ListMachine) : Graph ℕ Term (Option ℕ) where
  label _ := none
  fields c := [(S.store c).1, (S.store c).2]

/-- The cells that the registers reach. -/
def cells (S : ListMachine) : Set ℕ := {c | Reach S.graph S.regs.toList c}

/-- A cell more than the reachable ones does not fit into the heap. -/
def Full (S : ListMachine) : Prop := heapWords < 2 * S.cells.ncard + 2

/-- A new cell, and a register that refers to it. -/
def push (S : ListMachine) (dst : Reg) (cell : RefValue × RefValue) : ListMachine :=
  { regs := S.regs.set dst (.inr S.next) dst.isLt
    store := Function.update S.store S.next cell
    next := S.next + 1 }

theorem push_fields_new (S : ListMachine) (dst : Reg) (cell : RefValue × RefValue) :
    (S.push dst cell).graph.fields S.next = [cell.1, cell.2] := by
  simp [push, graph]

theorem push_fields_old (S : ListMachine) (dst : Reg) (cell : RefValue × RefValue) {c : ℕ}
    (hc : c ≠ S.next) : (S.push dst cell).graph.fields c = S.graph.fields c := by
  simp [push, graph, hc]

/-- `HEAD` and `TAIL`, with the component of the cell they read. -/
def field (S : ListMachine) (dst cell : Reg) (part : RefValue × RefValue → RefValue) :
    Status × ListMachine :=
  match S.reg cell with
  | .inl _ => (.badTerm, S)
  | .inr c => (.ok, S.setReg dst (part (S.store c)))

variable (pid : Byte)

open Classical in
noncomputable def step (S : ListMachine) : ListInstr → Status × ListMachine
  | .cons dst hd tl => if S.Full then (.heapOom, S) else (.ok, S.push dst (S.reg hd, S.reg tl))
  | .head dst cell => S.field dst cell Prod.fst
  | .tail dst cell => S.field dst cell Prod.snd
  | .move dst a _ => (.ok, S.setReg dst (S.reg a))
  | .constI32 dst val => (.ok, S.setReg dst (.inl (makeSmallint val)))
  | .self dst => (.ok, S.setReg dst (.inl (makePid pid)))

noncomputable def run (S : ListMachine) : List ListInstr → List Status × ListMachine
  | [] => ([], S)
  | i :: is => ((S.step pid i).1 :: (run (S.step pid i).2 is).1, (run (S.step pid i).2 is).2)

end ListMachine

/-! ### The simulation -/

/-- The registers of the process and of the machine denote the same values and lists, with
the same sharing: `f` says where the cells of the machine stand. -/
structure Denotes (p : Process) (S : ListMachine) (f : ℕ → Obj) : Prop where
  heapOk : p.HeapOk 1
  iso : IsoVia S.graph S.regs.toList (graph p.heap.fromSpace) (p.regs.toList.map value) f
  used : ∀ c ∈ S.cells, c < S.next

namespace Denotes

variable {p : Process} {S : ListMachine} {f : ℕ → Obj}

theorem congr {p' : Process} (h : Denotes p S f) (hheap : p'.heap = p.heap)
    (hregs : p'.regs = p.regs) : Denotes p' S f :=
  ⟨h.heapOk.congr hheap hregs, by rw [hheap, hregs]; exact h.iso, h.used⟩

theorem init (pid : Byte) (program : List Byte) :
    Denotes (mbProcInit pid program) .init fun _ => .cell 0 := by
  have hroots : ∀ c : ℕ, Sum.inr c ∉ ListMachine.init.regs.toList := by
    simp [ListMachine.init]
  have hnone : ∀ c, ¬ Reach ListMachine.init.graph ListMachine.init.regs.toList c := fun c hc =>
    hc.subset (P := fun _ => False) (fun v hv => hroots v hv) fun _ _ hu _ => hu
  refine ⟨.init 1 pid program, ⟨fun c hc => absurd hc (hnone c), ?_,
    fun c hc => absurd hc (hnone c),
    fun c hc => absurd hc (hnone c)⟩, fun c hc => absurd hc (hnone c)⟩
  show (Vector.replicate regCount (0 : Term)).toList.map value = _
  rfl

theorem reg (h : Denotes p S f) (r : Reg) : value (p.reg r) = mapRef f (S.reg r) := by
  have hr := congrArg (fun l => l[r.val]?) h.iso.roots_eq
  simpa [Process.reg, ListMachine.reg, Vector.get] using hr

theorem cell_mem {r : Reg} {c : ℕ} (hr : S.reg r = .inr c) : c ∈ S.cells := by
  refine .root ?_
  rw [← hr, Vector.mem_toList_iff]
  exact Vector.getElem_mem r.isLt

/-- A register gets a value that was visible before. -/
theorem setReg (h : Denotes p S f) (dst : Reg) {t : Term} {v : RefValue}
    (hv : ∀ c, v = .inr c → c ∈ S.cells) (ht : value t = mapRef f v) (hsees : p.Sees 1 t) :
    Denotes (p.setReg dst t) (S.setReg dst v) f := by
  have hroots : ∀ c, Sum.inr c ∈ (S.setReg dst v).regs.toList → c ∈ S.cells := by
    intro c hc
    rw [ListMachine.setReg, Vector.toList_set] at hc
    rcases List.mem_or_eq_of_mem_set hc with hc | hc
    · exact .root hc
    · exact hv c hc.symm
  refine ⟨h.heapOk.setReg dst hsees, ?_, fun c hc => h.used c (hc.of_roots hroots)⟩
  have hregs : (p.setReg dst t).regs.toList.map value =
      (S.setReg dst v).regs.toList.map (mapRef f) := by
    rw [Process.setReg, ListMachine.setReg, Vector.toList_set, Vector.toList_set, List.map_set,
      List.map_set, h.iso.roots_eq, ht]
  rw [hregs]
  exact h.iso.reroot hroots

/-- The machine sees a cell exactly where the process sees one. -/
theorem reg_cell (h : Denotes p S f) {r : Reg} {c : ℕ} (hr : S.reg r = .inr c) :
    ∃ off, f c = .cell off ∧ isCons (p.reg r) = true ∧ getCons (p.reg r) = off := by
  have hval := h.reg r
  rw [hr] at hval
  have hlabel := h.iso.label_eq c (cell_mem hr)
  cases hf : f c with
  | tuple off =>
      rw [hf] at hlabel
      cases hlabel
  | cell off =>
      have htarget : target (p.reg r) = some (.cell off) := by
        rw [← value_inr, hval]
        exact congrArg Sum.inr hf
      obtain ⟨-, hc, hoff⟩ := target_cell htarget
      exact ⟨off, rfl, hc, hoff⟩

theorem reg_data (h : Denotes p S f) {r : Reg} {t : Term} (hr : S.reg r = .inl t) :
    isCons (p.reg r) = false := by
  have hval := h.reg r
  rw [hr] at hval
  refine (target_none ?_).2
  cases ht : target (p.reg r) with
  | none => rfl
  | some o =>
      rw [value_inr.mpr ht] at hval
      cases hval

/-- Reading a word of a cell. -/
theorem readCell (h : Denotes p S f) (dst : Reg) {r : Reg} {c k : ℕ} (hr : S.reg r = .inr c)
    (hk : k < 2) {part : RefValue × RefValue → RefValue}
    (hpart : ∀ cell, [cell.1, cell.2][k]? = some (part cell)) :
    ∃ w, readWord p.heap.fromSpace (getCons (p.reg r) + k) = .ok w ∧
      Denotes (p.setReg dst w) (S.setReg dst (part (S.store c))) f := by
  obtain ⟨off, hf, hcons, rfl⟩ := h.reg_cell hr
  obtain ⟨w, hread, hsees, -, hfield⟩ := h.heapOk.readCell hcons hk
  have hfields := h.iso.fields_eq c (cell_mem hr)
  have hvalue : value w = mapRef f (part (S.store c)) := by
    have hw : ((graph p.heap.fromSpace).fields (f c))[k]? = some (value w) := by
      rw [hf]
      simp only [graph, List.getElem?_map, hfield, Option.map_some]
    have hmachine : (S.graph.fields c)[k]? = some (part (S.store c)) := hpart (S.store c)
    rw [hfields, List.getElem?_map, hmachine, Option.map_some, Option.some.injEq] at hw
    exact hw.symm
  refine ⟨w, hread, h.setReg dst (fun d hd => ?_) hvalue hsees⟩
  exact .field (cell_mem hr) (List.mem_of_getElem? (hd ▸ hpart (S.store c)))

/-! ### Cells -/

/-- Every live object is one of the machine's cells, of two words. -/
theorem liveWords (h : Denotes p S f) {n : ℕ} (hn : LiveWords p.heap.fromSpace p.regs.toList n) :
    n = 2 * S.cells.ncard := by
  obtain ⟨objs, hnodup, hmem, rfl⟩ := hn
  have hset : {o | Live p.heap.fromSpace p.regs.toList o} = ↑objs.toFinset := by
    ext o
    simp [hmem o]
  have hcard : S.cells.ncard = objs.length := by
    rw [ListMachine.cells, ← h.iso.ncard_eq]
    show {o | Live p.heap.fromSpace p.regs.toList o}.ncard = objs.length
    rw [hset, Set.ncard_coe_finset, List.toFinset_card_of_nodup hnodup]
  have hsize : ∀ o ∈ objs, Obj.size p.heap.fromSpace o = 2 := by
    intro o ho
    obtain ⟨c, hc, rfl⟩ := h.iso.exists_of_reach ((hmem o).mp ho)
    have hlabel := h.iso.label_eq c hc
    cases hf : f c with
    | cell off => rfl
    | tuple off =>
        rw [hf] at hlabel
        cases hlabel
  rw [List.map_congr_left hsize, List.map_const', List.sum_replicate_nat, hcard, Nat.mul_comm]

/-- After a collection the heap holds the cells of the machine and nothing else. -/
theorem gc (h : Denotes p S f) :
    ∃ q f', gcRegs p = .ok q ∧ q = { p with heap := q.heap, regs := q.regs } ∧ Denotes q S f' ∧
      q.heap.hp = 2 * S.cells.ncard ∧ q.heap.hp ≤ p.heap.hp := by
  obtain ⟨q, g, hgc, hq⟩ := h.heapOk.gc h.heapOk.wellFormed.recordsFit
  exact ⟨q, g ∘ f, hgc, hq.rest, ⟨hq.heapOk, h.iso.comp hq.iso, h.used⟩, h.liveWords hq.live,
    hq.hp_le⟩

/-- A new cell behind the others. -/
theorem push (h : Denotes p S f) (dst hd tl : Reg) (hroom : p.heap.hp + 2 ≤ heapWords) :
    ∃ heap, mbHeapCons p.heap (p.reg hd) (p.reg tl) = .ok (makeCons p.heap.hp, heap) ∧
      Denotes ((p.setHeap heap).setReg dst (makeCons p.heap.hp))
        (S.push dst (S.reg hd, S.reg tl)) (Function.update f S.next (.cell p.heap.hp)) := by
  obtain ⟨heap, hrun, hhp, hagree, hfields, hok⟩ :=
    h.heapOk.cons (h.heapOk.sees_reg hd) (h.heapOk.sees_reg tl) hroom dst
  have hfits : ∀ c ∈ S.cells, (f c).Fits p.heap.fromSpace p.heap.hp 1 := fun c hc =>
    h.heapOk.wellFormed.sound.fits (h.iso.reach hc)
  have hne : ∀ c, c ∈ S.cells → c ≠ S.next := fun c hc => Nat.ne_of_lt (h.used c hc)
  -- the old cells on both sides, in the new store and the new space
  have hold : IsoVia (S.push dst (S.reg hd, S.reg tl)).graph S.regs.toList
      (graph heap.fromSpace) (p.regs.toList.map value) f := by
    refine h.iso.congr (fun _ _ => rfl) (fun c hc => S.push_fields_old dst _ (hne c hc))
      (fun c hc => (hfits c hc).label_congr hagree) fun c hc => ?_
    exact congrArg (List.map value) ((hfits c hc).fields_congr hagree)
  have hcells : ∀ c, Reach (S.push dst (S.reg hd, S.reg tl)).graph S.regs.toList c → c ∈ S.cells :=
    fun c hc => (Reach.congr fun v hv => S.push_fields_old dst _ (hne v hv)).mp hc
  have hseen : ∀ c r, Sum.inr c = S.reg r →
      Reach (S.push dst (S.reg hd, S.reg tl)).graph S.regs.toList c := by
    intro c r hr
    refine .root ?_
    rw [hr, Vector.mem_toList_iff]
    exact Vector.getElem_mem r.isLt
  have hroots : ∀ c, Sum.inr c ∈ (S.push dst (S.reg hd, S.reg tl)).regs.toList →
      c = S.next ∨ Reach (S.push dst (S.reg hd, S.reg tl)).graph S.regs.toList c := by
    intro c hc
    rw [ListMachine.push, Vector.toList_set] at hc
    rcases List.mem_or_eq_of_mem_set hc with hc | hc
    · exact .inr (.root hc)
    · exact .inl (Sum.inr.inj hc)
  have hfresh : ∀ c, Sum.inr c ∈ (S.push dst (S.reg hd, S.reg tl)).graph.fields S.next →
      Reach (S.push dst (S.reg hd, S.reg tl)).graph S.regs.toList c := by
    intro c hc
    rw [ListMachine.push_fields_new] at hc
    rcases List.mem_pair.mp hc with hc | hc
    · exact hseen c hd hc
    · exact hseen c tl hc
  have hregs : (p.regs.set dst (makeCons p.heap.hp)).toList.map value =
      (S.push dst (S.reg hd, S.reg tl)).regs.toList.map
        (mapRef (Function.update f S.next (.cell p.heap.hp))) := by
    have hnew : value (makeCons p.heap.hp) = .inr (.cell p.heap.hp) := by
      have hlt : p.heap.hp < maxOffset := by
        simp only [heapWords, maxOffset] at hroom ⊢
        omega
      exact value_inr.mpr (target_term (o := .cell p.heap.hp) hlt)
    have hsame : S.regs.toList.map (mapRef (Function.update f S.next (.cell p.heap.hp))) =
        S.regs.toList.map (mapRef f) :=
      List.map_congr_left fun x hx => IsoVia.mapRef_update fun he => hne _ (.root (he ▸ hx)) rfl
    rw [ListMachine.push, Vector.toList_set, Vector.toList_set, List.map_set, List.map_set,
      h.iso.roots_eq, hnew, hsame]
    simp [mapRef]
  have hiso := hold.extend (n := S.next) (w := .cell p.heap.hp)
    (fun hn => absurd rfl (hne _ (hcells _ hn))) (fun hn => ?_) rfl hfresh ?_ hroots
  · refine ⟨heap, hrun, hok, ?_, fun c hc => ?_⟩
    · show IsoVia _ _ _ ((p.regs.set dst (makeCons p.heap.hp)).toList.map value) _
      rw [hregs]
      exact hiso
    · show c < S.next + 1
      rcases Reach.of_roots_or hfresh hroots hc with rfl | hc
      · exact Nat.lt_succ_self _
      · exact Nat.lt_succ_of_lt (h.used c (hcells c hc))
  · -- no old object stands where the new one does
    obtain ⟨c, hc, hf⟩ := hold.exists_of_reach hn
    have hbelow := (hfits c (hcells c hc)).below
    rw [hf] at hbelow
    simp only [Obj.off, Obj.size] at hbelow
    omega
  · rw [ListMachine.push_fields_new]
    show (Obj.fields heap.fromSpace (.cell p.heap.hp)).map value = _
    rw [hfields, List.map_cons, List.map_singleton, h.reg, h.reg]
    rfl

/-- `CONS` runs out of memory exactly when a cell more than the reachable ones does not fit. -/
theorem cons (h : Denotes p S f) (pid : Byte) (dst hd tl : Reg) :
    ∃ p' f', allocate p (fun q => mbHeapCons q.heap (q.reg hd) (q.reg tl)) dst =
        .ok ((S.step pid (.cons dst hd tl)).1, p') ∧
      p' = { p with heap := p'.heap, regs := p'.regs } ∧
      Denotes p' (S.step pid (.cons dst hd tl)).2 f' := by
  obtain ⟨q, g, hgc, hq, hden, hhp, hle⟩ := h.gc
  have hfull : S.Full ↔ heapWords < q.heap.hp + 2 := by rw [ListMachine.Full, hhp]
  have hlt : ∀ n, n + 2 ≤ heapWords → n < maxOffset := by
    intro n hn
    simp only [heapWords, maxOffset] at hn ⊢
    omega
  by_cases hroom : p.heap.hp + 2 ≤ heapWords
  · -- no collection: the live cells fit all the more
    have hnot : ¬ S.Full := by
      rw [hfull]
      omega
    obtain ⟨heap, hrun, hden'⟩ := h.push dst hd tl hroom
    simp only [ListMachine.step, hnot, if_false]
    exact ⟨_, _, allocate_room hrun (makeCons_ne_zero _), rfl, hden'⟩
  · have hp : p.heap.capacity < p.heap.hp + 2 := by
      rw [h.heapOk.capacity]
      omega
    have hfirst := mbHeapCons_full hp (p.reg hd) (p.reg tl)
    by_cases hroom' : q.heap.hp + 2 ≤ heapWords
    · have hnot : ¬ S.Full := by
        rw [hfull]
        omega
      obtain ⟨heap, hrun, hden'⟩ := hden.push dst hd tl hroom'
      simp only [ListMachine.step, hnot, if_false]
      refine ⟨_, _, allocate_retry hfirst hgc hrun (makeCons_ne_zero _), ?_, hden'⟩
      rw [hq]
      rfl
    · have hyes : S.Full := by
        rw [hfull]
        omega
      have hq' : q.heap.capacity < q.heap.hp + 2 := by
        rw [hden.heapOk.capacity]
        omega
      simp only [ListMachine.step, hyes, if_true]
      exact ⟨q, g, allocate_oom hfirst hgc (mbHeapCons_full hq' (q.reg hd) (q.reg tl)), hq, hden⟩

end Denotes

/-! ### Steps and runs -/

namespace Denotes

variable {p : Process} {S : ListMachine} {f : ℕ → Obj}

theorem fail (h : Denotes p S f) (e : Status) : Denotes (p.fail e) S f := h.congr rfl rfl

theorem setPc (h : Denotes p S f) (pc : ℕ) : Denotes (p.setPc pc) S f := h.congr rfl rfl

variable (hal : Hal) (scheduled : Bool) (preOpPc : ℕ) (trace : Trace)

/-- `HEAD` and `TAIL` fail on data and read a cell otherwise. -/
theorem head (h : Denotes p S f) (dst cell : Reg) :
    ∃ p', Instr.run hal scheduled preOpPc p trace (.head dst cell) =
        .ok ((S.step p.pid (.head dst cell)).1, p', []) ∧
      p' = { p with heap := p'.heap, regs := p'.regs } ∧
      Denotes p' (S.step p.pid (.head dst cell)).2 f := by
  cases hr : S.reg cell with
  | inl t =>
      simp only [Instr.run, ListMachine.step, ListMachine.field, hr, h.reg_data hr]
      exact ⟨p, rfl, rfl, h⟩
  | inr c =>
      obtain ⟨off, -, hcons, -⟩ := h.reg_cell hr
      obtain ⟨w, hread, hden⟩ := h.readCell dst hr Nat.zero_lt_two (fun _ => rfl)
      rw [Nat.add_zero] at hread
      simp only [Instr.run, ListMachine.step, ListMachine.field, hr, hcons, hread, if_true, ok_bind]
      exact ⟨_, rfl, rfl, hden⟩

theorem tail (h : Denotes p S f) (dst cell : Reg) :
    ∃ p', Instr.run hal scheduled preOpPc p trace (.tail dst cell) =
        .ok ((S.step p.pid (.tail dst cell)).1, p', []) ∧
      p' = { p with heap := p'.heap, regs := p'.regs } ∧
      Denotes p' (S.step p.pid (.tail dst cell)).2 f := by
  cases hr : S.reg cell with
  | inl t =>
      simp only [Instr.run, ListMachine.step, ListMachine.field, hr, h.reg_data hr]
      exact ⟨p, rfl, rfl, h⟩
  | inr c =>
      obtain ⟨off, -, hcons, -⟩ := h.reg_cell hr
      obtain ⟨w, hread, hden⟩ := h.readCell dst hr Nat.one_lt_two (fun _ => rfl)
      simp only [Instr.run, ListMachine.step, ListMachine.field, hr, hcons, hread, if_true, ok_bind]
      exact ⟨_, rfl, rfl, hden⟩

theorem setData (h : Denotes p S f) (dst : Reg) {t : Term} (ht : isImmediate t = true) :
    Denotes (p.setReg dst t) (S.setReg dst (.inl t)) f := by
  refine h.setReg dst (fun c hc => by cases hc) ?_ (.data (.inr ht))
  simp [value, target_of_immediate (.inr ht)]

/-- One instruction of both machines. -/
theorem step (h : Denotes p S f) (i : ListInstr) :
    ∃ p' f', i.instr.run hal scheduled preOpPc p trace = .ok ((S.step p.pid i).1, p', []) ∧
      p' = { p with heap := p'.heap, regs := p'.regs } ∧ Denotes p' (S.step p.pid i).2 f' := by
  cases i with
  | cons dst hd tl =>
      obtain ⟨p', f', hrun, hrest, hden⟩ := h.cons p.pid dst hd tl
      refine ⟨p', f', ?_, hrest, hden⟩
      simp only [ListInstr.instr, Instr.run, hrun, ok_bind, pure_ok]
  | head dst cell =>
      obtain ⟨p', hrun, hrest, hden⟩ := h.head hal scheduled preOpPc trace dst cell
      exact ⟨p', f, hrun, hrest, hden⟩
  | tail dst cell =>
      obtain ⟨p', hrun, hrest, hden⟩ := h.tail hal scheduled preOpPc trace dst cell
      exact ⟨p', f, hrun, hrest, hden⟩
  | move dst a b =>
      exact ⟨_, f, rfl, rfl, h.setReg dst (fun c hc => cell_mem hc) (h.reg a) (h.heapOk.sees_reg a)⟩
  | constI32 dst val => exact ⟨_, f, rfl, rfl, h.setData dst (isImmediate_makeSmallint val)⟩
  | self dst => exact ⟨_, f, rfl, rfl, h.setData dst (isImmediate_makePid p.pid)⟩

end Denotes

theorem ListInstr.encodable (i : ListInstr) : i.instr.Encodable := by
  cases i <;> trivial

theorem ListInstr.not_isSend (i : ListInstr) : ¬ i.instr.IsSend := by
  apply Instr.not_isSend
  cases i <;> exact nofun

section Run

variable {S : ListMachine} {f : ℕ → Obj} {m : Machine}

/-- One call of `mb_proc_step` on an encoded list instruction. -/
theorem Denotes.mbProcStep (h : Denotes m.proc S f) (hal : Hal) (i : ListInstr)
    (pre post : List Byte)
    (hprog : m.proc.program = pre ++ (i.instr.encode ++ post)) (hpc : m.proc.pc = pre.length)
    (hrunning : m.proc.halted = false) :
    ∃ p' f', MiniBeam.mbProcStep hal m = .ok ((S.step m.proc.pid i).1, m.setProc p') ∧
      p'.pid = m.proc.pid ∧ p'.program = m.proc.program ∧ p'.halted = false ∧
      p'.pc = (pre ++ i.instr.encode).length ∧ Denotes p' (S.step m.proc.pid i).2 f' := by
  have hdecode : decode m.proc.program m.proc.pc =
      (.ok i.instr, (pre ++ i.instr.encode).length) := by
    rw [hprog, hpc]
    exact decode_middle pre post i.encodable
  obtain ⟨q, f', hrun, hrest, hden⟩ := (h.setPc (pre ++ i.instr.encode).length).step hal
    m.ctx.scheduled m.proc.pc m.trace i
  have hpid : (m.proc.setPc (pre ++ i.instr.encode).length).pid = m.proc.pid := rfl
  rw [hpid] at hrun hden
  have hexec : execInstr hal m.proc.pc (m.setProc (m.proc.setPc (pre ++ i.instr.encode).length))
      i.instr = .ok ((S.step m.proc.pid i).1, m.setProc
        (if (S.step m.proc.pid i).1 = .ok then q else q.fail (S.step m.proc.pid i).1)) := by
    have hrun' : i.instr.run hal
        (m.setProc (m.proc.setPc (pre ++ i.instr.encode).length)).ctx.scheduled m.proc.pc
        (m.setProc (m.proc.setPc (pre ++ i.instr.encode).length)).proc m.trace =
        .ok ((S.step m.proc.pid i).1, q, []) := by
      rw [Machine.scheduled_setProc, Machine.proc_setProc]
      exact hrun
    rw [execInstr_run hal _ i.not_isSend, Machine.trace_setProc, hrun', ok_bind]
    simp only [pure_ok, Machine.emit_nil, Machine.setProc_setProc]
  refine ⟨if (S.step m.proc.pid i).1 = .ok then q else q.fail (S.step m.proc.pid i).1, f', ?_, ?_⟩
  · rw [mbProcStep_eq, hrunning, hdecode]
    exact hexec
  · rw [hrest] at hden ⊢
    split
    · exact ⟨rfl, rfl, hrunning, rfl, hden⟩
    · exact ⟨rfl, rfl, hrunning, rfl, hden.fail _⟩

theorem Denotes.run (h : Denotes m.proc S f) (hal : Hal) (is : List ListInstr)
    (pre rest : List Byte)
    (hprog : m.proc.program = pre ++ (assemble (is.map ListInstr.instr) ++ rest))
    (hpc : m.proc.pc = pre.length) (hrunning : m.proc.halted = false) :
    ∃ m' f', mbProcSteps hal is.length m = .ok ((S.run m.proc.pid is).1, m') ∧
      Denotes m'.proc (S.run m.proc.pid is).2 f' := by
  induction is generalizing m S f pre with
  | nil => exact ⟨m, f, rfl, h⟩
  | cons i is ih =>
      have hprog' : m.proc.program =
          pre ++ (i.instr.encode ++ (assemble (is.map ListInstr.instr) ++ rest)) := by
        rw [hprog]
        simp [assemble]
      obtain ⟨p', f', hstep, hpid, hsame, hrun', hpc', hden⟩ :=
        h.mbProcStep hal i pre _ hprog' hpc hrunning
      obtain ⟨m', f'', hrest, hden'⟩ := ih (m := m.setProc p') (S := (S.step m.proc.pid i).2)
        (f := f') (by rwa [Machine.proc_setProc]) (pre ++ i.instr.encode)
        (by rw [Machine.proc_setProc, hsame, hprog', List.append_assoc])
        (by rw [Machine.proc_setProc, hpc']) (by rw [Machine.proc_setProc, hrun'])
      rw [Machine.proc_setProc, hpid] at hrest hden'
      refine ⟨m', f'', ?_, hden'⟩
      simp only [List.length_cons, mbProcSteps, hstep, ok_bind, hrest, pure_ok, ListMachine.run]

end Run

/-- The interpreter refines the list machine: for every sequence of list instructions, run
from `mb_proc_init` in any context and followed by any bytes, each call of `mb_proc_step`
returns the machine's status, and afterwards the registers denote the same values and
lists with the same sharing. -/
theorem list_machine_refines (hal : Hal) (m : Machine) (pid : Byte) (is : List ListInstr)
    (rest : List Byte) :
    ∃ m' f, mbProcSteps hal is.length
        (m.setProc (mbProcInit pid (assemble (is.map ListInstr.instr) ++ rest))) =
          .ok ((ListMachine.init.run pid is).1, m') ∧
      IsoVia (ListMachine.init.run pid is).2.graph (ListMachine.init.run pid is).2.regs.toList
        (graph m'.proc.heap.fromSpace) (m'.proc.regs.toList.map value) f := by
  have hden : Denotes (m.setProc (mbProcInit pid
      (assemble (is.map ListInstr.instr) ++ rest))).proc .init fun _ => .cell 0 := by
    rw [Machine.proc_setProc]
    exact .init pid _
  obtain ⟨m', f, hrun, hden'⟩ :=
    hden.run hal is [] rest (by rw [Machine.proc_setProc]; rfl)
      (by rw [Machine.proc_setProc]; rfl)
    (by rw [Machine.proc_setProc]; rfl)
  rw [Machine.proc_setProc] at hrun hden'
  exact ⟨m', f, hrun, hden'.iso⟩

end MiniBeam
