import MiniBeam.Verification.Process.Allocation
import MiniBeam.Verification.Scheduler.Isolation
import MiniBeam.Verification.Step.Encode

/-! The heap of a process running arbitrary bytecode. It stays well formed as long as a
collection finds room for its forwarding records and `MAKE_TUPLE` keeps no reference
across a collection; without these conditions it does not. -/

namespace MiniBeam

open RootedGraph

/-! ### Results that are no heap fault -/

/-- A computation that ends in `P`, or in a fault that is no heap word. -/
def Within {α : Type} (x : Except Fault α) (P : α → Prop) : Prop :=
  match x with
  | .ok a => P a
  | .error f => ∀ i, f ≠ .word i

namespace Within

variable {α β : Type} {P : α → Prop}

theorem ok {a : α} (h : P a) : Within (.ok a) P := h

theorem bind {x : Except Fault α} {k : α → Except Fault β} {Q : β → Prop} (hx : Within x P)
    (hk : ∀ a, P a → Within (k a) Q) : Within (x >>= k) Q := by
  cases x with
  | error f => exact hx
  | ok a => exact hk a hx

theorem elim {x : Except Fault α} (h : Within x P) {a : α} (hx : x = .ok a) : P a := by
  rw [hx] at h
  exact h

theorem no_word {x : Except Fault α} (h : Within x P) (i : ℕ) : x ≠ .error (.word i) := by
  intro hx
  rw [hx] at h
  exact h i rfl

end Within

theorem mbMailboxPopRaw_within (mb : Mailbox) : Within (mbMailboxPopRaw mb) fun _ => True := by
  unfold mbMailboxPopRaw
  split
  · exact trivial
  · split
    · exact fun _ h => nomatch h
    · exact trivial

theorem mbMailboxPushRaw_within (mb : Mailbox) (cmd : Command) :
    Within (mbMailboxPushRaw mb cmd) fun _ => True := by
  unfold mbMailboxPushRaw
  dsimp only
  split
  · exact trivial
  · split
    · exact trivial
    · split
      · exact trivial
      · exact fun _ h => nomatch h

theorem mbSchedProc_within (s : Scheduler) (pid : Byte) :
    Within (mbSchedProc s pid) fun _ => True := by
  unfold mbSchedProc
  split
  · exact trivial
  · split
    · split <;> exact trivial
    · exact fun _ h => nomatch h

/-! ### The condition on a step -/

/-- The heap words an instruction allocates. -/
def Instr.words : Instr → ℕ
  | .cons _ _ _ => 2
  | .makeTuple _ elems => 1 + elems.length
  | _ => 0

/-- The element registers of a `MAKE_TUPLE` hold no references. -/
def Instr.NoReferences (p : Process) : Instr → Prop
  | .makeTuple _ elems => ∀ r ∈ elems, target (p.reg r) = none
  | _ => True

/-- The live objects and the words the instruction allocates do not fit together. -/
def Instr.Exceeds (p : Process) (i : Instr) : Prop :=
  ∃ n, LiveWords p.heap.fromSpace p.regs.toList n ∧ p.heap.capacity < n + i.words

/-- If the instruction has to collect, the forwarding records fit, and a `MAKE_TUPLE` has
no references to store or fails anyway. -/
def Instr.CollectsSafely (p : Process) (i : Instr) : Prop :=
  p.heap.capacity < p.heap.hp + i.words →
    p.heap.RecordsFit p.regs.toList ∧ (i.NoReferences p ∨ i.Exceeds p)

/-- The condition on the state before a step. -/
def Process.StepSafe (p : Process) : Prop :=
  p.halted = false → ∀ i pc, decode p.program p.pc = (.ok i, pc) → i.CollectsSafely p

/-- A decoded `MAKE_TUPLE` has at most 16 elements. -/
def Instr.ArityOk : Instr → Prop
  | .makeTuple _ elems => elems.length ≤ maxTupleArity
  | _ => True

theorem decode_arityOk {program : List Byte} {pc pc' : ℕ} {i : Instr}
    (h : decode program pc = (.ok i, pc')) : i.ArityOk := by
  obtain ⟨op, -, -, h⟩ := decode_opcode h
  cases i with
  | makeTuple dst elems =>
      simp only [Instr.opcode, operands] at h
      obtain ⟨_, _, -, h⟩ := Decoder.bind_ok h
      obtain ⟨arity, _, -, h⟩ := Decoder.bind_ok h
      split at h
      · rename_i hle
        obtain ⟨_, _, -, h⟩ := Decoder.bind_ok h
        obtain ⟨rs, _, hrs, h⟩ := Decoder.bind_ok h
        obtain ⟨he, -⟩ := Decoder.pure_ok h
        cases he
        show elems.length ≤ maxTupleArity
        rw [regList_length _ _ hrs]
        exact hle
      · simp [Decoder.stop_apply] at h
  | _ => exact trivial

/-! ### Instructions -/

section Run

variable {hal : Hal} {scheduled : Bool} {preOpPc : ℕ} {p : Process} {trace : Trace}

theorem Process.HeapOk.cons_within (h : p.HeapOk 0) {dst hd tl : Reg}
    (hsafe : (Instr.cons dst hd tl).CollectsSafely p) :
    Within (allocate p (fun q => mbHeapCons q.heap (q.reg hd) (q.reg tl)) dst)
      fun r => r.2.HeapOk 0 := by
  have hseen : ∀ {q : Process}, q.HeapOk 0 → ∀ t ∈ [q.reg hd, q.reg tl], q.Sees 0 t := by
    intro q hq t ht
    rcases List.mem_pair.mp ht with rfl | rfl
    · exact hq.sees_reg hd
    · exact hq.sees_reg tl
  cases h.allocated (fun hfull => (hsafe hfull).1) (consAllocator hd tl) dst with
  | atOnce _ p' run stores =>
      rw [run]
      exact stores.heapOk h (hseen h)
  | collected _ q f _ collects _ p' run stores =>
      rw [run]
      exact stores.heapOk collects.heapOk (hseen collects.heapOk)
  | oom _ q f _ collects _ run =>
      rw [run]
      exact collects.heapOk

/-- `MAKE_TUPLE` stores element values it read before a collection. -/
theorem Process.HeapOk.makeTuple_within (h : p.HeapOk 0) {dst : Reg} {elems : List Reg}
    (harity : elems.length ≤ maxTupleArity)
    (hsafe : (Instr.makeTuple dst elems).CollectsSafely p) :
    Within (allocate p (fun q => mbHeapMakeTuple q.heap (elems.map p.reg)
      (elems.map p.reg).length) dst) fun r => r.2.HeapOk 0 := by
  have hlen : (elems.map p.reg).length = elems.length := List.length_map _
  have hsafe' : p.heap.capacity < p.heap.hp + (1 + (elems.map p.reg).length) →
      p.heap.RecordsFit p.regs.toList ∧ ((Instr.makeTuple dst elems).NoReferences p ∨
        (Instr.makeTuple dst elems).Exceeds p) := by
    rw [hlen]
    exact hsafe
  cases h.allocated (fun hfull => (hsafe' hfull).1) (tupleAllocator (hlen ▸ harity)) dst with
  | atOnce _ p' run stores =>
      rw [run]
      refine stores.heapOk h fun t ht => ?_
      obtain ⟨r, -, rfl⟩ := List.mem_map.mp ht
      exact h.sees_reg r
  | collected full q f _ collects room p' run stores =>
      rw [run]
      rcases (hsafe' full).2 with hdata | ⟨n, hlive, hbig⟩
      · refine stores.heapOk collects.heapOk fun t ht => ?_
        obtain ⟨r, hr, rfl⟩ := List.mem_map.mp ht
        exact .data ((h.sees_reg r).ok.data (hdata r hr))
      · rw [hlive.unique collects.live, Instr.words, ← hlen] at hbig
        exact absurd room (Nat.not_le.mpr hbig)
  | oom _ q f _ collects _ run =>
      rw [run]
      exact collects.heapOk

theorem Process.HeapOk.jumpTo (h : p.HeapOk 0) (offset : I32) :
    (jumpTo p offset).2.HeapOk 0 := by
  unfold MiniBeam.jumpTo
  split
  · exact h
  · exact h.setPc _

/-- An instruction keeps the heap well formed and never leaves it. -/
theorem Instr.run_heapOk {i : Instr} (h : p.HeapOk 0) (harity : i.ArityOk)
    (hsafe : i.CollectsSafely p) :
    Within (i.run hal scheduled preOpPc p trace) fun out => out.2.1.HeapOk 0 := by
  cases i with
  | nop | yield | halt => exact h.congr rfl rfl
  | constI32 dst v => exact h.setInt dst v
  | move dst a b => exact h.setReg dst (h.sees_reg a)
  | add dst a b | sub dst a b => exact h.setInt dst _
  | send a b c d e f => exact h.setInt a _
  | self dst => exact h.setReg dst (.data (.inr (isImmediate_makePid p.pid)))
  | jmp offset => exact h.jumpTo offset
  | callBif bifId args dst =>
      simp only [Instr.run]
      split
      · split
        · exact h
        · exact (h.setInt _ _).fail .ok
      · exact h
  | recvCmd t a b c d =>
      refine (mbMailboxPopRaw_within p.mailbox).bind fun popped _ => ?_
      rcases popped with _ | ⟨cmd, mb⟩
      · dsimp only
        split
        · exact h.congr rfl rfl
        · exact (h.loadCommand t a b c d _).fail _
      · exact ((h.setMailbox mb).loadCommand t a b c d _).fail _
  | jmpIfZero r offset =>
      simp only [Instr.run]
      split
      · exact h.jumpTo offset
      · exact h
  | sleepMs r =>
      simp only [Instr.run]
      split
      · exact h.congr rfl rfl
      · exact h
  | makeTuple dst elems =>
      exact (h.makeTuple_within harity hsafe).bind fun _ hr => hr
  | cons dst hd tl => exact (h.cons_within hsafe).bind fun _ hr => hr
  | tupleElem dst tuple index =>
      simp only [Instr.run]
      split
      · rename_i hb
        obtain ⟨-, hdr, hread, isHdr, -, helem⟩ := h.readTuple hb
        rw [hread, ok_bind, if_neg (by simp [isHdr])]
        split
        · rename_i hidx
          obtain ⟨w, hw, hsees, -⟩ := helem _ hidx
          rw [hw]
          exact h.setReg dst hsees
        · exact h
      · exact h
  | head dst cell =>
      simp only [Instr.run]
      split
      · rename_i hc
        obtain ⟨w, hread, hsees, -⟩ := h.readCell hc (Nat.zero_lt_two)
        rw [Nat.add_zero] at hread
        rw [hread]
        exact h.setReg dst hsees
      · exact h
  | tail dst cell =>
      simp only [Instr.run]
      split
      · rename_i hc
        obtain ⟨w, hread, hsees, -⟩ := h.readCell hc (Nat.one_lt_two)
        rw [hread]
        exact h.setReg dst hsees
      · exact h

theorem deliver_heapOk {s : Scheduler} {self : Slot} (h : (s.proc self).HeapOk 0) (target : Slot)
    (cmd : Command) : Within (deliver s target cmd) fun r => (r.2.proc self).HeapOk 0 := by
  have hpush : Within (mbVmMailboxPushProc (s.proc target) cmd) fun r =>
      r.2.heap = (s.proc target).heap ∧ r.2.regs = (s.proc target).regs :=
    (mbMailboxPushRaw_within _ _).bind fun _ _ => ⟨rfl, rfl⟩
  refine hpush.bind fun r hr => ?_
  show ((s.setProc target _).proc self).HeapOk 0
  rw [Scheduler.proc_setProc]
  split
  · rename_i heq
    subst heq
    split
    · exact h.congr hr.1 hr.2
    · exact h.congr hr.1 hr.2
  · exact h

/-- `SEND` writes a result code, and a push leaves every heap alone. -/
theorem sendFrom_heapOk {s : Scheduler} {self : Slot} {rPid rType rA rB rC rD : Reg}
    (h : (s.proc self).HeapOk 0) :
    Within (sendFrom s self rPid rType rA rB rC rD) fun r => (r.1.proc self).HeapOk 0 := by
  refine (mbSchedProc_within s _).bind fun found _ => ?_
  rcases found with _ | target
  · show ((answer s self rPid .badPid).proc self).HeapOk 0
    rw [answer, Scheduler.proc_setProc_self]
    exact h.setInt rPid _
  · refine (deliver_heapOk h target _).bind fun r hr => ?_
    show ((answer r.2 self rPid r.1).proc self).HeapOk 0
    rw [answer, Scheduler.proc_setProc_self]
    exact hr.setInt rPid _

theorem execInstr_heapOk {m : Machine} {i : Instr} (h : m.proc.HeapOk 0) (harity : i.ArityOk)
    (hsafe : i.CollectsSafely m.proc) :
    Within (execInstr hal preOpPc m i) fun r => r.2.proc.HeapOk 0 := by
  by_cases hs : i.IsSend
  · obtain ⟨a, b, c, d, e, f, rfl⟩ := hs
    rcases m with ⟨q | ⟨s, self⟩, t⟩
    · exact h.setInt a _
    · exact (sendFrom_heapOk h).bind fun r hr => hr
  · have hrun : Within (i.run hal m.ctx.scheduled preOpPc m.proc m.trace)
        fun out => out.2.1.HeapOk 0 := Instr.run_heapOk h harity hsafe
    rw [execInstr_run hal preOpPc hs]
    refine hrun.bind fun r hr => ?_
    show (m.setProc (if r.1 = .ok then r.2.1 else r.2.1.fail r.1)).proc.HeapOk 0
    rw [Machine.proc_setProc]
    split
    · exact hr
    · exact hr.fail _

theorem mbProcStep_heapOk {m : Machine} (h : m.proc.HeapOk 0) (hsafe : m.proc.StepSafe) :
    Within (mbProcStep hal m) fun r => r.2.proc.HeapOk 0 := by
  rw [mbProcStep_eq]
  split
  · exact h
  · rename_i hhalted
    split
    · show (m.setProc _).proc.HeapOk 0
      rw [Machine.proc_setProc]
      exact (h.setPc _).fail _
    · rename_i i pc hd
      refine execInstr_heapOk ?_ (decode_arityOk hd) ?_
      · rw [Machine.proc_setProc]
        exact h.setPc _
      · rw [Machine.proc_setProc]
        exact hsafe (by simpa using hhalted) i pc hd

end Run

/-! ### Runs of one process -/

/-- The states of a process that runs from `mb_proc_init`, as long as every step meets a
condition. Between two steps its mailbox, its state and its reduction counter may change
in any way. -/
inductive ProcReached (hal : Hal) (cond : Process → Prop) : Process → Prop
  | init (pid : Byte) (program : List Byte) : ProcReached hal cond (mbProcInit pid program)
  | outside {p : Process} (before : ProcReached hal cond p) (mailbox : Mailbox)
      (state : ProcState) (reductions : ℕ) :
      ProcReached hal cond { p with mailbox := mailbox, state := state, reductions := reductions }
  | step {m m' : Machine} {rc : Status} (before : ProcReached hal cond m.proc)
      (meets : cond m.proc) (run : mbProcStep hal m = .ok (rc, m')) :
      ProcReached hal cond m'.proc

/-- A term that refers to an object inside the filled part of the heap, if it refers to one. -/
structure PointsInside (heap : Heap) (t : Term) : Prop where
  boxed : isBoxed t = true → ∃ hdr, heap.fromSpace[getBoxed t]? = some hdr ∧
    isTupleHdr hdr = true ∧ getBoxed t + (1 + getTupleArity hdr) ≤ heap.hp
  cons : isCons t = true → getCons t + 2 ≤ heap.hp

/-- Every reference in a register, or in a word reachable from one, points inside the heap. -/
structure Process.Inside (p : Process) : Prop where
  registers : ∀ t ∈ p.regs.toList, PointsInside p.heap t
  words : ∀ o, p.Live o → ∀ t ∈ o.fields p.heap.fromSpace, PointsInside p.heap t
  hp_le : p.heap.hp ≤ p.heap.capacity
  capacity : p.heap.capacity = heapWords
  spaces : p.heap.fromSpace.length = p.heap.capacity ∧ p.heap.toSpace.length = p.heap.capacity

theorem WordOk.pointsInside {heap : Heap} {lo : ℕ} {t : Term}
    (h : WordOk heap.fromSpace heap.hp lo t) : PointsInside heap t := by
  constructor
  · intro hb
    have htarget : target t = some (.tuple (getBoxed t)) := by simp [target, hb]
    have hfits := h.fits htarget
    obtain ⟨hdr, header, isHdr, -, -⟩ := hfits.header _ rfl
    have hbelow := hfits.below
    simp only [Obj.off, Obj.size, Obj.arity_eq header] at hbelow
    exact ⟨hdr, header, isHdr, hbelow⟩
  · intro hc
    have hb : isBoxed t = false := by
      rw [← Bool.not_eq_true, isBoxed_iff, isCons_iff.mp hc]
      omega
    have htarget : target t = some (.cell (getCons t)) := by simp [target, hb, hc]
    exact (h.fits htarget).below

theorem Process.HeapOk.inside {p : Process} (h : p.HeapOk 0) : p.Inside where
  registers t ht := (h.wellFormed.sound.rootsOk t ht).pointsInside
  words o ho t ht := (h.wellFormed.sound.fieldsOk o ho t ht).pointsInside
  hp_le := h.wellFormed.hp_le
  capacity := h.capacity
  spaces := ⟨h.wellFormed.fromLength, h.wellFormed.toLength⟩

theorem ProcReached.heapOk {hal : Hal} {p : Process} (h : ProcReached hal Process.StepSafe p) :
    p.HeapOk 0 := by
  induction h with
  | init pid program => exact .init 0 pid program
  | outside before mailbox state reductions ih => exact ih.congr rfl rfl
  | step before meets run ih => exact (mbProcStep_heapOk ih meets).elim run

/-- In a run whose steps meet the condition, every reference points inside the heap, and
the next step that meets it reads and writes no word outside the spaces. -/
theorem process_heap_safe {hal : Hal} {p : Process} (h : ProcReached hal Process.StepSafe p) :
    p.Inside ∧
      (p.StepSafe → ∀ m i, m.proc = p → mbProcStep hal m ≠ .error (.word i)) := by
  refine ⟨h.heapOk.inside, fun hsafe m i hm => ?_⟩
  subst hm
  exact (mbProcStep_heapOk h.heapOk hsafe).no_word i

/-- A process on its own. -/
def alone (program : List Byte) : Machine := ⟨.compat (mbProcInit 1 program), []⟩

/-! ### Runs that fill the heap -/

/-- `n` calls of `mb_proc_step`, with the statuses they return. -/
def mbProcSteps (hal : Hal) : ℕ → Machine → Except Fault (List Status × Machine)
  | 0, m => .ok ([], m)
  | n + 1, m => do
    let (rc, m) ← mbProcStep hal m
    let (rcs, m) ← mbProcSteps hal n m
    return (rc :: rcs, m)

theorem ProcReached.steps {hal : Hal} {n : ℕ} {m m' : Machine} {rcs : List Status}
    (h : ProcReached hal (fun _ => True) m.proc) (hrun : mbProcSteps hal n m = .ok (rcs, m')) :
    ProcReached hal (fun _ => True) m'.proc := by
  induction n generalizing m rcs with
  | zero =>
      simp only [mbProcSteps, Except.ok.injEq, Prod.mk.injEq] at hrun
      exact hrun.2 ▸ h
  | succ n ih =>
      obtain ⟨⟨rc, m₁⟩, hstep, hrun⟩ := bind_eq_ok.mp hrun
      obtain ⟨⟨rcs', m₂⟩, hrest, hrun⟩ := bind_eq_ok.mp hrun
      simp only [pure_ok, Except.ok.injEq, Prod.mk.injEq] at hrun
      obtain ⟨-, rfl⟩ := hrun
      exact ih (.step h trivial hstep) hrest

/-- Seven tuples of 16 elements in register 0: 119 of the 128 words are used. -/
def sevenTuples : List Byte := (List.replicate 7 (0x50 :: 0 :: 16 :: List.replicate 16 1)).flatten

/-- The next instruction finds room, if there is one. -/
def Process.roomy (p : Process) : Bool :=
  match decode p.program p.pc with
  | (.ok i, _) => decide (p.heap.hp + i.words ≤ p.heap.capacity)
  | (.error _, _) => true

/-- The registers refer to no other objects than these, which hold no references and leave room
for their forwarding records. -/
def Process.flat (p : Process) (objs : List Obj) : Bool :=
  (p.regs.toList.all fun t => (target t).all objs.contains) && objs.all fun o =>
    ((o.fields p.heap.fromSpace).all fun t => (target t).isNone) &&
      decide (o.off + 2 ≤ p.heap.capacity) && objs.all fun o' => decide (o'.off ≠ o.off + 1)

/-- The next instruction makes a tuple of data, and the registers refer to these objects only. -/
def Process.collectable (p : Process) (objs : List Obj) : Bool :=
  match decode p.program p.pc with
  | (.ok (.makeTuple _ elems), _) => p.flat objs && elems.all fun r => (target (p.reg r)).isNone
  | _ => false

section Checks

variable {hal : Hal} {p : Process} {objs : List Obj}

theorem Process.stepSafe_of_roomy (h : p.roomy = true) : p.StepSafe := by
  intro _ i pc hd hfull
  rw [roomy, hd, decide_eq_true_eq] at h
  exact absurd h (Nat.not_le.mpr hfull)

theorem Process.live_of_flat (h : p.flat objs = true) {o : Obj} (ho : p.Live o) : o ∈ objs := by
  rw [flat, Bool.and_eq_true, List.all_eq_true, List.all_eq_true] at h
  obtain ⟨hroots, hobjs⟩ := h
  refine ho.subset (P := fun o => o ∈ objs) (fun o hroot => ?_) fun o o' hmem hfield => ?_
  · obtain ⟨t, ht, htarget⟩ := mem_map_value.mp hroot
    simpa [htarget] using hroots t ht
  · obtain ⟨t, ht, htarget⟩ := mem_map_value.mp hfield
    have hchecked := hobjs o hmem
    simp only [Bool.and_eq_true, List.all_eq_true] at hchecked
    have hnone := hchecked.1.1 t ht
    rw [htarget] at hnone
    cases hnone

theorem Process.recordsFit_of_flat (h : p.flat objs = true) :
    p.heap.RecordsFit p.regs.toList := by
  intro o ho
  have hmem := Process.live_of_flat h ho
  have hlive := fun o' (ho' : p.Live o') => Process.live_of_flat h ho'
  rw [flat, Bool.and_eq_true, List.all_eq_true, List.all_eq_true] at h
  have hchecked := h.2 o hmem
  simp only [Bool.and_eq_true, List.all_eq_true, decide_eq_true_eq] at hchecked
  exact ⟨hchecked.1.2, fun o' ho' => hchecked.2 o' (hlive o' ho')⟩

theorem Process.stepSafe_of_collectable (h : p.collectable objs = true) : p.StepSafe := by
  intro _ i pc hd _
  rw [collectable, hd] at h
  cases i with
  | makeTuple dst elems =>
      rw [Bool.and_eq_true, List.all_eq_true] at h
      exact ⟨Process.recordsFit_of_flat h.1,
        .inl fun r hr => Option.isNone_iff_eq_none.mp (h.2 r hr)⟩
  | _ => cases h

/-- Steps that all find room. -/
theorem ProcReached.steps_roomy {n : ℕ} {m m' : Machine} {rcs : List Status}
    (h : ProcReached hal Process.StepSafe m.proc) (hrun : mbProcSteps hal n m = .ok (rcs, m'))
    (hroom : ∀ k < n, (mbProcSteps hal k m).map (fun r => r.2.proc.roomy) = .ok true) :
    ProcReached hal Process.StepSafe m'.proc := by
  induction n generalizing m rcs with
  | zero =>
      cases hrun
      exact h
  | succ n ih =>
      obtain ⟨⟨rc, m₁⟩, hstep, hrun⟩ := bind_eq_ok.mp hrun
      obtain ⟨⟨rcs', m₂⟩, hrest, hrun⟩ := bind_eq_ok.mp hrun
      cases hrun
      have hfirst : m.proc.roomy = true := Except.ok.inj (hroom 0 (Nat.zero_lt_succ n))
      refine ih (.step h (Process.stepSafe_of_roomy hfirst) hstep) hrest fun k hk => ?_
      have hnext := hroom (k + 1) (Nat.succ_lt_succ hk)
      rw [mbProcSteps, hstep, ok_bind] at hnext
      dsimp only at hnext
      cases hk' : mbProcSteps hal k m₁ with
      | error f =>
          rw [hk'] at hnext
          cases hnext
      | ok r =>
          rw [hk'] at hnext
          exact hnext

end Checks

/-- The eighth tuple of 16 elements collects the first six; then an element of it is read. -/
def eightTuples : List Byte :=
  sevenTuples ++ 0x50 :: 0 :: 16 :: List.replicate 16 1 ++ [0x51, 2, 0, 3]

/-- A safe run through a collection, and the read of an element behind it. -/
theorem process_heap_safe_eightTuples :
    ∃ p, ProcReached idleHal Process.StepSafe p ∧ p.heap.gcCount = 1 ∧ p.heap.hp = 34 ∧ p.Inside ∧
      ∀ m i, m.proc = p → mbProcStep idleHal m ≠ .error (.word i) := by
  obtain ⟨⟨rcs, m⟩, hrun, hseven⟩ := exists_ok_of_map (mbProcSteps idleHal 7 (alone eightTuples))
    (fun r => (r.2.proc.collectable [.tuple 102], (mbProcStep idleHal r.2).map fun r =>
      (r.2.proc.roomy, r.2.proc.heap.gcCount, r.2.proc.heap.hp))) (true, .ok (true, 1, 34))
    (by decide +kernel)
  obtain ⟨hcollects, heighth⟩ := Prod.mk.inj hseven
  obtain ⟨⟨rc, m'⟩, hstep, hm'⟩ := exists_ok_of_map _ _ _ heighth
  obtain ⟨hroomy, hm'⟩ := Prod.mk.inj hm'
  obtain ⟨hgc, hhp⟩ := Prod.mk.inj hm'
  have hreached : ProcReached idleHal Process.StepSafe m.proc :=
    ProcReached.steps_roomy (m := alone eightTuples) (.init 1 eightTuples) hrun (by decide +kernel)
  have hreached' : ProcReached idleHal Process.StepSafe m'.proc :=
    .step hreached (Process.stepSafe_of_collectable hcollects) hstep
  obtain ⟨hinside, hsafe⟩ := process_heap_safe hreached'
  exact ⟨m'.proc, hreached', hgc, hhp, hinside, hsafe (Process.stepSafe_of_roomy hroomy)⟩

/-! ### The condition is needed -/

/-- A tuple that does not fit, with the tuple in register 0 as its elements. -/
def staleElements : List Byte := sevenTuples ++ 0x50 :: 1 :: 16 :: List.replicate 16 0

/-- An empty tuple in the last word of the heap, and a cell that does not fit. -/
def emptyTupleLast : List Byte :=
  sevenTuples ++ 0x50 :: 1 :: 7 :: List.replicate 7 2 ++ [0x50, 3, 0, 0x52, 4, 5, 5]

/-- The elements stored are references to the old space. -/
theorem staleElements_outside :
    ∃ p, ProcReached idleHal (fun _ => True) p ∧ ¬ p.Inside := by
  have hrun : (mbProcSteps idleHal 8 (alone staleElements)).map (fun r =>
      (r.2.proc.reg 1, r.2.proc.heap.hp, r.2.proc.heap.fromSpace[17]?,
        r.2.proc.heap.fromSpace[18]?)) =
      .ok (makeBoxed 17, 34, some (makeTupleHdr 16), some (makeBoxed 102)) := by decide +kernel
  obtain ⟨⟨rcs, m⟩, hsteps, hm⟩ := exists_ok_of_map _ _ _ hrun
  simp only [Prod.mk.injEq] at hm
  obtain ⟨hreg, hhp, hheader, helem⟩ := hm
  refine ⟨m.proc, ProcReached.steps (m := alone staleElements) (.init 1 staleElements) hsteps,
    fun h => ?_⟩
  have hlive : m.proc.Live (.tuple 17) :=
    .root (mem_map_value.mpr ⟨_, m.proc.reg_mem 1, by rw [hreg]; decide⟩)
  have hfield : makeBoxed 102 ∈ Obj.fields m.proc.heap.fromSpace (.tuple 17) := by
    rw [Obj.fields, Obj.arity_eq hheader]
    exact List.mem_iff_getElem?.mpr ⟨0, by rw [Layout.getElem?_slice (by decide), helem]⟩
  obtain ⟨hdr, -, -, hbelow⟩ := (h.words _ hlive _ hfield).boxed (by decide)
  have hoff : getBoxed (makeBoxed 102) = 102 := by decide
  omega

/-- The forwarding record of the empty tuple is written behind the space. -/
theorem emptyTupleLast_outside :
    ∃ m i, ProcReached idleHal (fun _ => True) m.proc ∧
      mbProcStep idleHal m = .error (.word i) := by
  have hrun : (mbProcSteps idleHal 9 (alone emptyTupleLast)).map (fun r =>
      mbProcStep idleHal r.2 |>.map fun _ => ()) = .ok (.error (.word 128)) := by decide +kernel
  obtain ⟨⟨rcs, m⟩, hsteps, hm⟩ := exists_ok_of_map _ _ _ hrun
  refine ⟨m, 128, ProcReached.steps (m := alone emptyTupleLast) (.init 1 emptyTupleLast) hsteps, ?_⟩
  cases hstep : mbProcStep idleHal m with
  | error f =>
      rw [hstep] at hm
      simpa [Except.map] using hm
  | ok r =>
      rw [hstep] at hm
      simp [Except.map] at hm

theorem process_heap_unsafe :
    (∃ p, ProcReached idleHal (fun _ => True) p ∧ ¬ p.Inside) ∧
    ∃ m i, ProcReached idleHal (fun _ => True) m.proc ∧ mbProcStep idleHal m = .error (.word i) :=
  ⟨staleElements_outside, emptyTupleLast_outside⟩

end MiniBeam
