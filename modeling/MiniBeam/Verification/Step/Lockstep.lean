import MiniBeam.Library.Lockstep
import MiniBeam.Verification.Step.Effect

/-! One instruction in two processes that differ in registers and heap only. -/

namespace MiniBeam

open Lockstep (Results)

/-! ### Matching processes -/

/-- The same process up to its registers, its heap and its scheduling data. -/
structure Process.Matched (R : Term → Term → Prop) (H : Heap → Heap → Prop) (p q : Process) :
    Prop where
  pid : q.pid = p.pid
  program : q.program = p.program
  pc : q.pc = p.pc
  mailbox : q.mailbox = p.mailbox
  halted : q.halted = p.halted
  lastError : q.lastError = p.lastError
  regs : ∀ r, R (p.reg r) (q.reg r)
  heap : H p.heap q.heap

/-- The same scheduling data. -/
structure SameControl (p q : Process) : Prop where
  state : q.state = p.state
  sleepUntilMs : q.sleepUntilMs = p.sleepUntilMs
  reductions : q.reductions = p.reductions

/-- Immediates are related to themselves. -/
structure Immediates (R : Term → Term → Prop) : Prop where
  smallint : ∀ v, R (makeSmallint v) (makeSmallint v)
  pid : ∀ b, R (makePid b) (makePid b)

/-- The same effect, on matching processes. -/
structure Alike (R : Term → Term → Prop) (H : Heap → Heap → Prop) (control : Prop)
    (o o' : Outcome) : Prop where
  status : o'.1 = o.1
  proc : o.2.1.Matched R H o'.2.1
  control : control → SameControl o.2.1 o'.2.1
  events : o'.2.2 = o.2.2

namespace Process.Matched

variable {R : Term → Term → Prop} {H : Heap → Heap → Prop} {p q : Process}

theorem setReg (h : p.Matched R H q) (r : Reg) {t u : Term} (ht : R t u) :
    (p.setReg r t).Matched R H (q.setReg r u) where
  pid := h.pid
  program := h.program
  pc := h.pc
  mailbox := h.mailbox
  halted := h.halted
  lastError := h.lastError
  regs r' := by
    rw [Process.reg_setReg, Process.reg_setReg]
    split
    · exact ht
    · exact h.regs r'
  heap := h.heap

theorem setPc (h : p.Matched R H q) (n : ℕ) : (p.setPc n).Matched R H (q.setPc n) :=
  ⟨h.pid, h.program, rfl, h.mailbox, h.halted, h.lastError, h.regs, h.heap⟩

theorem setMailbox (h : p.Matched R H q) (mb : Mailbox) :
    (p.setMailbox mb).Matched R H (q.setMailbox mb) :=
  ⟨h.pid, h.program, h.pc, rfl, h.halted, h.lastError, h.regs, h.heap⟩

theorem fail (h : p.Matched R H q) (e : Status) : (p.fail e).Matched R H (q.fail e) :=
  ⟨h.pid, h.program, h.pc, h.mailbox, h.halted, rfl, h.regs, h.heap⟩

theorem setHeap (h : p.Matched R H q) {H' : Heap → Heap → Prop} {a b : Heap} (hab : H' a b) :
    (p.setHeap a).Matched R H' (q.setHeap b) :=
  ⟨h.pid, h.program, h.pc, h.mailbox, h.halted, h.lastError, h.regs, hab⟩

theorem mono (h : p.Matched R H q) {R' : Term → Term → Prop} {H' : Heap → Heap → Prop}
    (hR : ∀ r, R' (p.reg r) (q.reg r)) (hH : H' p.heap q.heap) : p.Matched R' H' q :=
  ⟨h.pid, h.program, h.pc, h.mailbox, h.halted, h.lastError, hR, hH⟩

/-- Only these parts of the processes matter. -/
theorem congr (h : p.Matched R H q) (s s' : ProcState) (u u' : BitVec 32) (n n' : ℕ) :
    Process.Matched R H { p with state := s, sleepUntilMs := u, reductions := n }
      { q with state := s', sleepUntilMs := u', reductions := n' } :=
  ⟨h.pid, h.program, h.pc, h.mailbox, h.halted, h.lastError, h.regs, h.heap⟩

theorem loadCommand (hR : Immediates R) (h : p.Matched R H q) (rType rA rB rC rD : Reg)
    (cmd : Command) :
    (p.loadCommand rType rA rB rC rD cmd).Matched R H (q.loadCommand rType rA rB rC rD cmd) :=
  ((((h.setReg rType (hR.smallint _)).setReg rA (hR.smallint _)).setReg rB
    (hR.smallint _)).setReg rC (hR.smallint _)).setReg rD (hR.smallint _)

theorem jumpTo (h : p.Matched R H q) (offset : I32) :
    (MiniBeam.jumpTo q offset).1 = (MiniBeam.jumpTo p offset).1 ∧
      (MiniBeam.jumpTo p offset).2.Matched R H (MiniBeam.jumpTo q offset).2 := by
  unfold MiniBeam.jumpTo
  rw [h.pc, h.program]
  split
  · exact ⟨rfl, h⟩
  · exact ⟨rfl, h.setPc _⟩

end Process.Matched

namespace SameControl

variable {p q : Process}

theorem setReg (h : SameControl p q) (r : Reg) (t u : Term) :
    SameControl (p.setReg r t) (q.setReg r u) := ⟨h.state, h.sleepUntilMs, h.reductions⟩

theorem setMailbox (h : SameControl p q) (mb : Mailbox) :
    SameControl (p.setMailbox mb) (q.setMailbox mb) := ⟨h.state, h.sleepUntilMs, h.reductions⟩

theorem fail (h : SameControl p q) (e : Status) : SameControl (p.fail e) (q.fail e) :=
  ⟨h.state, h.sleepUntilMs, h.reductions⟩

theorem loadCommand (h : SameControl p q) (rType rA rB rC rD : Reg) (cmd : Command) :
    SameControl (p.loadCommand rType rA rB rC rD cmd) (q.loadCommand rType rA rB rC rD cmd) :=
  ((((h.setReg ..).setReg ..).setReg ..).setReg ..).setReg ..

theorem jumpTo (h : SameControl p q) (offset : I32) :
    SameControl (MiniBeam.jumpTo p offset).2 (MiniBeam.jumpTo q offset).2 := by
  have hkeep : ∀ p : Process, SameControl p (MiniBeam.jumpTo p offset).2 := by
    intro p
    unfold MiniBeam.jumpTo
    split <;> exact ⟨rfl, rfl, rfl⟩
  exact ⟨(hkeep q).state.trans (h.state.trans (hkeep p).state.symm),
    (hkeep q).sleepUntilMs.trans (h.sleepUntilMs.trans (hkeep p).sleepUntilMs.symm),
    (hkeep q).reductions.trans (h.reductions.trans (hkeep p).reductions.symm)⟩

end SameControl

/-! ### What instructions look at -/

/-- The registers an instruction reads as integers, whatever their tags are. -/
def Instr.ints : Instr → List Reg
  | .add _ a b | .sub _ a b => [a, b]
  | .callBif _ args _ => args
  | .send rPid rType rA rB rC rD => [rPid, rType, rA, rB, rC, rD]
  | .sleepMs r => [r]
  | _ => []

/-- The registers an instruction compares with the integer 0. -/
def Instr.tests : Instr → List Reg
  | .jmpIfZero r _ => [r]
  | _ => []

/-- The heap instructions. -/
def Instr.OnHeap : Instr → Prop
  | .makeTuple .. | .tupleElem .. | .cons .. | .head .. | .tail .. => True
  | _ => False

/-- The instructions that allocate. -/
def Instr.Allocates : Instr → Prop
  | .makeTuple .. | .cons .. => True
  | _ => False

/-- The instruction finds the same integers in both processes. -/
structure Instr.SameInts (i : Instr) (p q : Process) : Prop where
  ints : ∀ r ∈ i.ints, q.int r = p.int r
  tests : ∀ r ∈ i.tests, (q.reg r = makeSmallint 0 ↔ p.reg r = makeSmallint 0)

/-! ### One instruction -/

section Run

variable {R : Term → Term → Prop} {H : Heap → Heap → Prop} {p q : Process}
  (hR : Immediates R) (hal : Hal) (scheduled : Bool) (preOpPc : ℕ) (t : Trace)
include hR

theorem recvCmd_matched (h : p.Matched R H q) (rType rA rB rC rD : Reg) :
    Results (Alike R H (SameControl p q))
      ((Instr.recvCmd rType rA rB rC rD).run hal scheduled preOpPc p t)
      ((Instr.recvCmd rType rA rB rC rD).run hal scheduled preOpPc q t) := by
  have hpop : mbMailboxPopRaw q.mailbox = mbMailboxPopRaw p.mailbox := by rw [h.mailbox]
  simp only [Instr.run, hpop]
  apply (Results.refl (R := Eq) (fun _ => rfl) (mbMailboxPopRaw p.mailbox)).bind
  rintro popped _ rfl
  rcases popped with _ | ⟨cmd, mb⟩
  · dsimp only
    split
    · have hback := (h.setPc preOpPc).congr .waiting .waiting p.sleepUntilMs q.sleepUntilMs
        p.reductions q.reductions
      exact .ok ⟨rfl, hback, fun hc => ⟨rfl, hc.sleepUntilMs, hc.reductions⟩, rfl⟩
    · exact .ok ⟨rfl, (h.loadCommand hR ..).fail .mailboxEmpty,
        fun hc => (hc.loadCommand ..).fail .mailboxEmpty, rfl⟩
  · exact .ok ⟨rfl, ((h.setMailbox mb).loadCommand hR ..).fail _,
      fun hc => ((hc.setMailbox mb).loadCommand ..).fail _,
      congrArg (fun b => [Event.pop b cmd]) h.pid⟩

/-- An instruction that leaves the heap alone has the same effect on matching processes. -/
theorem Instr.run_matched {i : Instr} (hheap : ¬ i.OnHeap) (h : p.Matched R H q)
    (hi : i.SameInts p q) : Results (Alike R H (SameControl p q))
      (i.run hal scheduled preOpPc p t) (i.run hal scheduled preOpPc q t) := by
  cases i with
  | nop => exact .ok ⟨rfl, h, id, rfl⟩
  | constI32 dst val => exact .ok ⟨rfl, h.setReg dst (hR.smallint val), fun hc => hc.setReg .., rfl⟩
  | move dst a b => exact .ok ⟨rfl, h.setReg dst (h.regs a), fun hc => hc.setReg .., rfl⟩
  | add dst a b | sub dst a b =>
      have ha := hi.ints a (by simp [Instr.ints])
      have hb := hi.ints b (by simp [Instr.ints])
      simp only [Instr.run, ha, hb]
      exact .ok ⟨rfl, h.setReg dst (hR.smallint _), fun hc => hc.setReg .., rfl⟩
  | callBif bifId args dst =>
      have hargs : args.map q.int = args.map p.int := List.map_congr_left hi.ints
      simp only [Instr.run, hargs, h.pid]
      split
      · split
        · exact .ok ⟨rfl, h, id, rfl⟩
        · exact .ok ⟨rfl, (h.setReg _ (hR.smallint _)).fail .ok,
            fun hc => ⟨hc.state, hc.sleepUntilMs, hc.reductions⟩, rfl⟩
      · exact .ok ⟨rfl, h, id, rfl⟩
  | recvCmd rType rA rB rC rD => exact recvCmd_matched hR hal scheduled preOpPc t h ..
  | send rPid rType rA rB rC rD =>
      exact .ok ⟨rfl, h.setReg rPid (hR.smallint _), fun hc => hc.setReg .., rfl⟩
  | self dst =>
      simp only [Instr.run, h.pid]
      exact .ok ⟨rfl, h.setReg dst (hR.pid _), fun hc => hc.setReg .., rfl⟩
  | yield =>
      exact .ok ⟨rfl, h.congr .., fun hc => ⟨hc.state, hc.sleepUntilMs, rfl⟩, rfl⟩
  | jmp offset =>
      exact .ok ⟨(h.jumpTo offset).1, (h.jumpTo offset).2, fun hc => hc.jumpTo offset, rfl⟩
  | jmpIfZero r offset =>
      have htest := hi.tests r (by simp [Instr.tests])
      simp only [Instr.run, htest]
      split
      · exact .ok ⟨(h.jumpTo offset).1, (h.jumpTo offset).2, fun hc => hc.jumpTo offset, rfl⟩
      · exact .ok ⟨rfl, h, id, rfl⟩
  | sleepMs r =>
      have hr := hi.ints r (by simp [Instr.ints])
      simp only [Instr.run, hr]
      split
      · exact .ok ⟨rfl, h.congr .., fun hc => ⟨rfl, rfl, hc.reductions⟩,
          congrArg (fun b => [Event.hal b .monotonicMs _]) h.pid⟩
      · exact .ok ⟨rfl, h, id, congrArg (fun b => [Event.hal b (.delayMs _) _]) h.pid⟩
  | halt =>
      exact .ok ⟨rfl, ⟨h.pid, h.program, h.pc, h.mailbox, rfl, h.lastError, h.regs, h.heap⟩,
        fun hc => ⟨rfl, hc.sleepUntilMs, hc.reductions⟩, rfl⟩
  | makeTuple | tupleElem | cons | head | tail => exact absurd trivial hheap

end Run

/-! ### Allocation -/

section Allocate

variable {R : Term → Term → Prop} {H : Heap → Heap → Prop} {p q : Process} {dst : Reg}
  {alloc alloc' : Process → Except Fault (Term × Heap)}

/-- Allocations that match, with collections that match, have the same effect. -/
theorem allocate_matched (h : p.Matched R H q)
    (halloc : ∀ p q, p.Matched R H q → Results (fun a b => (b.1 = 0 ↔ a.1 = 0) ∧ R a.1 b.1 ∧
      H a.2 b.2) (alloc p) (alloc' q))
    (hgc : ∀ p q, p.Matched R H q → Results (Process.Matched R H) (gcRegs p) (gcRegs q)) :
    Results (fun a b => b.1 = a.1 ∧ a.2.Matched R H b.2) (allocate p alloc dst)
      (allocate q alloc' dst) := by
  apply (halloc p q h).bind
  rintro ⟨t, heap⟩ ⟨t', heap'⟩ ⟨hzero, ht, hheap⟩
  dsimp only at hzero ht hheap ⊢
  by_cases h0 : t = 0
  · have h0' : t' = 0 := hzero.mpr h0
    simp only [ne_eq, h0, h0', not_true_eq_false, if_false]
    apply (hgc _ _ (h.setHeap hheap)).bind
    intro p₁ q₁ h₁
    apply (halloc p₁ q₁ h₁).bind
    rintro ⟨t₁, heap₁⟩ ⟨t₁', heap₁'⟩ ⟨hzero₁, ht₁, hheap₁⟩
    dsimp only at hzero₁ ht₁ hheap₁ ⊢
    by_cases h1 : t₁ = 0
    · have h1' : t₁' = 0 := hzero₁.mpr h1
      simp only [h1, h1', not_true_eq_false, if_false]
      exact .ok ⟨rfl, h₁.setHeap hheap₁⟩
    · have h1' : t₁' ≠ 0 := fun he => h1 (hzero₁.mp he)
      simp only [h1, h1', not_false_eq_true, if_true]
      exact .ok ⟨rfl, (h₁.setHeap hheap₁).setReg dst ht₁⟩
  · have h0' : t' ≠ 0 := fun he => h0 (hzero.mp he)
    simp only [ne_eq, h0, h0', not_false_eq_true, if_true]
    exact .ok ⟨rfl, (h.setHeap hheap).setReg dst ht⟩

theorem gcRegs_rest {p p' : Process} (h : gcRegs p = .ok p') :
    p' = { p with heap := p'.heap, regs := p'.regs } := by
  obtain ⟨⟨roots, heap⟩, -, h⟩ := bind_eq_ok.mp h
  cases h
  rfl

/-- An allocation changes the heap and the registers only. -/
theorem allocate_rest {rc : Status} {p' : Process} (h : allocate p alloc dst = .ok (rc, p')) :
    p' = { p with heap := p'.heap, regs := p'.regs } := by
  obtain ⟨⟨t, heap⟩, -, h⟩ := bind_eq_ok.mp h
  dsimp only at h
  split at h
  · cases h
    rfl
  · obtain ⟨q, hq, h⟩ := bind_eq_ok.mp h
    obtain ⟨⟨t', heap'⟩, -, h⟩ := bind_eq_ok.mp h
    have hrest := gcRegs_rest hq
    dsimp only at h
    split at h
    · cases h
      rw [hrest]
      rfl
    · cases h
      rw [hrest]
      rfl

theorem allocate_control {rc : Status} {p' : Process} (h : allocate p alloc dst = .ok (rc, p')) :
    SameControl p p' := by
  rw [allocate_rest h]
  exact ⟨rfl, rfl, rfl⟩

end Allocate

/-! ### Matching machines -/

/-- Machines that differ in the running process only. -/
structure Machine.Matched (R : Term → Term → Prop) (H : Heap → Heap → Prop) (m m' : Machine) :
    Prop where
  same : m' = m.setProc m'.proc
  proc : m.proc.Matched R H m'.proc
  control : m.ctx.scheduled → SameControl m.proc m'.proc

section Machine

variable {R : Term → Term → Prop} {H : Heap → Heap → Prop} {m m' : Machine} {p q : Process}

theorem Machine.Matched.intro (h : p.Matched R H q)
    (hc : m.ctx.scheduled → SameControl p q) : (m.setProc p).Matched R H (m.setProc q) :=
  ⟨by simp, by simpa using h, fun hs => by simpa using hc (by simpa using hs)⟩

theorem Machine.Matched.emit (h : m.Matched R H m') (events : List Event) :
    (m.emit events).Matched R H (m'.emit events) := by
  refine ⟨?_, h.proc, h.control⟩
  rw [Machine.proc_emit, Machine.emit_setProc, ← h.same]

theorem Machine.Matched.scheduled (h : m.Matched R H m') :
    m'.ctx.scheduled = m.ctx.scheduled := by
  rw [h.same, Machine.scheduled_setProc]

theorem Machine.Matched.trace (h : m.Matched R H m') : m'.trace = m.trace := by
  rw [h.same, Machine.trace_setProc]

/-- The status of a step with matching machines after it. -/
def Steps (R : Term → Term → Prop) (H : Heap → Heap → Prop) (a b : Status × Machine) : Prop :=
  b.1 = a.1 ∧ a.2.Matched R H b.2

/-- The effect on the running process decides the effect on the machine. -/
theorem execInstr_of_run (hal : Hal) (preOpPc : ℕ) {i : Instr} (hi : ¬ i.IsSend)
    {R' : Term → Term → Prop} {H' : Heap → Heap → Prop} (h : m.Matched R' H' m')
    (hrun : Results (Alike R H (SameControl m.proc m'.proc))
      (i.run hal m.ctx.scheduled preOpPc m.proc m.trace)
      (i.run hal m.ctx.scheduled preOpPc m'.proc m.trace)) :
    Results (Steps R H) (execInstr hal preOpPc m i) (execInstr hal preOpPc m' i) := by
  rw [execInstr_run hal preOpPc hi, execInstr_run hal preOpPc hi, h.scheduled, h.trace]
  apply hrun.bind
  rintro ⟨rc, p, events⟩ ⟨rc', q, events'⟩ ⟨hrc, hproc, hcontrol, hevents⟩
  dsimp only at hrc hproc hcontrol hevents
  subst hrc hevents
  refine .ok ⟨rfl, ?_⟩
  have hmatched : m.setProc (if rc' = .ok then p else p.fail rc') |>.Matched R H
      (m.setProc (if rc' = .ok then q else q.fail rc')) := by
    split
    · exact .intro hproc fun hs => hcontrol (h.control hs)
    · exact .intro (hproc.fail rc') fun hs => (hcontrol (h.control hs)).fail rc'
  have hset : ∀ r : Process, m'.setProc r = m.setProc r := fun r => by
    rw [h.same, Machine.setProc_setProc]
  rw [hset]
  exact hmatched.emit events'

/-! ### Sends -/

theorem Scheduler.setProc_comm (s : Scheduler) {i j : Slot} (hne : i ≠ j) (p q : Process) :
    (s.setProc i p).setProc j q = (s.setProc j q).setProc i p := by
  have hv : (i : ℕ) ≠ j := fun he => hne (Fin.ext he)
  simp only [Scheduler.setProc, Vector.set_comm p q hv]

/-- The answer of a `SEND` in matching tables. -/
theorem answer_matched {s : Scheduler} {self : Slot} (t : Trace) (hR : Immediates R)
    (hp : (s.proc self).Matched R H q) (hc : SameControl (s.proc self) q) (rPid : Reg)
    (rc : Status) : Machine.Matched R H ⟨.sched (answer s self rPid rc) self, t⟩
      ⟨.sched (answer (s.setProc self q) self rPid rc) self, t⟩ := by
  have hset := Machine.Matched.intro (m := ⟨.sched s self, t⟩)
    (hp.setReg rPid (hR.smallint rc.code)) fun _ => hc.setReg rPid _ _
  simpa [answer, Machine.setProc, Context.setProc] using hset

theorem deliver_matched {s : Scheduler} {self : Slot} (hp : (s.proc self).Matched R H q)
    (hc : SameControl (s.proc self) q) (target : Slot) (cmd : Command) :
    Results (fun a b => b.1 = a.1 ∧ ∃ q', b.2 = a.2.setProc self q' ∧
      (a.2.proc self).Matched R H q' ∧ SameControl (a.2.proc self) q')
      (deliver s target cmd) (deliver (s.setProc self q) target cmd) := by
  by_cases hself : target = self
  · subst hself
    have hpush : mbMailboxPushRaw q.mailbox cmd = mbMailboxPushRaw (s.proc target).mailbox cmd := by
      rw [hp.mailbox]
    simp only [deliver, Scheduler.proc_setProc_self, mbVmMailboxPushProc, hpush, bind_assoc]
    apply (Results.refl (R := Eq) (fun _ => rfl)
      (mbMailboxPushRaw (s.proc target).mailbox cmd)).bind
    rintro ⟨rc, mb⟩ _ rfl
    have hmb : ({ s.proc target with mailbox := mb } : Process).Matched R H
      { q with mailbox := mb } := hp.setMailbox mb
    simp only [pure_ok, ok_bind, Scheduler.setProc_setProc, hc.state]
    refine .ok ⟨rfl, _, (Scheduler.setProc_setProc ..).symm, ?_, ?_⟩
    · rw [Scheduler.proc_setProc_self]
      split
      · exact hmb.congr ..
      · exact hmb.congr ..
    · rw [Scheduler.proc_setProc_self]
      split
      · exact ⟨rfl, hc.sleepUntilMs, hc.reductions⟩
      · exact ⟨rfl, hc.sleepUntilMs, hc.reductions⟩
  · simp only [deliver, Scheduler.proc_setProc_ne _ _ hself]
    apply (Results.refl (R := Eq) (fun _ => rfl) (mbVmMailboxPushProc (s.proc target) cmd)).bind
    rintro ⟨rc, p'⟩ _ rfl
    refine .ok ⟨rfl, q, Scheduler.setProc_comm _ (Ne.symm hself) _ _, ?_, ?_⟩
    · rw [Scheduler.proc_setProc_ne _ _ (Ne.symm hself)]
      exact hp
    · rw [Scheduler.proc_setProc_ne _ _ (Ne.symm hself)]
      exact hc

theorem send_matched (hal : Hal) (preOpPc : ℕ) (hR : Immediates R) (h : m.Matched R H m')
    {rPid rType rA rB rC rD : Reg}
    (hi : (Instr.send rPid rType rA rB rC rD).SameInts m.proc m'.proc) :
    Results (Steps R H) (execInstr hal preOpPc m (.send rPid rType rA rB rC rD))
      (execInstr hal preOpPc m' (.send rPid rType rA rB rC rD)) := by
  have hints : ∀ r ∈ [rPid, rType, rA, rB, rC, rD], m'.proc.int r = m.proc.int r := hi.ints
  rcases m with ⟨p | ⟨s, self⟩, t⟩
  · have hm' : m' = ⟨.compat m'.proc, t⟩ := h.same
    have hp : p.Matched R H m'.proc := h.proc
    rw [hm']
    exact .ok ⟨rfl, .intro (m := ⟨.compat p, t⟩) (hp.setReg rPid (hR.smallint _)) nofun⟩
  · have hm' : m' = ⟨.sched (s.setProc self m'.proc) self, t⟩ := h.same
    have hp : (s.proc self).Matched R H m'.proc := h.proc
    have hc : SameControl (s.proc self) m'.proc := h.control rfl
    replace hints : ∀ r ∈ [rPid, rType, rA, rB, rC, rD],
      m'.proc.int r = (s.proc self).int r := hints
    generalize m'.proc = q at hm' hp hc hints
    subst hm'
    have hcmd : q.command rType rA rB rC rD = (s.proc self).command rType rA rB rC rD := by
      simp only [Process.command, hints rType (by simp), hints rA (by simp), hints rB (by simp),
        hints rC (by simp), hints rD (by simp)]
    have hstates : ∀ i, ((s.setProc self q).proc i).state = .free ↔ (s.proc i).state = .free := by
      intro i
      rw [Scheduler.proc_setProc]
      split
      · rename_i hi
        rw [hi, hc.state]
      · rfl
    have hpids : ∀ i, ((s.setProc self q).proc i).pid = (s.proc i).pid := by
      intro i
      rw [Scheduler.proc_setProc]
      split
      · rename_i hi
        rw [hi, hp.pid]
      · rfl
    simp only [execInstr, sendFrom, Scheduler.proc_setProc_self, hints rPid (by simp),
      mbSchedProc_congr hstates, hcmd, hpids, bind_assoc]
    apply (Results.refl (R := Eq) (fun _ => rfl)
      (mbSchedProc s (((s.proc self).int rPid).setWidth 8))).bind
    rintro found _ rfl
    cases found with
    | none => exact .ok ⟨rfl, answer_matched _ hR hp hc rPid _⟩
    | some target =>
        simp only [bind_assoc]
        apply (deliver_matched hp hc target _).bind
        rintro ⟨rc, after⟩ ⟨rc', after'⟩ ⟨hrc, q', hafter, hp', hc'⟩
        dsimp only at hrc hafter hp' hc'
        subst hrc hafter
        exact .ok ⟨rfl, answer_matched _ hR hp' hc' rPid _⟩

/-- An instruction that leaves the heap alone has the same effect on matching machines. -/
theorem execInstr_matched (hal : Hal) (preOpPc : ℕ) (hR : Immediates R) {i : Instr}
    (hheap : ¬ i.OnHeap) (h : m.Matched R H m') (hi : i.SameInts m.proc m'.proc) :
    Results (Steps R H) (execInstr hal preOpPc m i) (execInstr hal preOpPc m' i) := by
  by_cases hs : i.IsSend
  · obtain ⟨rPid, rType, rA, rB, rC, rD, rfl⟩ := hs
    exact send_matched hal preOpPc hR h hi
  · exact execInstr_of_run hal preOpPc hs h
      (Instr.run_matched hR hal _ preOpPc m.trace hheap h.proc hi)

/-- A step of matching machines: both are halted, both fail to decode, or both execute the
same instruction. -/
theorem mbProcStep_matched (hal : Hal) {S : Status × Machine → Status × Machine → Prop}
    (h : m.Matched R H m') (hhalted : S (.ok, m) (.ok, m'))
    (hfail : ∀ e pc, S (e, m.setProc ((m.proc.setPc pc).fail e))
      (e, m'.setProc ((m'.proc.setPc pc).fail e)))
    (hexec : ∀ i pc, m.proc.halted = false → decode m.proc.program m.proc.pc = (.ok i, pc) →
      Results S (execInstr hal m.proc.pc (m.setProc (m.proc.setPc pc)) i)
        (execInstr hal m.proc.pc (m'.setProc (m'.proc.setPc pc)) i)) :
    Results S (mbProcStep hal m) (mbProcStep hal m') := by
  rw [mbProcStep_eq, mbProcStep_eq, h.proc.halted, h.proc.program, h.proc.pc]
  split
  · exact .ok hhalted
  · rename_i hh
    split
    · exact .ok (hfail _ _)
    · rename_i i pc hd
      exact hexec i pc (by simpa using hh) hd

theorem Machine.Matched.update (h : m.Matched R H m') {R' : Term → Term → Prop}
    {H' : Heap → Heap → Prop} {p q : Process} (hpq : p.Matched R' H' q)
    (hc : m.ctx.scheduled → SameControl p q) : (m.setProc p).Matched R' H' (m'.setProc q) := by
  have hset : m'.setProc q = m.setProc q := by rw [h.same, Machine.setProc_setProc]
  rw [hset]
  exact .intro hpq hc

/-- The machines after the fetch of an instruction. -/
theorem Machine.Matched.fetched (h : m.Matched R H m') (pc : ℕ) :
    (m.setProc (m.proc.setPc pc)).Matched R H (m'.setProc (m'.proc.setPc pc)) :=
  h.update (h.proc.setPc pc) fun hs =>
    ⟨(h.control hs).state, (h.control hs).sleepUntilMs, (h.control hs).reductions⟩

theorem Machine.Matched.failed (h : m.Matched R H m') (e : Status) (pc : ℕ) :
    (m.setProc ((m.proc.setPc pc).fail e)).Matched R H
      (m'.setProc ((m'.proc.setPc pc).fail e)) :=
  h.update ((h.proc.setPc pc).fail e) fun hs =>
    ⟨(h.control hs).state, (h.control hs).sleepUntilMs, (h.control hs).reductions⟩

end Machine

/-! ### Equal registers and heaps -/

theorem immediates_eq : Immediates Eq := ⟨fun _ => rfl, fun _ => rfl⟩

section Equal

variable {p q : Process}

theorem Process.Matched.regs_eq {H : Heap → Heap → Prop} (h : p.Matched Eq H q) :
    q.regs = p.regs := by
  apply Vector.ext
  intro i hi
  exact (h.regs ⟨i, hi⟩).symm

theorem Process.Matched.sameInts {H : Heap → Heap → Prop} (h : p.Matched Eq H q) (i : Instr) :
    i.SameInts p q :=
  ⟨fun r _ => congrArg getSmallint (h.regs r).symm, fun r _ => by rw [h.regs r]⟩

theorem gcRegs_matched (h : p.Matched Eq Eq q) :
    Results (Process.Matched Eq Eq) (gcRegs p) (gcRegs q) := by
  simp only [gcRegs, h.regs_eq, ← h.heap]
  apply (Results.refl (R := Eq) (fun _ => rfl) (mbHeapGc p.heap p.regs.toList)).bind
  rintro ⟨roots, heap⟩ _ rfl
  exact .ok ⟨h.pid, h.program, h.pc, h.mailbox, h.halted, h.lastError, fun _ => rfl, rfl⟩

/-- The effect of an allocation by the same function. -/
theorem allocate_same {alloc : Process → Except Fault (Term × Heap)} {dst : Reg}
    (h : p.Matched Eq Eq q) (halloc : ∀ p q, p.Matched Eq Eq q → alloc q = alloc p) :
    Results (Alike Eq Eq (SameControl p q))
      (do let (rc, p) ← allocate p alloc dst; return (rc, p, []))
      (do let (rc, q) ← allocate q alloc dst; return (rc, q, [])) := by
  have hmatched : Results (fun a b => b.1 = a.1 ∧ a.2.Matched Eq Eq b.2)
      (allocate p alloc dst) (allocate q alloc dst) := by
    apply allocate_matched h
    · intro p q hpq
      rw [halloc p q hpq]
      exact Results.refl (fun a => ⟨Iff.rfl, rfl, rfl⟩) _
    · exact fun p q hpq => gcRegs_matched hpq
  cases hp : allocate p alloc dst with
  | error f =>
      rw [hp] at hmatched
      generalize allocate q alloc dst = y at hmatched
      cases hmatched
      exact .error f
  | ok a =>
      obtain ⟨b, hq, hstatus, hproc⟩ := hmatched.right hp
      have hcp := allocate_control hp
      have hcq := allocate_control hq
      rw [hq]
      refine .ok ⟨hstatus, hproc, fun hc => ⟨?_, ?_, ?_⟩, rfl⟩
      · exact hcq.state.trans (hc.state.trans hcp.state.symm)
      · exact hcq.sleepUntilMs.trans (hc.sleepUntilMs.trans hcp.sleepUntilMs.symm)
      · exact hcq.reductions.trans (hc.reductions.trans hcp.reductions.symm)

theorem Instr.run_same (hal : Hal) (scheduled : Bool) (preOpPc : ℕ) (t : Trace) (i : Instr)
    (h : p.Matched Eq Eq q) : Results (Alike Eq Eq (SameControl p q))
      (i.run hal scheduled preOpPc p t) (i.run hal scheduled preOpPc q t) := by
  have hreg : ∀ r, q.reg r = p.reg r := fun r => (h.regs r).symm
  by_cases hheap : i.OnHeap
  · cases i with
    | makeTuple dst elems =>
        have hold : elems.map q.reg = elems.map p.reg := List.map_congr_left fun r _ => hreg r
        simp only [Instr.run, hold]
        exact allocate_same h fun p q hpq => by rw [hpq.heap]
    | cons dst hd tl =>
        exact allocate_same h fun p q hpq => by
          simp only [← hpq.heap, ← hpq.regs hd, ← hpq.regs tl]
    | tupleElem dst tuple index =>
        simp only [Instr.run, hreg, ← h.heap]
        split
        · apply (Results.refl (R := Eq) (fun _ => rfl) _).bind
          rintro hdr _ rfl
          split
          · exact .ok ⟨rfl, h, id, rfl⟩
          · split
            · apply (Results.refl (R := Eq) (fun _ => rfl) _).bind
              rintro e _ rfl
              exact .ok ⟨rfl, h.setReg dst rfl, fun hc => hc.setReg .., rfl⟩
            · exact .ok ⟨rfl, h, id, rfl⟩
        · exact .ok ⟨rfl, h, id, rfl⟩
    | head dst cell | tail dst cell =>
        simp only [Instr.run, hreg, ← h.heap]
        split
        · apply (Results.refl (R := Eq) (fun _ => rfl) _).bind
          rintro w _ rfl
          exact .ok ⟨rfl, h.setReg dst rfl, fun hc => hc.setReg .., rfl⟩
        · exact .ok ⟨rfl, h, id, rfl⟩
    | _ => exact hheap.elim
  · exact Instr.run_matched immediates_eq hal scheduled preOpPc t hheap h (h.sameInts i)

/-- Scheduling data has no influence on what a step does to the rest of a process. -/
theorem mbProcStep_same (hal : Hal) {m m' : Machine} (h : m.Matched Eq Eq m') :
    Results (Steps Eq Eq) (mbProcStep hal m) (mbProcStep hal m') := by
  apply mbProcStep_matched hal h ⟨rfl, h⟩
  · exact fun e pc => ⟨rfl, h.failed e pc⟩
  · intro i pc _ _
    have hf := h.fetched pc
    by_cases hs : i.IsSend
    · have hheap : ¬ i.OnHeap := by
        obtain ⟨_, _, _, _, _, _, rfl⟩ := hs
        exact id
      exact execInstr_matched hal _ immediates_eq hheap hf (hf.proc.sameInts i)
    · exact execInstr_of_run hal _ hs hf (Instr.run_same hal _ _ _ i hf.proc)

end Equal

end MiniBeam
