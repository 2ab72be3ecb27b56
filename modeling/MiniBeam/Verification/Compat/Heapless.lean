import MiniBeam.Verification.Compat.Steps
import MiniBeam.Verification.Process.Safety

/-! The layer against the interpreter: `mb_vm_step` on a VM and `mb_proc_step` on a process of
its own. They part at the first allocation, because the layer has no heap. -/

namespace MiniBeam

open Lockstep (Results)

/-! ### Two runs -/

/-- Pushes before the first step of a VM. -/
def vmPushAll (vm : VmState) : List Command → Except Fault VmState
  | [] => .ok vm
  | cmd :: cmds => do vmPushAll (← mbVmMailboxPush vm cmd).2 cmds

/-- Pushes before the first step of a process. -/
def procPushAll (p : Process) : List Command → Except Fault Process
  | [] => .ok p
  | cmd :: cmds => do procPushAll (← mbVmMailboxPushProc p cmd).2 cmds

/-- Consecutive calls of `mb_proc_step` with a null scheduler: the status of the last, with the
machine behind it. -/
def procSteps (hal : Hal) (p : Process) (k : ℕ) : Except Fault (Status × Machine) :=
  Lockstep.iterate (fun s => mbProcStep hal s.2) k (.ok, ⟨.compat p, []⟩)

/-- The same status, the same VM and the same events. -/
structure SameVm (s : Status × VmState × Trace) (s' : Status × Machine) : Prop where
  status : s'.1 = s.1
  pc : s'.2.proc.pc = s.2.1.pc
  regs : s'.2.proc.regs = s.2.1.regs
  mailbox : s'.2.proc.mailbox = s.2.1.mailbox
  halted : s'.2.proc.halted = s.2.1.halted
  lastError : s'.2.proc.lastError = s.2.1.lastError
  trace : s'.2.trace = s.2.2

/-- After `k` calls the next executes an allocation. -/
def AllocatesAt (hal : Hal) (p : Process) (k : ℕ) : Prop :=
  ∃ rc m i pc, procSteps hal p k = .ok (rc, m) ∧ m.proc.halted = false ∧
    decode m.proc.program m.proc.pc = (.ok i, pc) ∧ i.Allocates

/-! ### Without pointers -/

/-- The same word, and no pointer. -/
def SameData (a b : Term) : Prop := a = b ∧ (a = 0 ∨ isImmediate a = true)

theorem immediates_data : Immediates SameData :=
  ⟨fun v => ⟨rfl, .inr (isImmediate_makeSmallint v)⟩, fun b => ⟨rfl, .inr (isImmediate_makePid b)⟩⟩

theorem SameData.not_isBoxed {a b : Term} (h : SameData a b) : isBoxed a = false := by
  rw [Bool.eq_false_iff, ne_eq, isBoxed_iff]
  rcases h.2 with rfl | hi
  · decide
  · rcases isImmediate_iff.mp hi with h | h | h <;> omega

theorem SameData.not_isCons {a b : Term} (h : SameData a b) : isCons a = false := by
  rw [Bool.eq_false_iff, ne_eq, isCons_iff]
  rcases h.2 with rfl | hi
  · decide
  · rcases isImmediate_iff.mp hi with h | h | h <;> omega

/-- A VM without a heap and a process whose heap is untouched, both without pointers. -/
abbrev Detached (p q : Process) : Prop :=
  p.Matched SameData (fun a b => a = Heap.zero ∧ b = mbHeapInit) q

section Detached

variable {p q : Process} (hal : Hal) (t : Trace)

theorem Detached.matched_eq (h : Detached p q) :
    p.Matched Eq (fun a b => a = Heap.zero ∧ b = mbHeapInit) q :=
  h.mono (fun r => (h.regs r).1) h.heap

/-- Instructions that do not allocate have the same effect. -/
theorem Detached.run {scheduled : Bool} {preOpPc : ℕ} {i : Instr} (h : Detached p q)
    (hi : ¬ i.Allocates) :
    Results (Alike SameData (fun a b => a = Heap.zero ∧ b = mbHeapInit) (SameControl p q))
      (i.run hal scheduled preOpPc p t) (i.run hal scheduled preOpPc q t) := by
  by_cases hheap : i.OnHeap
  · cases i with
    | tupleElem dst tuple index =>
        have hp := (h.regs tuple).not_isBoxed
        have hq : isBoxed (q.reg tuple) = false := (h.regs tuple).1 ▸ hp
        simp only [Instr.run, hp, hq, Bool.false_eq_true, if_false]
        exact .ok ⟨rfl, h, id, rfl⟩
    | head dst cell | tail dst cell =>
        have hp := (h.regs cell).not_isCons
        have hq : isCons (q.reg cell) = false := (h.regs cell).1 ▸ hp
        simp only [Instr.run, hp, hq, Bool.false_eq_true, if_false]
        exact .ok ⟨rfl, h, id, rfl⟩
    | makeTuple | cons => exact absurd trivial hi
    | _ => exact hheap.elim
  · exact Instr.run_matched immediates_data hal scheduled preOpPc t hheap h
      (h.matched_eq.sameInts i)

/-- An allocation succeeds in the process. -/
theorem Detached.allocates (scheduled : Bool) (preOpPc : ℕ) {i : Instr} (h : Detached p q)
    (hi : i.Allocates) (harity : i.ArityOk) :
    ∃ q' events, i.run hal scheduled preOpPc q t = .ok (.ok, q', events) := by
  have hq := h.heap.2
  cases i with
  | makeTuple dst elems =>
      have hlen : (elems.map q.reg).length ≤ 16 := by rw [List.length_map]; exact harity
      have hroom : mbHeapInit.hp + (1 + (elems.map q.reg).length) ≤ mbHeapInit.capacity :=
        show 0 + (1 + _) ≤ 128 by omega
      obtain ⟨space, hmake, -⟩ := mbHeapMakeTuple_room rfl hroom
      have hne : makeBoxed mbHeapInit.hp ≠ 0 := by decide
      simp only [Instr.run, allocate, hq, hmake, ok_bind, pure_ok, if_pos hne]
      exact ⟨_, _, rfl⟩
  | cons dst hd tl =>
      have hroom : mbHeapInit.hp + 2 ≤ mbHeapInit.capacity := by decide
      obtain ⟨space, hmake, -⟩ := mbHeapCons_room rfl hroom (q.reg hd) (q.reg tl)
      have hne : makeCons mbHeapInit.hp ≠ 0 := by decide
      simp only [Instr.run, allocate, hq, hmake, ok_bind, pure_ok, if_pos hne]
      exact ⟨_, _, rfl⟩
  | _ => exact hi.elim

/-- An allocation does not succeed in the layer. -/
theorem Instr.run_allocates_zero {scheduled : Bool} {preOpPc : ℕ} {i : Instr} (hi : i.Allocates)
    (hp : p.heap = Heap.zero) {rc : Status} {p' : Process} {events : List Event}
    (hrun : i.run hal scheduled preOpPc p t = .ok (rc, p', events)) : rc = .heapOom := by
  cases i with
  | makeTuple dst elems =>
      obtain ⟨⟨rc', p₁⟩, halloc, hrun⟩ := bind_eq_ok.mp hrun
      cases hrun
      exact allocate_zero hp (fun q hhp hcap => mbHeapMakeTuple_zero hhp hcap _ _) halloc
  | cons dst hd tl =>
      obtain ⟨⟨rc', p₁⟩, halloc, hrun⟩ := bind_eq_ok.mp hrun
      cases hrun
      exact allocate_zero hp (fun q hhp hcap => mbHeapCons_zero hhp hcap _ _) halloc
  | _ => exact hi.elim

end Detached

/-! ### Whole runs -/

/-- Two runs that stand at the same point. -/
structure SameRun (s : Status × VmState × Trace) (s' : Status × Machine) : Prop where
  status : s'.1 = s.1
  machine : s'.2 = ⟨.compat s'.2.proc, s.2.2⟩
  proc : Detached (mbVmToProc s.2.1) s'.2.proc

theorem SameRun.sameVm {s : Status × VmState × Trace} {s' : Status × Machine} (h : SameRun s s') :
    SameVm s s' where
  status := h.status
  pc := h.proc.pc
  regs := h.proc.matched_eq.regs_eq
  mailbox := h.proc.mailbox
  halted := h.proc.halted
  lastError := h.proc.lastError
  trace := congrArg Machine.trace h.machine

section Runs

variable {hal : Hal} {s : Status × VmState × Trace} {s' : Status × Machine}

/-- The machines of the two runs, before the next step. -/
theorem SameRun.matched (h : SameRun s s') :
    Machine.Matched SameData (fun a b => a = Heap.zero ∧ b = mbHeapInit)
      ⟨.compat (mbVmToProc s.2.1), s.2.2⟩ s'.2 :=
  ⟨h.machine, h.proc, nofun⟩

/-- A step that does not allocate keeps the runs together. -/
theorem SameRun.step (h : SameRun s s')
    (hi : s'.2.proc.halted = false → ∀ i pc,
      decode s'.2.proc.program s'.2.proc.pc = (.ok i, pc) → ¬ i.Allocates) :
    Results SameRun (mbVmStep hal s.2.1 s.2.2) (mbProcStep hal s'.2) := by
  have hstep : Results (Steps SameData (fun a b => a = Heap.zero ∧ b = mbHeapInit))
      (mbProcStep hal ⟨.compat (mbVmToProc s.2.1), s.2.2⟩) (mbProcStep hal s'.2) := by
    apply mbProcStep_matched hal h.matched ⟨rfl, h.matched⟩
    · exact fun e pc => ⟨rfl, h.matched.failed e pc⟩
    · intro i pc hh hd
      have hf := h.matched.fetched pc
      have hnot : ¬ i.Allocates := by
        apply hi (h.proc.halted.trans hh) i pc
        rw [h.proc.program, h.proc.pc]
        exact hd
      by_cases hs : i.IsSend
      · have hheap : ¬ i.OnHeap := by
          obtain ⟨_, _, _, _, _, _, rfl⟩ := hs
          exact id
        have hproc : Detached _ _ := hf.proc
        exact execInstr_matched hal _ immediates_data hheap hf (hproc.matched_eq.sameInts i)
      · exact execInstr_of_run hal _ hs hf (Detached.run hal _ hf.proc hnot)
  rw [mbVmStep]
  cases hp : mbProcStep hal ⟨.compat (mbVmToProc s.2.1), s.2.2⟩ with
  | error f =>
      rw [hp] at hstep
      generalize mbProcStep hal s'.2 = y at hstep
      cases hstep
      exact .error f
  | ok a =>
      obtain ⟨⟨rc', mq⟩, hq, hrc, hm⟩ := hstep.right hp
      obtain ⟨rc, mp⟩ := a
      obtain ⟨p, events, rfl, hlocal⟩ := mbProcStep_compat hp
      have hproc : Detached p mq.proc := hm.proc
      rw [hq]
      refine .ok ⟨hrc, hm.same, ?_⟩
      exact ⟨hproc.pid.trans hlocal.pid, hproc.program.trans hlocal.program, hproc.pc,
        hproc.mailbox, hproc.halted, hproc.lastError, hproc.regs, rfl, hproc.heap.2⟩

/-- A step that allocates parts the runs for good: the process goes on, the VM does not. -/
theorem SameRun.parts (h : SameRun s s') {i : Instr} {pc : ℕ} (hh : s'.2.proc.halted = false)
    (hd : decode s'.2.proc.program s'.2.proc.pc = (.ok i, pc)) (hi : i.Allocates) :
    ¬ Results (fun a b => b.1 = a.1) (mbVmStep hal s.2.1 s.2.2) (mbProcStep hal s'.2) := by
  intro hsame
  have hf := h.matched.fetched pc
  have hs : ¬ i.IsSend := by
    rintro ⟨_, _, _, _, _, _, rfl⟩
    exact hi
  obtain ⟨q, events, hq⟩ := Detached.allocates hal s'.2.trace s'.2.ctx.scheduled s'.2.proc.pc
    hf.proc hi (decode_arityOk hd)
  rw [Machine.proc_setProc] at hq
  have hproc : mbProcStep hal s'.2 = .ok (.ok, (s'.2.setProc q).emit events) := by
    rw [mbProcStep_exec hal hh hd, execInstr_run hal _ hs]
    simp only [Machine.scheduled_setProc, Machine.trace_setProc, Machine.proc_setProc, hq, ok_bind,
      pure_ok, if_true, Machine.setProc_setProc]
  obtain ⟨a, ha, hstatus⟩ := hsame.left hproc
  obtain ⟨⟨rc, m⟩, hstep, hend⟩ := bind_eq_ok.mp ha
  cases hend
  obtain rfl : Status.ok = rc := hstatus
  rw [mbProcStep_exec (m := ⟨.compat (mbVmToProc s.2.1), s.2.2⟩) hal
    (h.proc.halted.symm.trans hh) (by rw [← hd, h.proc.program, h.proc.pc]; rfl)] at hstep
  obtain ⟨p, events', hrun, -⟩ := execInstr_ok hal _ hs hstep
  cases Instr.run_allocates_zero hal _ hi rfl hrun

/-- The runs stay together as long as nothing is allocated. -/
theorem sameRun_of_not_allocatesAt {vm : VmState} {p : Process} {n : ℕ}
    (hstart : SameRun (.ok, vm, []) (.ok, ⟨.compat p, []⟩))
    (h : ∀ j < n, ¬ AllocatesAt hal p j) :
    ∀ k ≤ n, Results SameRun (vmSteps hal vm [] k) (procSteps hal p k) := by
  apply Lockstep.iterate_results hstart
  intro k hk s s' _ hs' hsame
  exact hsame.step fun hh i pc hd hi => h k hk ⟨s'.1, s'.2, i, pc, hs', hh, hd, hi⟩

theorem sameVm_iff (hal : Hal) {vm : VmState} {p : Process}
    (hstart : SameRun (.ok, vm, []) (.ok, ⟨.compat p, []⟩)) (n : ℕ) :
    (∀ k ≤ n, Results SameVm (vmSteps hal vm [] k) (procSteps hal p k)) ↔
      ∀ j < n, ¬ AllocatesAt hal p j := by
  constructor
  · intro hall j
    induction j using Nat.strong_induction_on with
    | _ j ih =>
        rintro hj ⟨rc, m, i, pc, hm, hh, hd, hi⟩
        have hbefore :=
          sameRun_of_not_allocatesAt hstart (fun l hl => ih l hl (hl.trans hj)) j le_rfl
        obtain ⟨s, hs, hsame⟩ := hbefore.left hm
        have hnext := hall (j + 1) hj
        rw [vmSteps_succ, hs] at hnext
        have hproc : procSteps hal p (j + 1) = mbProcStep hal m := by
          rw [procSteps, Lockstep.iterate, ← procSteps, hm]
          rfl
        rw [hproc] at hnext
        exact hsame.parts hh hd hi (hnext.mono fun _ _ h => h.status)
  · intro hnone k hk
    exact (sameRun_of_not_allocatesAt hstart hnone k hk).mono fun _ _ h => h.sameVm

end Runs

/-! ### Commands pushed beforehand -/

/-- Pushes from the start never fail, and fill both mailboxes alike. -/
theorem pushAll_start (vm : VmState) {p : Process} (cmds : List Command) {q : Inbox}
    (hq : vm.mailbox.Holds q) (hp : p = (mbProcInit 0 vm.program).setMailbox vm.mailbox)
    (hvm : vm = { mbVmInit vm.program with mailbox := vm.mailbox }) :
    ∃ vm' p', vmPushAll vm cmds = .ok vm' ∧ procPushAll p cmds = .ok p' ∧
      p' = (mbProcInit 0 vm.program).setMailbox vm'.mailbox ∧
      vm' = { mbVmInit vm.program with mailbox := vm'.mailbox } := by
  induction cmds generalizing vm p q with
  | nil => exact ⟨vm, p, rfl, rfl, hp, hvm⟩
  | cons cmd cmds ih =>
      obtain ⟨mb, hpush, hholds, -⟩ := Mailbox.push_refines hq cmd
      subst hp
      have hvm₁ : ({ vm with mailbox := mb } : VmState) =
          { mbVmInit vm.program with mailbox := mb } := by rw [hvm]; rfl
      obtain ⟨vm', p', hvms, hps, hp', hvm'⟩ := @ih { vm with mailbox := mb } _ _ hholds rfl hvm₁
      refine ⟨vm', p', ?_, ?_, hp', hvm'⟩
      · rw [vmPushAll, mbVmMailboxPush, hpush]
        exact hvms
      · rw [procPushAll, mbVmMailboxPushProc, show ((mbProcInit 0 vm.program).setMailbox
          vm.mailbox).mailbox = vm.mailbox from rfl, hpush]
        exact hps

/-- The two runs start at the same point. -/
theorem sameRun_start (program : List Byte) (mb : Mailbox) :
    SameRun (.ok, { mbVmInit program with mailbox := mb }, [])
      (.ok, ⟨.compat ((mbProcInit 0 program).setMailbox mb), []⟩) := by
  have hzero : ∀ r, SameData ((mbProcInit 0 program).reg r) ((mbProcInit 0 program).reg r) :=
    fun r => ⟨rfl, .inl (by simp [mbProcInit, Process.zero, Process.reg])⟩
  exact ⟨rfl, rfl, rfl, rfl, rfl, rfl, rfl, rfl, hzero, rfl, rfl⟩

/-- Exactly when the layer agrees with the interpreter, on a process of the pid `MB_PID_NONE`
that the layer itself uses, for any commands pushed beforehand and any number of steps: no step
before executes an allocation. -/
theorem compat_agrees_iff (hal : Hal) (program : List Byte) (cmds : List Command) :
    ∃ vm p, vmPushAll (mbVmInit program) cmds = .ok vm ∧
      procPushAll (mbProcInit 0 program) cmds = .ok p ∧
      ∀ n, (∀ k ≤ n, Results SameVm (vmSteps hal vm [] k) (procSteps hal p k)) ↔
        ∀ j < n, ¬ AllocatesAt hal p j := by
  obtain ⟨vm, p, hvm, hp, rfl, hvm'⟩ := pushAll_start (mbVmInit program) cmds
    Mailbox.zero_holds rfl rfl
  have hstart := sameRun_start program vm.mailbox
  replace hvm' : vm = { mbVmInit program with mailbox := vm.mailbox } := hvm'
  rw [← hvm'] at hstart
  exact ⟨vm, _, hvm, hp, sameVm_iff hal hstart⟩

/-- `RECV_CMD` and `CALL_BIF PWM_SET_DUTY` on a duty of 500 agree, status by status. -/
theorem compat_agrees_iff_duty : ∃ vm p,
    vmPushAll (mbVmInit [0x20, 0, 1, 2, 3, 4, 0x10, 2, 2, 1, 2, 5]) [⟨2, 0, 500, 0, 0⟩] = .ok vm ∧
    procPushAll (mbProcInit 0 [0x20, 0, 1, 2, 3, 4, 0x10, 2, 2, 1, 2, 5]) [⟨2, 0, 500, 0, 0⟩] =
      .ok p ∧
    (procSteps idleHal p 2).map (fun s => s.2.trace) =
      .ok [.pop 0 ⟨2, 0, 500, 0, 0⟩, .hal 0 (.pwmSetDuty 0 500) ⟨0, 0, 0⟩] ∧
    ∀ k ≤ 2, Results SameVm (vmSteps idleHal vm [] k) (procSteps idleHal p k) := by
  obtain ⟨vm, p, hvm, hp, hiff⟩ := compat_agrees_iff idleHal
    [0x20, 0, 1, 2, 3, 4, 0x10, 2, 2, 1, 2, 5] [⟨2, 0, 500, 0, 0⟩]
  have hrun : (procPushAll (mbProcInit 0 [0x20, 0, 1, 2, 3, 4, 0x10, 2, 2, 1, 2, 5])
      [⟨2, 0, 500, 0, 0⟩] >>= fun p => (procSteps idleHal p 1 >>= fun s =>
        (procSteps idleHal p 2).map fun s' => decide (
          decode p.program p.pc = (.ok (.recvCmd 0 1 2 3 4), 6) ∧
          decode s.2.proc.program s.2.proc.pc = (.ok (.callBif 2 [1, 2] 5), 12) ∧
          s'.2.trace =
            [.pop 0 ⟨2, 0, 500, 0, 0⟩, .hal 0 (.pwmSetDuty 0 500) ⟨0, 0, 0⟩]))) = .ok true := by
    decide +kernel
  rw [hp, ok_bind] at hrun
  obtain ⟨⟨rc, m⟩, hfirst, hrun⟩ := bind_eq_ok.mp hrun
  obtain ⟨⟨rc', m'⟩, hsecond, hend⟩ := exists_ok_of_map _ _ _ hrun
  obtain ⟨hrecv, hcall, htrace⟩ := of_decide_eq_true hend
  refine ⟨vm, p, hvm, hp, by rw [hsecond, ← htrace]; rfl, (hiff 2).mpr ?_⟩
  rintro j hj ⟨rc₁, m₁, i, pc, hm, -, hd, hi⟩
  rcases j with _ | _ | j
  · cases hm
    have hd' : decode p.program p.pc = (.ok i, pc) := hd
    rw [hrecv] at hd'
    cases hd'
    exact hi
  · rw [hfirst] at hm
    cases hm
    rw [hcall] at hd
    cases hd
    exact hi
  · omega

/-- `CONS R0, R0, R0` is out of memory in the layer and succeeds in a process. -/
theorem cons_not_compat : ¬ ∀ k ≤ 1, Results SameVm
    (vmSteps (fun _ _ => ⟨0, 0, 0⟩) (mbVmInit [0x52, 0, 0, 0]) [] k)
    (procSteps (fun _ _ => ⟨0, 0, 0⟩) (mbProcInit 0 [0x52, 0, 0, 0]) k) := by
  have hd : decode [0x52, 0, 0, 0] 0 = (.ok (.cons 0 0 0), 4) := rfl
  have hstart : SameRun (.ok, mbVmInit [0x52, 0, 0, 0], [])
      (.ok, ⟨.compat (mbProcInit 0 [0x52, 0, 0, 0]), []⟩) := sameRun_start _ Mailbox.zero
  intro hall
  exact (sameVm_iff _ hstart 1).mp hall 0 Nat.one_pos ⟨_, _, _, _, rfl, rfl, hd, trivial⟩

end MiniBeam
