import MiniBeam.Verification.Compat.Heapless

/-! The layer against processes of any pid. Only `SELF` reads the pid, and only the owner
recorded with an event tells two such runs apart. -/

namespace MiniBeam

open Lockstep (Results)

/-- An event without the process it belongs to. -/
def Event.unowned : Event → Event
  | .hal _ call reply => .hal 0 call reply
  | .push _ cmd rc => .push 0 cmd rc
  | .pop _ cmd => .pop 0 cmd

/-- The hardware is not told which process calls it. -/
def Hal.Ownerless (hal : Hal) : Prop :=
  ∀ t call, hal (t.map Event.unowned) call = hal t call

namespace Process

def withPid (p : Process) (pid : Byte) : Process := { p with pid := pid }

variable (p : Process) (pid : Byte)

@[simp] theorem withPid_pc : (p.withPid pid).pc = p.pc := rfl

@[simp] theorem withPid_program : (p.withPid pid).program = p.program := rfl

@[simp] theorem withPid_halted : (p.withPid pid).halted = p.halted := rfl

@[simp] theorem withPid_reg : (p.withPid pid).reg = p.reg := rfl

@[simp] theorem withPid_int : (p.withPid pid).int = p.int := rfl

@[simp] theorem withPid_heap : (p.withPid pid).heap = p.heap := rfl

@[simp] theorem withPid_setPc (pc : ℕ) :
    (p.withPid pid).setPc pc = (p.setPc pc).withPid pid := rfl

@[simp] theorem withPid_setHeap (heap : Heap) :
    (p.withPid pid).setHeap heap = (p.setHeap heap).withPid pid := rfl

end Process

/-- The same outcome for a process of another pid. -/
structure OwnedOutcome (pid : Byte) (a b : Outcome) : Prop where
  status : b.1 = a.1
  proc : b.2.1 = a.2.1.withPid pid
  events : b.2.2.map Event.unowned = a.2.2.map Event.unowned

/-- The same status and machine for a process of another pid. -/
inductive SameOwned (pid : Byte) : Status × Machine → Status × Machine → Prop
  | intro (rc : Status) (p : Process) {t t' : Trace}
      (trace : t'.map Event.unowned = t.map Event.unowned) :
      SameOwned pid (rc, ⟨.compat p, t⟩) (rc, ⟨.compat (p.withPid pid), t'⟩)

theorem makePid_injective : Function.Injective makePid := by
  have hleft : ∀ a : Byte, (makePid a >>> 4).setWidth 8 = a := by decide +kernel
  intro a b h
  rw [← hleft a, h, hleft]

section Step

variable {hal : Hal} {pid : Byte} {p : Process} {t t' : Trace}

theorem jumpTo_withPid (p : Process) (pid : Byte) (offset : I32) :
    jumpTo (p.withPid pid) offset = ((jumpTo p offset).1, (jumpTo p offset).2.withPid pid) := by
  by_cases hneg : offset.toInt < 0 ∧ sizeOfI32 (-offset) > p.pc
  · simp [jumpTo, hneg]
  · simp [jumpTo, hneg]

theorem gcRegs_withPid (p : Process) (pid : Byte) :
    gcRegs (p.withPid pid) = (gcRegs p).map (Process.withPid · pid) := by
  show (mbHeapGc p.heap p.regs.toList >>= _) = (mbHeapGc p.heap p.regs.toList >>= _).map _
  cases mbHeapGc p.heap p.regs.toList <;> rfl

theorem allocate_withPid (p : Process) (pid : Byte)
    {alloc : Process → Except Fault (Term × Heap)} (halloc : ∀ q, alloc (q.withPid pid) = alloc q)
    (dst : Reg) :
    allocate (p.withPid pid) alloc dst =
      (allocate p alloc dst).map fun r => (r.1, r.2.withPid pid) := by
  rw [allocate, allocate, halloc]
  cases alloc p with
  | error e => rfl
  | ok made =>
      obtain ⟨w, heap⟩ := made
      simp only [ok_bind]
      split
      · rfl
      · rw [Process.withPid_setHeap, gcRegs_withPid]
        cases gcRegs (p.setHeap heap) with
        | error e => rfl
        | ok q =>
            simp only [Except.map, ok_bind, halloc]
            cases alloc q with
            | error e => rfl
            | ok made =>
                simp only [ok_bind]
                split <;> rfl

/-- An instruction other than `SELF` does not see the pid. -/
theorem Instr.run_withPid (hhal : hal.Ownerless)
    {i : Instr} (hi : ∀ dst, i ≠ .self dst) (preOpPc : ℕ)
    (ht : t'.map Event.unowned = t.map Event.unowned) :
    Results (OwnedOutcome pid) (i.run hal false preOpPc p t)
      (i.run hal false preOpPc (p.withPid pid) t') := by
  have hreply : ∀ call, hal t' call = hal t call := by
    intro call
    rw [← hhal t', ht, hhal]
  cases i with
  | self dst => exact absurd rfl (hi dst)
  | callBif bifId args dst =>
      simp only [Instr.run]
      split
      · rw [Process.withPid_int]
        rcases bifRequest bifId (args.map p.int) with e | ⟨call, load⟩
        · exact .ok ⟨rfl, rfl, rfl⟩
        · dsimp only
          rw [hreply]
          exact .ok ⟨rfl, rfl, rfl⟩
      · exact .ok ⟨rfl, rfl, rfl⟩
  | recvCmd rType rA rB rC rD =>
      refine Results.bind_same (mbMailboxPopRaw p.mailbox) fun popped => ?_
      rcases popped with _ | ⟨cmd, mb⟩
      · exact .ok ⟨rfl, rfl, rfl⟩
      · exact .ok ⟨rfl, rfl, rfl⟩
  | sleepMs r =>
      refine .ok ⟨rfl, rfl, ?_⟩
      rw [hreply]
      rfl
  | jmp offset =>
      simp only [Instr.run, jumpTo_withPid]
      exact .ok ⟨rfl, rfl, rfl⟩
  | jmpIfZero r offset =>
      simp only [Instr.run, jumpTo_withPid, Process.withPid_reg]
      split <;> exact .ok ⟨rfl, rfl, rfl⟩
  | makeTuple dst elems =>
      simp only [Instr.run, Process.withPid_reg]
      rw [allocate_withPid p pid (fun _ => rfl)]
      cases allocate p _ dst with
      | error e => exact .error e
      | ok r => exact .ok ⟨rfl, rfl, rfl⟩
  | cons dst hd tl =>
      simp only [Instr.run]
      rw [allocate_withPid p pid (fun _ => rfl)]
      cases allocate p _ dst with
      | error e => exact .error e
      | ok r => exact .ok ⟨rfl, rfl, rfl⟩
  | tupleElem dst tuple index =>
      refine .ite (.bind_same (readWord p.heap.fromSpace _) fun hdr => ?_) (.ok ⟨rfl, rfl, rfl⟩)
      refine .ite (.ok ⟨rfl, rfl, rfl⟩) (.ite ?_ (.ok ⟨rfl, rfl, rfl⟩))
      exact .bind_same (readWord p.heap.fromSpace _) fun e => .ok ⟨rfl, rfl, rfl⟩
  | head dst cell | tail dst cell =>
      refine .ite ?_ (.ok ⟨rfl, rfl, rfl⟩)
      exact .bind_same (readWord p.heap.fromSpace _) fun w => .ok ⟨rfl, rfl, rfl⟩
  | _ => exact .ok ⟨rfl, rfl, rfl⟩

/-- Neither does a step that does not execute a `SELF`. -/
theorem mbProcStep_withPid (hhal : hal.Ownerless)
    (ht : t'.map Event.unowned = t.map Event.unowned)
    (hself : p.halted = false → ∀ dst pc, decode p.program p.pc ≠ (.ok (.self dst), pc)) :
    Results (SameOwned pid) (mbProcStep hal ⟨.compat p, t⟩)
      (mbProcStep hal ⟨.compat (p.withPid pid), t'⟩) := by
  have hp : (⟨.compat p, t⟩ : Machine).proc = p := rfl
  have hp' : (⟨.compat (p.withPid pid), t'⟩ : Machine).proc = p.withPid pid := rfl
  rw [mbProcStep_eq, mbProcStep_eq, hp, hp', Process.withPid_halted, Process.withPid_program,
    Process.withPid_pc]
  by_cases hh : p.halted
  · rw [if_pos hh, if_pos hh]
    exact .ok (.intro .ok p ht)
  · rw [if_neg hh, if_neg hh]
    replace hself := hself (Bool.eq_false_iff.mpr hh)
    rcases hd : decode p.program p.pc with ⟨e | i, pc⟩
    · exact .ok (.intro e ((p.setPc pc).fail e) ht)
    · have hi : ∀ dst, i ≠ .self dst := by
        rintro dst rfl
        exact hself dst pc hd
      by_cases hs : i.IsSend
      · obtain ⟨rPid, rType, rA, rB, rC, rD, rfl⟩ := hs
        exact .ok (.intro .ok _ ht)
      · dsimp only
        rw [execInstr_run hal _ hs, execInstr_run hal _ hs]
        refine (Instr.run_withPid (p := p.setPc pc) hhal hi p.pc ht).bind ?_
        rintro ⟨rc, q, events⟩ ⟨rc', q', events'⟩ ⟨rfl, hq, hevents⟩
        obtain rfl : q' = q.withPid pid := hq
        have hevents : events'.map Event.unowned = events.map Event.unowned := hevents
        have htrace : (t' ++ events').map Event.unowned = (t ++ events).map Event.unowned := by
          rw [List.map_append, List.map_append, ht, hevents]
        by_cases hrc : rc' = .ok
        · subst hrc
          exact .ok (.intro .ok q htrace)
        · simp only [if_neg hrc]
          exact .ok (.intro rc' (q.fail rc') htrace)

end Step

section Runs

variable {hal : Hal} {pid : Byte} {p : Process}

/-- After `k` calls the next executes a `SELF`. -/
def SelfAt (hal : Hal) (p : Process) (k : ℕ) : Prop :=
  ∃ rc m dst pc, procSteps hal p k = .ok (rc, m) ∧ m.proc.halted = false ∧
    decode m.proc.program m.proc.pc = (.ok (.self dst), pc)

theorem procSteps_succ (hal : Hal) (p : Process) (k : ℕ) :
    procSteps hal p (k + 1) = (procSteps hal p k >>= fun s => mbProcStep hal s.2) := rfl

theorem procSteps_compat {rc : Status} {m : Machine} (k : ℕ)
    (h : procSteps hal p k = .ok (rc, m)) : ∃ q t, m = ⟨.compat q, t⟩ ∧ q.pid = p.pid := by
  induction k generalizing rc m with
  | zero =>
      cases h
      exact ⟨p, [], rfl, rfl⟩
  | succ k ih =>
      rw [procSteps_succ] at h
      obtain ⟨⟨rc', m'⟩, hprev, hstep⟩ := bind_eq_ok.mp h
      obtain ⟨q, t, rfl, hpid⟩ := ih hprev
      obtain ⟨q', events, rfl, hlocal⟩ := mbProcStep_compat hstep
      exact ⟨q', _, rfl, hlocal.pid.trans hpid⟩

theorem procSteps_self {k : ℕ} {rc : Status} {q : Process} {t : Trace} {dst : Reg} {pc : ℕ}
    (hm : procSteps hal p k = .ok (rc, ⟨.compat q, t⟩)) (hh : q.halted = false)
    (hd : decode q.program q.pc = (.ok (.self dst), pc)) :
    procSteps hal p (k + 1) =
      .ok (.ok, ⟨.compat ((q.setPc pc).setReg dst (makePid q.pid)), t⟩) := by
  rw [procSteps_succ, hm, ok_bind, mbProcStep_exec (m := ⟨.compat q, t⟩) hal hh hd]
  show Except.ok (Status.ok, (⟨.compat _, t ++ []⟩ : Machine)) = _
  rw [List.append_nil]
  rfl

theorem procSteps_withPid (hhal : hal.Ownerless) {n : ℕ} (h : ∀ j < n, ¬ SelfAt hal p j) :
    ∀ k ≤ n, Results (SameOwned pid) (procSteps hal p k) (procSteps hal (p.withPid pid) k) := by
  apply Lockstep.iterate_results (.intro .ok p rfl)
  rintro k hk _ _ hs - ⟨rc, q, ht⟩
  refine mbProcStep_withPid hhal ht fun hh dst pc hd => ?_
  exact h k hk ⟨rc, _, dst, pc, hs, hh, hd⟩

/-- Runs that stay together up to a step see the same instruction there. -/
theorem AllocatesAt.withPid {k : ℕ}
    (h : Results (SameOwned pid) (procSteps hal p k) (procSteps hal (p.withPid pid) k)) :
    AllocatesAt hal p k ↔ AllocatesAt hal (p.withPid pid) k := by
  constructor
  · rintro ⟨rc, m, i, pc, hm, hh, hd, hi⟩
    obtain ⟨_, hm', hsame⟩ := h.right hm
    cases hsame with
    | intro _ q ht => exact ⟨rc, _, i, pc, hm', hh, hd, hi⟩
  · rintro ⟨rc, m, i, pc, hm, hh, hd, hi⟩
    obtain ⟨_, hm', hsame⟩ := h.left hm
    cases hsame with
    | intro _ q ht => exact ⟨rc, _, i, pc, hm', hh, hd, hi⟩

theorem AllocatesAt.not_self {k : ℕ} (h : AllocatesAt hal p k) : ¬ SelfAt hal p k := by
  rintro ⟨rc, m, dst, pc, hm, -, hd⟩
  obtain ⟨rc', m', i, pc', hm', -, hd', hi⟩ := h
  rw [hm] at hm'
  cases hm'
  rw [hd] at hd'
  cases hd'
  exact hi

/-- The same status and the same VM, and the same events up to the process they belong to. -/
structure SameUnowned (s : Status × VmState × Trace) (s' : Status × Machine) : Prop where
  status : s'.1 = s.1
  pc : s'.2.proc.pc = s.2.1.pc
  regs : s'.2.proc.regs = s.2.1.regs
  mailbox : s'.2.proc.mailbox = s.2.1.mailbox
  halted : s'.2.proc.halted = s.2.1.halted
  lastError : s'.2.proc.lastError = s.2.1.lastError
  trace : s'.2.trace.map Event.unowned = s.2.2.map Event.unowned

theorem SameVm.unowned {s : Status × VmState × Trace} {a b : Status × Machine}
    (h : SameVm s b) (hsame : SameOwned pid a b) : SameUnowned s a := by
  cases hsame with
  | intro rc q ht =>
      exact ⟨h.status, h.pc, h.regs, h.mailbox, h.halted, h.lastError,
        ht.symm.trans (congrArg _ h.trace)⟩

theorem SameOwned.status {a b : Status × Machine} (h : SameOwned pid a b) : b.1 = a.1 := by
  cases h
  rfl

/-- The runs agree with the layer as long as nothing is allocated and no `SELF` executed. -/
theorem sameUnowned_of_not (hhal : hal.Ownerless) {vm : VmState}
    (hstart : SameRun (.ok, vm, []) (.ok, ⟨.compat (p.withPid 0), []⟩)) {n : ℕ}
    (h : ∀ j < n, ¬ AllocatesAt hal p j ∧ ¬ SelfAt hal p j) :
    ∀ k ≤ n, Results SameUnowned (vmSteps hal vm [] k) (procSteps hal p k) := by
  have howned : ∀ k ≤ n, Results (SameOwned 0) (procSteps hal p k)
      (procSteps hal (p.withPid 0) k) := procSteps_withPid hhal fun j hj => (h j hj).2
  have hvm : ∀ k ≤ n, Results SameVm (vmSteps hal vm [] k) (procSteps hal (p.withPid 0) k) := by
    apply (sameVm_iff hal hstart n).mpr
    intro j hj halloc
    exact (h j hj).1 ((AllocatesAt.withPid (howned j hj.le)).mpr halloc)
  intro k hk
  exact (hvm k hk).trans (howned k hk).swap fun _ _ _ h h' => h.unowned h'

/-- A `SELF` loads another register than the layer does. -/
theorem SelfAt.parts (hhal : hal.Ownerless) (hpid : p.pid ≠ 0) {vm : VmState} {j : ℕ}
    (hstart : SameRun (.ok, vm, []) (.ok, ⟨.compat (p.withPid 0), []⟩))
    (h : ∀ l < j, ¬ AllocatesAt hal p l ∧ ¬ SelfAt hal p l) (hself : SelfAt hal p j) :
    ¬ Results SameUnowned (vmSteps hal vm [] (j + 1)) (procSteps hal p (j + 1)) := by
  obtain ⟨rc, m, dst, pc, hm, hh, hd⟩ := hself
  have howned : ∀ k ≤ j, Results (SameOwned 0) (procSteps hal p k)
      (procSteps hal (p.withPid 0) k) := procSteps_withPid hhal fun l hl => (h l hl).2
  obtain ⟨q, t, rfl, hq⟩ := procSteps_compat j hm
  obtain ⟨_, hm', hsame⟩ := (howned j le_rfl).right hm
  cases hsame with
  | intro _ _ ht =>
      have hproc := procSteps_self hm hh hd
      have hproc' := procSteps_self hm' hh hd
      have hnow : ¬ AllocatesAt hal p j := fun halloc =>
        halloc.not_self ⟨_, _, dst, pc, hm, hh, hd⟩
      have hnone : ∀ l < j + 1, ¬ AllocatesAt hal (p.withPid 0) l := by
        intro l hl
        rw [← AllocatesAt.withPid (howned l (Nat.le_of_lt_succ hl))]
        exact Nat.forall_lt_succ_right.mpr ⟨fun l hl => (h l hl).1, hnow⟩ l hl
      obtain ⟨s, hs, hlayer⟩ :=
        ((sameVm_iff hal hstart (j + 1)).mpr hnone (j + 1) le_rfl).left hproc'
      intro hall
      have hregs := (hall.of_ok hs hproc).regs.trans hlayer.regs.symm
      have hreg : ((q.setPc pc).setReg dst (makePid q.pid)).reg dst =
          (((q.withPid 0).setPc pc).setReg dst (makePid 0)).reg dst :=
        congrArg (fun regs : Vector Term regCount => regs.get dst) hregs
      rw [Process.reg_setReg, Process.reg_setReg, if_pos rfl, if_pos rfl] at hreg
      exact hpid (hq.symm.trans (makePid_injective hreg))

/-- So does an allocation. -/
theorem AllocatesAt.parts (hhal : hal.Ownerless) {vm : VmState} {j : ℕ}
    (hstart : SameRun (.ok, vm, []) (.ok, ⟨.compat (p.withPid 0), []⟩))
    (h : ∀ l < j, ¬ AllocatesAt hal p l ∧ ¬ SelfAt hal p l) (halloc : AllocatesAt hal p j) :
    ¬ Results SameUnowned (vmSteps hal vm [] (j + 1)) (procSteps hal p (j + 1)) := by
  have howned : ∀ k ≤ j + 1, Results (SameOwned 0) (procSteps hal p k)
      (procSteps hal (p.withPid 0) k) := by
    apply procSteps_withPid hhal
    exact Nat.forall_lt_succ_right.mpr ⟨fun l hl => (h l hl).2, halloc.not_self⟩
  have hbefore : ∀ l < j, ¬ AllocatesAt hal (p.withPid 0) l := by
    intro l hl halloc'
    exact (h l hl).1
      ((AllocatesAt.withPid (howned l (hl.trans (Nat.lt_succ_self j)).le)).mpr halloc')
  obtain ⟨rc, m, i, pc, hm, hh, hd, hi⟩ :=
    (AllocatesAt.withPid (howned j (Nat.le_succ j))).mp halloc
  obtain ⟨s, hs, hsame⟩ := (sameRun_of_not_allocatesAt hstart hbefore j le_rfl).left hm
  intro hall
  have hstatus : Results (fun a b => b.1 = a.1) (vmSteps hal vm [] (j + 1))
      (procSteps hal (p.withPid 0) (j + 1)) :=
    hall.trans (howned (j + 1) le_rfl) fun _ _ _ h h' => h'.status.trans h.status
  rw [vmSteps_succ, hs, procSteps_succ, hm] at hstatus
  exact hsame.parts hh hd hi hstatus

end Runs

theorem procPushAll_withPid (pid : Byte) {p q : Process} (cmds : List Command)
    (h : procPushAll p cmds = .ok q) :
    procPushAll (p.withPid pid) cmds = .ok (q.withPid pid) := by
  induction cmds generalizing p with
  | nil =>
      cases h
      rfl
  | cons cmd cmds ih =>
      obtain ⟨⟨rc, p₁⟩, hpush, h⟩ := bind_eq_ok.mp h
      obtain ⟨⟨rc', mb⟩, hraw, hend⟩ := bind_eq_ok.mp hpush
      cases hend
      show (mbMailboxPushRaw p.mailbox cmd >>= _) >>= _ = _
      rw [hraw]
      exact ih h

/-- Exactly when the layer, whose process has the pid `MB_PID_NONE`, agrees with a process of
another pid, up to the owner of the HAL calls: no step before executes an allocation or a
`SELF`. -/
theorem compat_agrees_pid (hal : Hal) (hhal : hal.Ownerless) (pid : Byte) (hpid : pid ≠ 0)
    (program : List Byte) (cmds : List Command) :
    ∃ vm p, vmPushAll (mbVmInit program) cmds = .ok vm ∧
      procPushAll (mbProcInit pid program) cmds = .ok p ∧
      ∀ n, (∀ k ≤ n, Results SameUnowned (vmSteps hal vm [] k) (procSteps hal p k)) ↔
        ∀ j < n, ¬ AllocatesAt hal p j ∧ ¬ SelfAt hal p j := by
  obtain ⟨vm, p₀, hvm, hp₀, rfl, hvm'⟩ := pushAll_start (mbVmInit program) cmds
    Mailbox.zero_holds rfl rfl
  have hstart := sameRun_start program vm.mailbox
  replace hvm' : vm = { mbVmInit program with mailbox := vm.mailbox } := hvm'
  rw [← hvm'] at hstart
  refine ⟨vm, _, hvm, procPushAll_withPid pid cmds hp₀, fun n => ⟨fun hall j => ?_, ?_⟩⟩
  · induction j using Nat.strong_induction_on with
    | _ j ih =>
        intro hj
        have hbefore := fun l hl => ih l hl (hl.trans hj)
        exact ⟨fun halloc => halloc.parts hhal hstart hbefore (hall (j + 1) hj),
          fun hself => hself.parts hhal hpid hstart hbefore (hall (j + 1) hj)⟩
  · intro hnone
    exact sameUnowned_of_not hhal hstart hnone

example : idleHal.Ownerless := fun _ _ => rfl

end MiniBeam
