import MiniBeam.Verification.Flow.Header
import MiniBeam.Verification.Flow.Sensor
import MiniBeam.Verification.Scheduler.History

/-! Inductive assertions for bytecode under the scheduler. An assertion stands at each
instruction and speaks of the registers of the process and of its own history; what other
processes and native code do in between does not matter to it. -/

namespace MiniBeam

/-! ### Histories -/

/-- A HAL call or a receipt of the process. -/
def Event.isOf (pid : Byte) : Event → Bool
  | .hal owner _ _ => owner == pid
  | .pop owner _ => owner == pid
  | .push _ _ _ => false

/-- What the process itself did, oldest first. -/
def history (pid : Byte) (t : Trace) : Trace := t.filter (Event.isOf pid)

theorem history_append (pid : Byte) (t u : Trace) :
    history pid (t ++ u) = history pid t ++ history pid u := List.filter_append ..

@[simp] theorem history_nil (pid : Byte) : history pid [] = [] := rfl

@[simp] theorem history_hal (pid : Byte) (call : HalCall) (reply : HalReply) :
    history pid [.hal pid call reply] = [.hal pid call reply] := by
  simp [history, Event.isOf]

@[simp] theorem history_pop (pid : Byte) (cmd : Command) :
    history pid [.pop pid cmd] = [.pop pid cmd] := by
  simp [history, Event.isOf]

@[simp] theorem history_push (pid owner : Byte) (cmd : Command) (rc : Status) :
    history pid [.push owner cmd rc] = [] := rfl

/-- A process that works on itself does nothing for another. -/
theorem Intake.history_ne {p p' : Process} {events : List Event} (h : Intake p p' events)
    {pid : Byte} (hne : p.pid ≠ pid) : history pid events = [] := by
  refine List.filter_eq_nil_iff.mpr fun e he => ?_
  cases h with
  | keep _ _ calls =>
      obtain ⟨call, reply, rfl⟩ := calls e he
      simp [Event.isOf, hne]
  | pop cmd _ =>
      obtain rfl := List.mem_singleton.mp he
      simp [Event.isOf, hne]

theorem Move.history {self i : Slot} {sys sys' : System} (ht : Table sys) (hne : i ≠ self)
    (h : Move self sys sys') : history i.pid sys'.trace = MiniBeam.history i.pid sys.trace := by
  rcases h with ⟨ready, change⟩ | ⟨-, -⟩
  · rename_i s t p' events
    have hpid : (s.proc self).pid = self.pid := (ht.entry self).pid (by simp [ready])
    have hother : (s.proc self).pid ≠ i.pid := fun he => hne (Slot.pid_inj (hpid ▸ he)).symm
    rw [history_append, change.intake.history_ne hother, List.append_nil]
  · rw [history_append, history_push, List.append_nil]

/-- A slice adds to the history of its own process only. -/
theorem Moves.history {self i : Slot} {sys sys' : System} (ht : Table sys) (hne : i ≠ self)
    (h : Moves self sys sys') : history i.pid sys'.trace = MiniBeam.history i.pid sys.trace := by
  induction h with
  | refl => rfl
  | tail hrest hstep ih => exact (hstep.history (table_invariant.moves hrest ht) hne).trans ih

/-- No slice frees an entry or takes a free one. -/
theorem Move.free {self : Slot} {sys sys' : System} (h : Move self sys sys') (i : Slot) :
    (sys'.sched.proc i).state = .free ↔ (sys.sched.proc i).state = .free := by
  rcases h with ⟨ready, change⟩ | ⟨hocc, hd⟩
  · exact Scheduler.setProc_free (by simp [ready]) (change.control.occupied ready) i
  · obtain ⟨mb, state, -, rfl, rfl⟩ := deliver_eq hd
    refine Scheduler.setProc_free hocc ?_ i
    dsimp only
    split
    · decide
    · exact hocc

theorem Moves.free {self : Slot} {sys sys' : System} (h : Moves self sys sys') (i : Slot) :
    (sys'.sched.proc i).state = .free ↔ (sys.sched.proc i).state = .free := by
  induction h with
  | refl => rfl
  | tail _ hstep ih => exact (hstep.free i).trans ih

/-! ### Assertions -/

/-- The registers by number. -/
abbrev Regs := Reg → Term

theorem reg_setReg_eq (p : Process) (r : Reg) (t : Term) :
    (p.setReg r t).reg = Function.update p.reg r t := by
  funext r'
  rw [Process.reg_setReg]
  by_cases h : r = r'
  · rw [if_pos h, h, Function.update_self]
  · rw [if_neg h, Function.update_of_ne (Ne.symm h)]

/-- The registers after `RECV_CMD`. -/
def Regs.load (r : Regs) (rType rA rB rC rD : Reg) (cmd : Command) : Regs :=
  Function.update (Function.update (Function.update (Function.update (Function.update r
    rType (makeSmallint cmd.type)) rA (makeSmallint cmd.a)) rB (makeSmallint cmd.b))
      rC (makeSmallint cmd.c)) rD (makeSmallint cmd.d)

theorem reg_loadCommand (p : Process) (rType rA rB rC rD : Reg) (cmd : Command) :
    (p.loadCommand rType rA rB rC rD cmd).reg = Regs.load p.reg rType rA rB rC rD cmd := by
  simp only [Process.loadCommand, reg_setReg_eq, Regs.load]

theorem mbProcInit_reg (pid : Byte) (program : List Byte) :
    (mbProcInit pid program).reg = fun _ => 0 := by
  funext r
  simp [mbProcInit, Process.zero, Process.reg]

/-- An assertion for each instruction of a program, on the registers and the history of the
process. -/
abbrev Annotation := ℕ → Regs → Trace → Prop

/-- The assertion at an address. -/
def Annotation.At (A : Annotation) (code : List Instr) (r : Regs) (h : Trace) (pc : ℤ) : Prop :=
  ∃ k, k ≤ code.length ∧ pc = offset code k ∧ A k r h

/-- What must hold before the instruction number `k` for the annotation to hold after it,
whatever status it returns. Replies of the hardware, results of sends and received commands
are arbitrary, and so are the registers after an instruction that may collect. -/
def Instr.pre (pid : Byte) (code : List Instr) (A : Annotation) (k : ℕ) (r : Regs) (h : Trace) :
    Instr → Prop
  | .nop => A (k + 1) r h
  | .constI32 dst val => A (k + 1) (Function.update r dst (makeSmallint val)) h
  | .move dst a _ => A (k + 1) (Function.update r dst (r a)) h
  | .add dst a b => A (k + 1)
      (Function.update r dst (makeSmallint (getSmallint (r a) + getSmallint (r b)))) h
  | .sub dst a b => A (k + 1)
      (Function.update r dst (makeSmallint (getSmallint (r a) - getSmallint (r b)))) h
  | .callBif bifId args dst =>
    if hdst : dst.toNat < regCount then
      match bifRequest bifId (args.map fun x => getSmallint (r x)) with
      | .error _ => A (k + 1) r h
      | .ok (call, load) => ∀ reply,
          A (k + 1) (Function.update r ⟨dst.toNat, hdst⟩ (makeSmallint (load reply)))
            (h ++ [.hal pid call reply])
    else A (k + 1) r h
  | .recvCmd rType rA rB rC rD => ∀ cmd, mbValidateCommand cmd = .ok →
      A (k + 1) (Regs.load r rType rA rB rC rD cmd) (h ++ [.pop pid cmd])
  | .send rPid _ _ _ _ _ => ∀ rc : Status,
      A (k + 1) (Function.update r rPid (makeSmallint rc.code)) h
  | .self dst => A (k + 1) (Function.update r dst (makePid pid)) h
  | .yield => A (k + 1) r h
  | .jmp distance => distance.toInt ≠ -2 ^ 31 ∧
      A.At code r h ((offset code (k + 1) : ℤ) + distance.toInt)
  | .jmpIfZero reg distance =>
    if r reg = makeSmallint 0 then distance.toInt ≠ -2 ^ 31 ∧
      A.At code r h ((offset code (k + 1) : ℤ) + distance.toInt)
    else A (k + 1) r h
  | .sleepMs _ => ∀ reply, A (k + 1) r (h ++ [.hal pid .monotonicMs reply])
  | .makeTuple _ _ => ∀ r', A (k + 1) r' h
  | .tupleElem dst _ _ => A (k + 1) r h ∧ ∀ w, A (k + 1) (Function.update r dst w) h
  | .cons _ _ _ => ∀ r', A (k + 1) r' h
  | .head dst _ => A (k + 1) r h ∧ ∀ w, A (k + 1) (Function.update r dst w) h
  | .tail dst _ => A (k + 1) r h ∧ ∀ w, A (k + 1) (Function.update r dst w) h
  | .halt => A (k + 1) r h

/-- A program with an annotation that its instructions keep. -/
structure Annotated (code : List Instr) (A : Byte → Annotation) : Prop where
  encodable : ∀ i ∈ code, i.Encodable
  entry : ∀ pid, A pid 0 (fun _ => 0) []
  step : ∀ pid k i r h, code[k]? = some i → A pid k r h → i.pre pid code (A pid) k r h

section Run

variable {hal : Hal} {code : List Instr} {A : Annotation} {k : ℕ} {p p' : Process} {h t : Trace}
  {rc : Status} {events : List Event}

/-- A jump to an instruction of the program. -/
theorem Annotation.At.jump {distance : I32} (hmin : distance.toInt ≠ -2 ^ 31)
    (hprogram : p.program = assemble code) (hpc : p.pc = offset code (k + 1))
    (hat : A.At code p.reg h ((offset code (k + 1) : ℤ) + distance.toInt)) :
    ∃ k', k' ≤ code.length ∧ (jumpTo p distance).2.pc = offset code k' ∧
      A k' (jumpTo p distance).2.reg h := by
  obtain ⟨k', hk, htarget, hA⟩ := hat
  have hle := offset_le code k'
  rw [jumpTo_eq hmin, hpc, htarget, hprogram, if_neg (by omega)]
  exact ⟨k', hk, by simp, hA⟩

/-- An instruction that finishes keeps the annotation. -/
theorem Instr.run_pre {i : Instr} (hk : k < code.length) (hprogram : p.program = assemble code)
    (hpc : p.pc = offset code (k + 1)) (hsend : ¬ i.IsSend)
    (hvalid : ∀ cmd mb, mbMailboxPopRaw p.mailbox = .ok (some (cmd, mb)) →
      mbValidateCommand cmd = .ok)
    (hA : A k p.reg h) (hpre : i.pre p.pid code A k p.reg h)
    (hrun : i.run hal true (offset code k) p t = .ok (rc, p', events)) :
    ∃ k', k' ≤ code.length ∧ p'.pc = offset code k' ∧
      A k' p'.reg (h ++ history p.pid events) := by
  cases i with
  | send rPid rType rA rB rC rD => exact absurd ⟨_, _, _, _, _, _, rfl⟩ hsend
  | callBif bifId args dst =>
      simp only [Instr.run] at hrun
      simp only [Instr.pre] at hpre
      split at hrun
      · rename_i hdst
        rw [dif_pos hdst] at hpre
        have hargs : (args.map fun x => getSmallint (p.reg x)) = args.map p.int := rfl
        rw [hargs] at hpre
        split at hrun
        · rename_i e hreq
          rw [hreq] at hpre
          cases hrun
          exact ⟨k + 1, hk, hpc, by simpa using hpre⟩
        · rename_i call load hreq
          rw [hreq] at hpre
          cases hrun
          refine ⟨k + 1, hk, hpc, ?_⟩
          rw [history_hal]
          have hafter := hpre (hal t call)
          rwa [← reg_setReg_eq] at hafter
      · rename_i hdst
        rw [dif_neg hdst] at hpre
        cases hrun
        exact ⟨k + 1, hk, hpc, by simpa using hpre⟩
  | recvCmd rType rA rB rC rD =>
      obtain ⟨popped, hpop, hrun⟩ := bind_eq_ok.mp hrun
      rcases popped with _ | ⟨cmd, mb⟩
      · cases hrun
        refine ⟨k, Nat.le_of_lt hk, rfl, ?_⟩
        rw [history_nil, List.append_nil]
        exact hA
      · have hok := hvalid cmd mb hpop
        simp only [hok, if_true, pure_ok, Except.ok.injEq, Prod.mk.injEq] at hrun
        obtain ⟨-, rfl, rfl⟩ := hrun
        refine ⟨k + 1, hk, hpc, ?_⟩
        rw [history_pop]
        have hafter := hpre cmd hok
        rwa [← reg_loadCommand] at hafter
  | jmp distance =>
      cases hrun
      obtain ⟨k', hk', hpc', hA'⟩ := hpre.2.jump hpre.1 hprogram hpc
      exact ⟨k', hk', hpc', by simpa using hA'⟩
  | jmpIfZero reg distance =>
      simp only [Instr.run] at hrun
      simp only [Instr.pre] at hpre
      split at hrun
      · rename_i hzero
        rw [if_pos hzero] at hpre
        cases hrun
        obtain ⟨k', hk', hpc', hA'⟩ := hpre.2.jump hpre.1 hprogram hpc
        exact ⟨k', hk', hpc', by simpa using hA'⟩
      · rename_i hzero
        rw [if_neg hzero] at hpre
        cases hrun
        exact ⟨k + 1, hk, hpc, by simpa using hpre⟩
  | sleepMs reg =>
      cases hrun
      refine ⟨k + 1, hk, hpc, ?_⟩
      rw [history_hal]
      exact hpre _
  | makeTuple dst elems | cons dst hd tl =>
      obtain ⟨⟨rc', q⟩, hq, hrun⟩ := bind_eq_ok.mp hrun
      cases hrun
      exact ⟨k + 1, hk, (allocate_pc hq).2.trans hpc, by simpa using hpre _⟩
  | tupleElem dst tuple index =>
      obtain ⟨hsame, hwritten⟩ := hpre
      simp only [Instr.run] at hrun
      split at hrun
      · obtain ⟨hdr, -, hrun⟩ := bind_eq_ok.mp hrun
        split at hrun
        · cases hrun
          exact ⟨k + 1, hk, hpc, by simpa using hsame⟩
        · split at hrun
          · obtain ⟨w, -, hrun⟩ := bind_eq_ok.mp hrun
            cases hrun
            refine ⟨k + 1, hk, hpc, ?_⟩
            rw [reg_setReg_eq, history_nil, List.append_nil]
            exact hwritten w
          · cases hrun
            exact ⟨k + 1, hk, hpc, by simpa using hsame⟩
      · cases hrun
        exact ⟨k + 1, hk, hpc, by simpa using hsame⟩
  | head dst cell | tail dst cell =>
      obtain ⟨hsame, hwritten⟩ := hpre
      simp only [Instr.run] at hrun
      split at hrun
      · obtain ⟨w, -, hrun⟩ := bind_eq_ok.mp hrun
        cases hrun
        refine ⟨k + 1, hk, hpc, ?_⟩
        rw [reg_setReg_eq, history_nil, List.append_nil]
        exact hwritten w
      · cases hrun
        exact ⟨k + 1, hk, hpc, by simpa using hsame⟩
  | nop | yield | halt =>
      cases hrun
      refine ⟨k + 1, hk, hpc, ?_⟩
      rw [history_nil, List.append_nil]
      exact hpre
  | constI32 | move | add | sub | self =>
      cases hrun
      refine ⟨k + 1, hk, hpc, ?_⟩
      rw [reg_setReg_eq, history_nil, List.append_nil]
      exact hpre

/-- A `SEND` is no part of the history. -/
theorem sendFrom_history {s s' : Scheduler} {self : Slot} {rPid rType rA rB rC rD : Reg}
    (hsend : sendFrom s self rPid rType rA rB rC rD = .ok (s', events)) (pid : Byte) :
    history pid events = [] := by
  obtain ⟨found, -, hsend⟩ := bind_eq_ok.mp hsend
  cases found with
  | none =>
      cases hsend
      rfl
  | some target =>
      obtain ⟨⟨rc, after⟩, -, hsend⟩ := bind_eq_ok.mp hsend
      cases hsend
      exact history_push _ _ _ _

/-- A sweep of a program ends behind its last instruction. -/
theorem decode_end (code : List Instr) :
    decode (assemble code) (offset code code.length) = (.error .eof, offset code code.length) := by
  have hnone : (assemble code)[offset code code.length]? = none := by
    rw [offset_length]
    exact List.getElem?_eq_none (le_refl _)
  rw [decode, Decoder.bind_apply, u8, hnone]

end Run

/-! ### Every run -/

/-- A process that runs the program stands where its assertion holds; an entry that is not in
use has done nothing. -/
structure Asserted (code : List Instr) (A : Byte → Annotation) (i : Slot) (p : Process)
    (t : Trace) : Prop where
  idle : p.state = .free → history i.pid t = []
  holds : p.state ≠ .free → p.program = assemble code →
    (A i.pid).At code p.reg (history i.pid t) p.pc

namespace Asserted

variable {hal : Hal} {code : List Instr} {A : Byte → Annotation} {i self : Slot} {p : Process}
  {t : Trace} {sys sys' : System}

/-- Only these parts of an entry matter. -/
theorem congr (h : Asserted code A i p t) {mb : Mailbox} {state : ProcState} {wakeup : BitVec 32}
    {n : ℕ} (hfree : p.state = .free ↔ state = .free) : Asserted code A i
      { p with mailbox := mb, state := state, sleepUntilMs := wakeup, reductions := n } t :=
  ⟨fun hf => h.idle (hfree.mpr hf), fun hocc hp => h.holds (fun hf => hocc (hfree.mp hf)) hp⟩

/-- What others do leaves no trace in the history. -/
theorem quiet (h : Asserted code A i p t) {u : Trace} (hu : history i.pid u = history i.pid t) :
    Asserted code A i p u :=
  ⟨fun hf => hu ▸ h.idle hf, fun hocc hp => hu ▸ h.holds hocc hp⟩

/-- An instruction of the program keeps the annotation. -/
theorem step (hA : Annotated code A) (ht : Table sys) (hl : Ledgers sys) {rc : Status}
    (hready : (sys.sched.proc self).state = .ready)
    (hstep : mbProcStep hal (sys.machine self) = .ok (rc, sys'.machine self))
    (hprogram : (sys.sched.proc self).program = assemble code)
    (h : (A self.pid).At code (sys.sched.proc self).reg (history self.pid sys.trace)
      (sys.sched.proc self).pc) :
    (A self.pid).At code (sys'.sched.proc self).reg (history self.pid sys'.trace)
      (sys'.sched.proc self).pc := by
  obtain ⟨k, hk, hpc, hat⟩ := h
  have hpc : (sys.sched.proc self).pc = offset code k := by exact_mod_cast hpc
  have hocc : (sys.sched.proc self).state ≠ .free := by simp [hready]
  have hpid := (ht.entry self).pid hocc
  have hhalted : (sys.sched.proc self).halted = false := by
    rw [Bool.eq_false_iff, ne_eq, (ht.entry self).halted, hready]
    decide
  have hproc : (sys.machine self).proc = sys.sched.proc self := rfl
  rw [mbProcStep_eq, hproc, if_neg (by simp [hhalted]), hprogram, hpc] at hstep
  rcases Nat.lt_or_eq_of_le hk with hlt | rfl
  · have hi : code[k]? = some code[k] := List.getElem?_eq_getElem hlt
    generalize code[k] = instr at hi
    rw [decode_offset hi (hA.encodable _ (List.mem_of_getElem? hi))] at hstep
    have hpre := hA.step self.pid k instr _ _ hi hat
    by_cases hsend : instr.IsSend
    · obtain ⟨rPid, rType, rA, rB, rC, rD, rfl⟩ := hsend
      obtain ⟨⟨after, events⟩, hsend, hend⟩ := bind_eq_ok.mp hstep
      have hafter : (System.mk after (sys.trace ++ events)).machine self = sys'.machine self :=
        (Prod.mk.inj (Except.ok.inj hend)).2
      have hsys := System.machine_inj.mp hafter
      obtain ⟨mb, state, rc', hself⟩ := sendFrom_self hsend
      rw [Scheduler.proc_setProc_self] at hself
      have hquiet : history self.pid events = [] := sendFrom_history hsend _
      rw [← hsys]
      show (A self.pid).At code (after.proc self).reg (history self.pid (sys.trace ++ events))
        (after.proc self).pc
      rw [hself, history_append, hquiet, List.append_nil, reg_setReg_eq]
      exact ⟨k + 1, hlt, rfl, hpre rc'⟩
    · obtain ⟨q, events, hrun, hafter⟩ := execInstr_ok hal _ hsend hstep
      have hsys : sys' = ⟨sys.sched.setProc self (if rc = .ok then q else q.fail rc),
          sys.trace ++ events⟩ := by
        rw [← System.machine_inj, hafter, Machine.setProc_setProc]
        rfl
      have hvalid : ∀ cmd mb, mbMailboxPopRaw ((sys.sched.proc self).setPc
          (offset code (k + 1))).mailbox = .ok (some (cmd, mb)) → mbValidateCommand cmd = .ok := by
        intro cmd mb hpop
        obtain ⟨queue, hqueue⟩ := hl self
        exact hqueue.holds.popped_valid hpop
      rw [Machine.proc_setProc] at hrun
      generalize hp : (sys.sched.proc self).setPc (offset code (k + 1)) = p at hrun hvalid
      obtain ⟨hregs, hself, hprog, hnext⟩ : p.reg = (sys.sched.proc self).reg ∧ p.pid = self.pid ∧
          p.program = assemble code ∧ p.pc = offset code (k + 1) :=
        hp ▸ ⟨rfl, hpid, hprogram, rfl⟩
      rw [← hregs, ← hself] at hat hpre
      obtain ⟨k', hk', hpc', hat'⟩ := Instr.run_pre hlt hprog hnext hsend hvalid hat hpre hrun
      rw [hself] at hat'
      rw [hsys]
      show (A self.pid).At code ((sys.sched.setProc self _).proc self).reg
        (history self.pid (sys.trace ++ events)) ((sys.sched.setProc self _).proc self).pc
      rw [Scheduler.proc_setProc_self, history_append]
      refine ⟨k', hk', ?_, ?_⟩
      · split
        · exact_mod_cast hpc'
        · exact_mod_cast hpc'
      · split
        · exact hat'
        · exact hat'
  · rw [decode_end] at hstep
    have hafter : (System.mk (sys.sched.setProc self
        (((sys.sched.proc self).setPc (offset code code.length)).fail .eof))
          sys.trace).machine self =
        sys'.machine self := (Prod.mk.inj (Except.ok.inj hstep)).2
    rw [← System.machine_inj.mp hafter]
    show (A self.pid).At code ((sys.sched.setProc self _).proc self).reg
      (history self.pid sys.trace) ((sys.sched.setProc self _).proc self).pc
    rw [Scheduler.proc_setProc_self]
    exact ⟨code.length, le_refl _, rfl, hat⟩

end Asserted

/-- The slice of another process keeps the assertion. -/
theorem Asserted.other {code : List Instr} {A : Byte → Annotation} {i self : Slot}
    {sys sys' : System} (h : Asserted code A i (sys.sched.proc i) sys.trace) (ht : Table sys)
    (hne : i ≠ self) (hmoves : Moves self sys sys') :
    Asserted code A i (sys'.sched.proc i) sys'.trace := by
  have hfree := hmoves.free i
  have hquiet := h.quiet (hmoves.history ht hne)
  obtain ⟨mb, state, hproc, -⟩ := hmoves.other hne
  rw [hproc] at hfree ⊢
  exact hquiet.congr hfree.symm

/-- The clock reading of a tick is nobody's. -/
theorem history_wakeSleepers (hal : Hal) (sys : System) (i : Slot) :
    history i.pid (mbSchedWakeSleepers hal sys).trace = history i.pid sys.trace := by
  have hpid : (0 : Byte) ≠ i.pid := fun h => by
    have hval := congrArg BitVec.toNat h
    rw [Slot.pid_toNat] at hval
    exact absurd hval (by simp)
  show history i.pid (sys.trace ++ [.hal 0 .monotonicMs (hal sys.trace .monotonicMs)]) = _
  have hnil : history i.pid [.hal 0 .monotonicMs (hal sys.trace .monotonicMs)] = [] := by
    refine List.filter_eq_nil_iff.mpr fun e he => ?_
    rw [List.mem_singleton.mp he]
    simpa [Event.isOf] using hpid
  rw [history_append, hnil, List.append_nil]

/-- An annotation that the instructions keep holds of every process that runs the program,
in every run of the scheduler, whatever the other processes are. -/
theorem annotated_invariant (hal : Hal) {code : List Instr} {A : Byte → Annotation}
    (hA : Annotated code A) : StepInvariant hal fun sys => (Table sys ∧ Ledgers sys) ∧
      ∀ i, Asserted code A i (sys.sched.proc i) sys.trace where
  init := by
    refine ⟨ledgers_invariant.init, fun i => ⟨fun _ => rfl, fun hocc => absurd ?_ hocc⟩⟩
    rw [proc_init]
    rfl
  spawn sys program h := by
    refine ⟨ledgers_invariant.spawn sys program h.1, ?_⟩
    rcases mbSchedSpawn_cases sys.sched program with hs | ⟨slot, hfree, hs⟩
    · rw [hs]
      exact h.2
    · intro i
      rw [hs]
      show Asserted code A i ((sys.sched.setProc slot (mbProcInit slot.pid program)).proc i) _
      rw [Scheduler.proc_setProc]
      split
      · rename_i hi
        subst hi
        refine ⟨fun hf => absurd hf (by simp [mbProcInit]), fun _ _ => ?_⟩
        rw [(h.2 i).idle hfree, mbProcInit_reg]
        exact ⟨0, Nat.zero_le _, rfl, hA.entry i.pid⟩
      · exact h.2 i
  wake sys h := by
    refine ⟨ledgers_invariant.wake hal sys h.1, fun i => ?_⟩
    have hquiet := (h.2 i).quiet (history_wakeSleepers hal sys i)
    rw [proc_wakeSleepers]
    rcases wake_cases (hal sys.trace .monotonicMs).ms (sys.sched.proc i) with hw | ⟨hs, hw⟩
    · rwa [hw]
    · rw [hw]
      exact hquiet.congr (by simp [hs])
  select sys current hc h := ⟨ledgers_invariant.select sys current hc h.1, h.2⟩
  push sys sys' hpush h := by
    refine ⟨ledgers_invariant.push sys sys' hpush h.1, ?_⟩
    intro i
    obtain ⟨j, hj⟩ := exists_ne i
    exact (h.2 i).other h.1.1 hj.symm (.single (.inr hpush))
  budget sys self n hready h := by
    refine ⟨ledgers_invariant.moves (Moves.quiet hready (quiet_budget _ n)) h.1, fun i => ?_⟩
    dsimp only
    rw [Scheduler.proc_setProc]
    split
    · rename_i hi
      subst hi
      exact (h.2 i).congr Iff.rfl
    · exact h.2 i
  step self sys rc sys' hready hstep h := by
    obtain ⟨sys₁, hm, hmoves⟩ := mbProcStep_moves hready hstep
    obtain rfl := System.machine_inj.mp hm
    refine ⟨ledgers_invariant.moves hmoves h.1, fun i => ?_⟩
    by_cases hi : i = self
    · subst hi
      have hocc : (sys.sched.proc i).state ≠ .free := by simp [hready]
      refine ⟨fun hf => absurd ((hmoves.free i).mp hf) hocc, fun _ hp => ?_⟩
      rw [hmoves.program i] at hp
      exact Asserted.step hA h.1.1 h.1.2 hready hstep hp ((h.2 i).holds hocc hp)
    · exact (h.2 i).other h.1.1 hi hmoves

end MiniBeam
