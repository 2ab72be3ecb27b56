import MiniBeam.Verification.Commands
import MiniBeam.Verification.Compat.Execution
import MiniBeam.Verification.Scheduler.Queues
import Mathlib.Data.BitVec

/-! Messages from the push that accepts them to the `RECV_CMD` that takes them. -/

namespace MiniBeam

/-- The command at the front of the queue is the one whose turn it is. -/
theorem front_of_turn {pid : Byte} {before log : Trace} {cmd : Command} {queue : List Command}
    (hlater : before ++ [.push pid cmd .ok] <+: log)
    (hbalance : delivered pid log = received pid log ++ queue)
    (hturn : (received pid log).length = (delivered pid before).length) :
    ∃ rest, queue = cmd :: rest := by
  obtain ⟨more, rfl⟩ := hlater
  rw [delivered_append, delivered_append, delivered_push, if_pos ⟨rfl, rfl⟩,
    List.append_assoc] at hbalance
  have hqueue := (List.append_inj hbalance hturn.symm).2
  exact ⟨delivered pid more, hqueue.symm⟩

/-! ### Under the scheduler -/

/-- An instruction of the process in slot `i` is about to be executed, when it is the turn of
the command whose push took the trace from `before` to `after`: the process received as many
commands so far as it had been delivered before that push. -/
structure AtTurn (hal : Hal) (i : Slot) (before after : Trace) (sys : System) : Prop where
  dispatched : Dispatched hal i sys
  later : after <+: sys.trace
  turn : (received i.pid sys.trace).length = (delivered i.pid before).length

section Scheduled

variable {hal : Hal} {i : Slot} {cmd : Command}

theorem AtTurn.takes {t : Trace} {sys : System} {rType rA rB rC rD : Reg} {next : ℕ}
    (h : AtTurn hal i t (t ++ [.push i.pid cmd .ok]) sys)
    (hd : decode (sys.sched.proc i).program (sys.sched.proc i).pc =
      (.ok (.recvCmd rType rA rB rC rD), next))
    (hnodup : [rType, rA, rB, rC, rD].Nodup) :
    ∃ sys' : System, mbProcStep hal (sys.machine i) = .ok (.ok, sys'.machine i) ∧
      sys'.trace = sys.trace ++ [.pop i.pid cmd] ∧
      (sys'.sched.proc i).command rType rA rB rC rD = cmd.held ∧
      (sys'.sched.proc i).Carries rType rA rB rC rD cmd := by
  obtain ⟨htable, hledgers⟩ := ledgers_invariant.dispatched h.dispatched
  obtain ⟨q, hq⟩ := hledgers i
  obtain ⟨rest, hfront⟩ := front_of_turn h.later hq.balance h.turn
  obtain ⟨hvalid, mb, hpop⟩ := hq.holds.pop_front hfront
  obtain ⟨p', hstep, hcommand, hcarries⟩ := mbProcStep_carries hal (m := sys.machine i)
    h.dispatched.running hd hnodup hvalid hpop
  have hpid : (sys.sched.proc i).pid = i.pid :=
    (htable.entry i).pid (by simp [h.dispatched.ready])
  have hproc : (sys.machine i).proc = sys.sched.proc i := rfl
  rw [hproc, hpid] at hstep
  refine ⟨⟨sys.sched.setProc i p', sys.trace ++ [Event.pop i.pid cmd]⟩, hstep, rfl, ?_, ?_⟩
  · rw [Scheduler.proc_setProc_self]
    exact hcommand
  · rw [Scheduler.proc_setProc_self]
    exact hcarries

/-- A push that `mb_sched_send` accepts is an event of the trace. -/
theorem mbSchedSend_event {sys sys' : System} {dst : Byte} (ht : Table sys)
    (h : mbSchedSend sys dst cmd = .ok (.ok, sys')) :
    ∃ i, mbSchedProc sys.sched dst = .ok (some i) ∧
      sys'.trace = sys.trace ++ [.push i.pid cmd .ok] := by
  rcases mbSchedSend_cases h with ⟨-, hrc, -⟩ | ⟨target, after, hf, -, rfl⟩
  · cases hrc
  · have hpid := (ht.entry target).pid (mbSchedProc_some hf).2
    exact ⟨target, hf, by rw [hpid]⟩

theorem Status.code_inj {rc rc' : Status} (h : makeSmallint rc.code = makeSmallint rc'.code) :
    rc = rc' := by
  revert h
  cases rc <;> cases rc' <;> decide

/-- A push that a `SEND` reports as accepted is an event of the trace. -/
theorem mbProcStep_send_event {self : Slot} {sys sys' : System} {rc : Status}
    {rPid rType rA rB rC rD : Reg} {next : ℕ} (hd : Dispatched hal self sys)
    (hdec : decode (sys.sched.proc self).program (sys.sched.proc self).pc =
      (.ok (.send rPid rType rA rB rC rD), next))
    (hstep : mbProcStep hal (sys.machine self) = .ok (rc, sys'.machine self))
    (haccept : (sys'.sched.proc self).reg rPid = makeSmallint Status.ok.code) :
    ∃ i, mbSchedProc sys.sched (((sys.sched.proc self).int rPid).setWidth 8) = .ok (some i) ∧
      sys'.trace = sys.trace ++
        [.push i.pid ((sys.sched.proc self).command rType rA rB rC rD) .ok] := by
  obtain ⟨code, after, hsend, rfl⟩ := mbProcStep_send_eq hd.running hdec hstep
  rw [answer_reg] at haccept
  obtain rfl : code = .ok := Status.code_inj haccept
  obtain ⟨i, hi, htrace⟩ := mbSchedSend_event (hd.fetched next).1 hsend
  rw [mbSchedProc_congr (System.fetched_free hd.ready)] at hi
  exact ⟨i, hi, htrace⟩

end Scheduled

/-! ### In a VM -/

/-- A mailbox holds what the log says was delivered to its owner and not yet received. -/
def Balanced (pid : Byte) (mb : Mailbox) (log : Trace) : Prop :=
  ∃ q : Inbox, mb.Holds q ∧ delivered pid log = received pid log ++ q.queue

namespace Balanced

variable {pid : Byte} {mb mb' : Mailbox} {log : Trace}

theorem push {cmd : Command} {rc : Status} (h : Balanced pid mb log)
    (hp : mbMailboxPushRaw mb cmd = .ok (rc, mb')) :
    Balanced pid mb' (log ++ [.push pid cmd rc]) := by
  obtain ⟨q, hq, hbalance⟩ := h
  exact ⟨_, (balance_push hq hbalance hp).2⟩

theorem pop {cmd : Command} (h : Balanced pid mb log)
    (hp : mbMailboxPopRaw mb = .ok (some (cmd, mb'))) :
    Balanced pid mb' (log ++ [.pop pid cmd]) := by
  obtain ⟨q, hq, hbalance⟩ := h
  exact balance_pop hq hbalance hp

theorem intake {p p' : Process} {events : List Event} (h : Balanced p.pid p.mailbox log)
    (hi : Intake p p' events) : Balanced p.pid p'.mailbox (log ++ events) := by
  obtain ⟨q, hq, hbalance⟩ := h
  exact balance_intake hq hbalance hi

end Balanced

/-- What the log of a run says about the mailbox. -/
def VmPoint.Balanced : VmPoint → Trace → Prop
  | .idle vm _, log => MiniBeam.Balanced 0 vm.mailbox log
  | .running _ m, log => ∃ p t, m = ⟨.compat p, t⟩ ∧ p.pid = 0 ∧ MiniBeam.Balanced 0 p.mailbox log

section Vm

variable {hal : Hal} {cond : Process → Prop} {program : List Byte}

theorem VmPoint.Balanced.round {vm : VmState} {m m' : Machine} {log events : Trace}
    {maxSteps : ℕ} {end? : Option Status} (h : (VmPoint.running vm m).Balanced log)
    (hround : runRound hal maxSteps m = .ok (end?, m')) (htrace : m'.trace = m.trace ++ events) :
    (VmPoint.running vm m').Balanced (log ++ events) := by
  obtain ⟨p, t, rfl, hpid, hbalance⟩ := h
  obtain ⟨p', events', rfl, q, hlocal, hquiet, -⟩ := runRound_compat hround
  obtain rfl : events' = events := List.append_cancel_left htrace
  refine ⟨p', _, rfl, (hquiet.pid.trans hlocal.pid).trans hpid, ?_⟩
  rw [hquiet.mailbox]
  rw [← hpid] at hbalance ⊢
  exact hbalance.intake hlocal.intake

theorem VmExecution.balanced {point : VmPoint} {log : Trace}
    (h : VmExecution hal cond (mbVmInit program) point log) : point.Balanced log := by
  induction h with
  | init => exact ⟨Inbox.empty, Mailbox.zero_holds, rfl⟩
  | push before call ih =>
      obtain ⟨⟨rc, mb⟩, hmb, call⟩ := bind_eq_ok.mp call
      cases call
      exact ih.push hmb
  | pop before call ih =>
      obtain ⟨popped, hmb, call⟩ := bind_eq_ok.mp call
      rcases popped with _ | ⟨cmd, mb⟩
      · cases call
        simpa using ih
      · cases call
        exact ih.pop hmb
  | enter before ih => exact ⟨_, _, rfl, rfl, ih⟩
  | next before meets round trace ih => exact ih.round round trace
  | leave before meets round trace ih =>
      obtain ⟨p, t, hm, -, hbalance⟩ := ih.round round trace
      rw [hm]
      exact hbalance

end Vm

/-- What a register reads as fits into a register. -/
theorem held_getSmallint (t : Term) : held (getSmallint t) = getSmallint t := by
  rw [held_eq_iff, getSmallint, BitVec.toInt_sshiftRight, Int.shiftRight_eq_div_pow]
  have hlo := BitVec.le_toInt t
  have hhi := BitVec.toInt_lt (x := t)
  omega

theorem Process.held_command (p : Process) (rType rA rB rC rD : Reg) :
    (p.command rType rA rB rC rD).held = p.command rType rA rB rC rD := by
  simp only [Command.held, Process.command, Process.int, held_getSmallint]

/-- A command that `mb_sched_send` or `mb_vm_mailbox_push` accepts is carried by the registers
of the `RECV_CMD` that takes it; and one that a `SEND` reports as accepted gives them the same
five integers the registers of the sender read as. -/
theorem messages_arrive (hal : Hal) :
    (∀ (sys sys' : System) (dst : Byte) (cmd : Command), Runs hal sys →
      mbSchedSend sys dst cmd = .ok (.ok, sys') →
      ∃ i, mbSchedProc sys.sched dst = .ok (some i) ∧
        ∀ (later : System) (rType rA rB rC rD : Reg) (next : ℕ),
          AtTurn hal i sys.trace sys'.trace later →
          decode (later.sched.proc i).program (later.sched.proc i).pc =
            (.ok (.recvCmd rType rA rB rC rD), next) →
          [rType, rA, rB, rC, rD].Nodup →
          ∃ taken : System, mbProcStep hal (later.machine i) = .ok (.ok, taken.machine i) ∧
            taken.trace = later.trace ++ [.pop i.pid cmd] ∧
            (taken.sched.proc i).Carries rType rA rB rC rD cmd) ∧
    (∀ (program : List Byte) (vm vm' : VmState) (t log : Trace) (cmd : Command),
      VmExecution hal (fun _ => True) (mbVmInit program) (.idle vm t) log →
      mbVmMailboxPush vm cmd = .ok (.ok, vm') →
      ∀ (later : VmState) (m : Machine) (log' : Trace) (rType rA rB rC rD : Reg) (next : ℕ),
        VmExecution hal (fun _ => True) (mbVmInit program) (.running later m) log' →
        log ++ [.push 0 cmd .ok] <+: log' →
        (received 0 log').length = (delivered 0 log).length → m.proc.halted = false →
        decode m.proc.program m.proc.pc = (.ok (.recvCmd rType rA rB rC rD), next) →
        [rType, rA, rB, rC, rD].Nodup →
        ∃ taken : Machine, mbProcStep hal m = .ok (.ok, taken) ∧
          taken.trace = m.trace ++ [.pop 0 cmd] ∧
          taken.proc.Carries rType rA rB rC rD cmd) ∧
    ∀ (self : Slot) (sys sys' : System) (rc : Status) (rPid sType sA sB sC sD : Reg) (next : ℕ),
      Dispatched hal self sys →
      decode (sys.sched.proc self).program (sys.sched.proc self).pc =
        (.ok (.send rPid sType sA sB sC sD), next) →
      mbProcStep hal (sys.machine self) = .ok (rc, sys'.machine self) →
      (sys'.sched.proc self).reg rPid = makeSmallint Status.ok.code →
      ∃ i, mbSchedProc sys.sched (((sys.sched.proc self).int rPid).setWidth 8) = .ok (some i) ∧
        ∀ (later : System) (rType rA rB rC rD : Reg) (next' : ℕ),
          AtTurn hal i sys.trace sys'.trace later →
          decode (later.sched.proc i).program (later.sched.proc i).pc =
            (.ok (.recvCmd rType rA rB rC rD), next') →
          [rType, rA, rB, rC, rD].Nodup →
          ∃ taken : System, mbProcStep hal (later.machine i) = .ok (.ok, taken.machine i) ∧
            (taken.sched.proc i).command rType rA rB rC rD =
              (sys.sched.proc self).command sType sA sB sC sD := by
  refine ⟨fun sys sys' dst cmd hr hsend => ?_, ?_, ?_⟩
  · obtain ⟨i, hi, htrace⟩ := mbSchedSend_event (table_invariant.runs hr) hsend
    refine ⟨i, hi, fun later rType rA rB rC rD next hturn hd hnodup => ?_⟩
    rw [htrace] at hturn
    obtain ⟨taken, hstep, hevent, -, hcarries⟩ := hturn.takes hd hnodup
    exact ⟨taken, hstep, hevent, hcarries⟩
  · intro program vm vm' t log cmd _ _ later m log' rType rA rB rC rD next hx hlater hturn hh hd
      hnodup
    obtain ⟨p, t', rfl, hpid, q, hholds, hbalance⟩ := hx.balanced
    obtain ⟨rest, hfront⟩ := front_of_turn hlater hbalance hturn
    obtain ⟨hvalid, mb, hpop⟩ := hholds.pop_front hfront
    obtain ⟨p', hstep, -, hcarries⟩ := mbProcStep_carries hal hh hd hnodup hvalid hpop
    refine ⟨_, hstep, ?_, hcarries⟩
    have hevent : (⟨.compat p, t'⟩ : Machine).proc.pid = 0 := hpid
    rw [hevent]
    rfl
  · intro self sys sys' rc rPid sType sA sB sC sD next hdisp hdec hstep haccept
    obtain ⟨i, hi, htrace⟩ := mbProcStep_send_event hdisp hdec hstep haccept
    refine ⟨i, hi, fun later rType rA rB rC rD next' hturn hd hnodup => ?_⟩
    rw [htrace] at hturn
    obtain ⟨taken, hstep', -, hcommand, -⟩ := hturn.takes hd hnodup
    exact ⟨taken, hstep', by rw [hcommand, Process.held_command]⟩

/-- A waiting `RECV_CMD` is sent a duty of 500, and its registers carry it; so do those of a VM
that it is pushed to. -/
theorem messages_arrive_receiver : ∃ (sys sys' later taken : System) (vm : VmState)
    (m : Machine),
    runCalls idleHal System.init [.spawn receiver, .tick] = .ok sys ∧
    mbSchedSend sys 1 ⟨2, 0, 500, 0, 4⟩ = .ok (.ok, sys') ∧
    AtTurn idleHal 0 sys.trace sys'.trace later ∧
    mbProcStep idleHal (later.machine 0) = .ok (.ok, taken.machine 0) ∧
    taken.trace = later.trace ++ [.pop 1 ⟨2, 0, 500, 0, 4⟩] ∧
    (taken.sched.proc 0).Carries 0 1 2 3 4 ⟨2, 0, 500, 0, 4⟩ ∧
    mbVmMailboxPush (mbVmInit receiver) ⟨2, 0, 500, 0, 4⟩ = .ok (.ok, vm) ∧
    mbProcStep idleHal ⟨.compat (mbVmToProc vm), []⟩ = .ok (.ok, m) ∧
    m.trace = [.pop 0 ⟨2, 0, 500, 0, 4⟩] ∧ m.proc.Carries 0 1 2 3 4 ⟨2, 0, 500, 0, 4⟩ := by
  have hd : decode receiver 0 = (.ok (.recvCmd 0 1 2 3 4), 6) := rfl
  have hnodup : ([0, 1, 2, 3, 4] : List Reg).Nodup := by decide
  obtain ⟨hsent, hpushed, -⟩ := messages_arrive idleHal
  have hcalls : (runCalls idleHal System.init [.spawn receiver, .tick] >>= fun sys =>
      mbSchedSend sys 1 ⟨2, 0, 500, 0, 4⟩ >>= fun r => (mbSchedPick idleHal r.2).map fun s =>
        decide (r.1 = .ok ∧ s.1 = some 0 ∧ mbSchedProc sys.sched 1 = .ok (some 0) ∧
          r.2.trace <+: s.2.trace ∧ received 1 s.2.trace = [] ∧ delivered 1 sys.trace = [] ∧
          (s.2.sched.proc 0).program = receiver ∧ (s.2.sched.proc 0).pc = 0)) = .ok true := by
    decide +kernel
  obtain ⟨sys, hrun, hcalls⟩ := bind_eq_ok.mp hcalls
  obtain ⟨⟨rc, sys'⟩, hsend, hcalls⟩ := bind_eq_ok.mp hcalls
  obtain ⟨⟨found, sys₁⟩, hpick, hend⟩ := exists_ok_of_map _ _ _ hcalls
  obtain ⟨rfl, rfl, hproc, hlater, hreceived, hdelivered, hprogram, hpc⟩ := of_decide_eq_true hend
  have hruns : Runs idleHal sys := ⟨_, hrun⟩
  have hruns' : Runs idleHal sys' := hruns.call (c := .send 1 ⟨2, 0, 500, 0, 4⟩) (by
    show (mbSchedSend sys 1 ⟨2, 0, 500, 0, 4⟩ >>= _) = _
    rw [hsend]
    rfl)
  have hturn : AtTurn idleHal 0 sys.trace sys'.trace (sys₁.startSlice 0) := by
    refine ⟨.start hruns' hpick, hlater, ?_⟩
    show (received 1 sys₁.trace).length = (delivered 1 sys.trace).length
    rw [hreceived, hdelivered]
  obtain ⟨i, hi, htakes⟩ := hsent sys sys' 1 ⟨2, 0, 500, 0, 4⟩ hruns hsend
  obtain rfl : i = 0 := by
    rw [hproc] at hi
    cases hi
    rfl
  have hd₁ : decode ((sys₁.startSlice 0).sched.proc 0).program
      ((sys₁.startSlice 0).sched.proc 0).pc = (.ok (.recvCmd 0 1 2 3 4), 6) := by
    rw [System.startSlice, Scheduler.proc_setProc_self]
    show decode (sys₁.sched.proc 0).program (sys₁.sched.proc 0).pc = _
    rw [hprogram, hpc, hd]
  obtain ⟨taken, hstep, htrace, hcarries⟩ := htakes _ 0 1 2 3 4 6 hturn hd₁ hnodup
  have hvm : (mbVmMailboxPush (mbVmInit receiver) ⟨2, 0, 500, 0, 4⟩).map (fun r =>
      decide (r.1 = .ok ∧ (mbVmToProc r.2).halted = false ∧ (mbVmToProc r.2).program = receiver ∧
        (mbVmToProc r.2).pc = 0)) = .ok true := by
    decide +kernel
  obtain ⟨⟨rc, vm⟩, hpush, hend⟩ := exists_ok_of_map _ _ _ hvm
  obtain ⟨rfl, hhalted, hprogram', hpc'⟩ := of_decide_eq_true hend
  obtain ⟨m, hstep', htrace', hcarries'⟩ := hpushed receiver (mbVmInit receiver) vm [] []
    ⟨2, 0, 500, 0, 4⟩ .init hpush vm ⟨.compat (mbVmToProc vm), []⟩ [.push 0 ⟨2, 0, 500, 0, 4⟩ .ok]
    0 1 2 3 4 6 (.enter (.push .init hpush)) List.prefix_rfl rfl hhalted
    (by rw [← hd, ← hprogram', ← hpc']; rfl) hnodup
  exact ⟨sys, sys', _, taken, vm, m, hrun, hsend, hturn, hstep, htrace, hcarries, hpush, hstep',
    htrace', hcarries'⟩

/-- A field that `GPIO_WRITE` does not use, received by `RECV_CMD`: 2^27 reads as -2^27. -/
theorem unused_field_truncated :
    ∃ vm vm' t, mbVmMailboxPush (mbVmInit [0x20, 0, 1, 2, 3, 4]) ⟨1, 2, 1, 2 ^ 27, 0⟩ =
        .ok (.ok, vm) ∧
      mbVmStep idleHal vm [] = .ok (.ok, vm', t) ∧ t = [.pop 0 ⟨1, 2, 1, 2 ^ 27, 0⟩] ∧
      getSmallint vm'.regs[3] ≠ 2 ^ 27 := by
  obtain ⟨⟨rc, vm⟩, hpush, hrc⟩ := exists_ok_of_map
    (mbVmMailboxPush (mbVmInit [0x20, 0, 1, 2, 3, 4]) ⟨1, 2, 1, 2 ^ 27, 0⟩)
    (fun r => (r.1, (mbVmStep idleHal r.2 []).map fun s =>
      (s.1, s.2.2, getSmallint s.2.1.regs[3])))
    (.ok, .ok (.ok, [.pop 0 ⟨1, 2, 1, 2 ^ 27, 0⟩], -2 ^ 27)) (by decide +kernel)
  simp only [Prod.mk.injEq] at hrc
  obtain ⟨rfl, hstep⟩ := hrc
  obtain ⟨⟨rc, vm', t⟩, hrun, hr⟩ := exists_ok_of_map _ _ _ hstep
  simp only [Prod.mk.injEq] at hr
  obtain ⟨rfl, rfl, hreg⟩ := hr
  exact ⟨vm, vm', _, hpush, hrun, rfl, by rw [hreg]; decide⟩

end MiniBeam
