import MiniBeam.Model.App
import MiniBeam.Verification.Commands
import MiniBeam.Verification.Compat.Execution
import MiniBeam.Verification.Scheduler.Isolation
import MiniBeam.Verification.Step.Control

/-! The command dispatcher of the ESP-IDF application, round by round. -/

namespace MiniBeam

/-! ### Rounds of a process on its own -/

/-- The machine after `n` rounds that go on. -/
inductive Rounds (hal : Hal) (maxSteps : ℕ) (m : Machine) : ℕ → Machine → Prop
  | none : Rounds hal maxSteps m 0 m
  | next {n : ℕ} {m₁ m₂ : Machine} (before : Rounds hal maxSteps m n m₁)
      (round : runRound hal maxSteps m₁ = .ok (Option.none, m₂)) : Rounds hal maxSteps m (n + 1) m₂

theorem Rounds.runLoop {hal : Hal} {maxSteps n : ℕ} {m m' : Machine}
    (h : Rounds hal maxSteps m n m') (fuel : ℕ) :
    MiniBeam.runLoop hal maxSteps (n + fuel) m = MiniBeam.runLoop hal maxSteps fuel m' := by
  induction h generalizing fuel with
  | none => rw [Nat.zero_add]
  | @next n m₁ m₂ _ round ih =>
      rw [Nat.add_assoc, Nat.add_comm 1 fuel, ih (fuel + 1), MiniBeam.runLoop, round]
      rfl

theorem runLoop_halted (hal : Hal) (maxSteps fuel : ℕ) {m : Machine} (h : m.proc.halted = true) :
    runLoop hal maxSteps (fuel + 1) m = .ok (.ok, m) := by
  rw [runLoop, runRound, if_pos (.inl h)]
  rfl

theorem mbProcStep_alone {hal : Hal} {p q : Process} {t : Trace} {i : Instr} {next : ℕ}
    {rc : Status} {events : List Event} (hh : p.halted = false)
    (hd : decode p.program p.pc = (.ok i, next)) (hi : ¬ i.IsSend)
    (hrun : i.run hal false p.pc (p.setPc next) t = .ok (rc, q, events)) :
    mbProcStep hal ⟨.compat p, t⟩ =
      .ok (rc, ⟨.compat (if rc = .ok then q else q.fail rc), t ++ events⟩) := by
  have hp : (⟨.compat p, t⟩ : Machine).proc = p := rfl
  rw [mbProcStep_exec hal (hp ▸ hh) (hp ▸ hd), execInstr_run hal _ hi, Machine.proc_setProc, hp]
  change (i.run hal false p.pc (p.setPc next) t >>= _) = _
  rw [hrun]
  rfl

/-! ### The program -/

/-- The calls that a run made, in order. -/
def Event.call? : Event → Option HalCall
  | .hal _ call _ => some call
  | _ => none

def halCalls (t : Trace) : List HalCall := t.filterMap Event.call?

/-- The HAL call of the command types that the application handles. -/
def Command.call? (cmd : Command) : Option HalCall :=
  match CommandType.ofCode? cmd.type with
  | some .gpioWrite => some (.gpioWrite (cmd.a.setWidth 8) (cmd.b.setWidth 8))
  | some .pwmSetDuty => some (.pwmSetDuty (cmd.a.setWidth 8) (cmd.b.setWidth 16))
  | some .i2cRead => some (.i2cReadReg (cmd.a.setWidth 8) (cmd.b.setWidth 8) (cmd.c.setWidth 8))
  | _ => none

/-- The run ends with `MB_OK` and the VM halted, and made the call of the command. -/
def Dispatches (hal : Hal) (cmd : Command) : Prop :=
  ∃ vm t, appMain hal cmd = .ok (.ok, vm, t) ∧ vm.halted = true ∧
    halCalls t = cmd.call?.toList

/-- A process that runs the dispatcher, after `n` rounds: the program counter, and the type of
the command in its register. -/
structure AppAt (hal : Hal) (m : Machine) (t : Trace) (type : CommandType) (pc n : ℕ)
    (p : Process) : Prop where
  rounds : Rounds hal 128 m n ⟨.compat p, t⟩
  program : p.program = appProgram
  at_pc : p.pc = pc
  running : p.halted = false
  spent : p.reductions = n
  received : p.reg 0 = makeSmallint type.code

section App

variable {hal : Hal} {m : Machine} {t : Trace} {type value : CommandType} {pc n : ℕ}
  {p : Process}

namespace AppAt

/-- A round without a HAL call that leaves the type alone. -/
theorem step {q : Process} {i : Instr} {next : ℕ} (h : AppAt hal m t type pc n p) (hn : n < 128)
    (hd : decode appProgram pc = (.ok i, next)) (hi : ¬ i.IsSend)
    (hrun : i.run hal false p.pc (p.setPc next) t = .ok (.ok, q, []))
    (hprogram : q.program = p.program) (hhalted : q.halted = false)
    (hspent : q.reductions = p.reductions) (hreg : q.reg 0 = p.reg 0) :
    AppAt hal m t type q.pc (n + 1) { q with reductions := q.reductions + 1 } := by
  have hd' : decode p.program p.pc = (.ok i, next) := by rw [h.program, h.at_pc, hd]
  have hstep := mbProcStep_alone h.running hd' hi hrun
  rw [if_pos rfl, List.append_nil] at hstep
  have hround := runRound_of_step h.running (h.spent ▸ hn) hstep
  rw [if_pos rfl] at hround
  exact ⟨h.rounds.next hround, hprogram.trans h.program, rfl, hhalted,
    by rw [hspent, h.spent], hreg.trans h.received⟩

/-- A `CONST_I32` of a command type. -/
theorem load (value : CommandType) (h : AppAt hal m t type pc n p) (hn : n < 128)
    (hd : decode appProgram pc = (.ok (.constI32 5 value.code), pc + 6)) :
    ∃ q, AppAt hal m t type (pc + 6) (n + 1) q ∧ q.reg 5 = makeSmallint value.code := by
  refine ⟨_, h.step hn hd (Instr.not_isSend nofun) rfl rfl h.running rfl ?_, ?_⟩
  · rw [Process.reg_setReg, if_neg (by decide)]
    rfl
  · change (Process.setReg _ 5 _).reg 5 = _
    rw [Process.reg_setReg, if_pos rfl]

theorem nop (h : AppAt hal m t type pc n p) (hn : n < 128)
    (hd : decode appProgram pc = (.ok .nop, pc + 1)) :
    ∃ q, AppAt hal m t type (pc + 1) (n + 1) q ∧ q.reg 5 = p.reg 5 :=
  ⟨_, h.step hn hd (Instr.not_isSend nofun) rfl rfl h.running rfl rfl, rfl⟩

/-- The difference of two command types is zero for equal ones only. -/
theorem difference_iff : makeSmallint (getSmallint (makeSmallint type.code) -
    getSmallint (makeSmallint value.code)) = makeSmallint 0 ↔ type = value := by
  cases type <;> cases value <;> decide

/-- The `SUB` of the command type loaded before. -/
theorem subtract (h : AppAt hal m t type pc n p) (hn : n < 128)
    (hvalue : p.reg 5 = makeSmallint value.code)
    (hd : decode appProgram pc = (.ok (.sub 6 0 5), pc + 4)) :
    ∃ q, AppAt hal m t type (pc + 4) (n + 1) q ∧ q.reg 5 = p.reg 5 ∧
      (q.reg 6 = makeSmallint 0 ↔ type = value) := by
  have hzero : (p.setPc (pc + 4)).int 0 = getSmallint (makeSmallint type.code) :=
    congrArg getSmallint h.received
  have hfive : (p.setPc (pc + 4)).int 5 = getSmallint (makeSmallint value.code) :=
    congrArg getSmallint hvalue
  refine ⟨_, h.step hn hd (Instr.not_isSend nofun) rfl rfl h.running rfl ?_,
    ?_, ?_⟩
  · rw [Process.reg_setReg, if_neg (by decide)]
    rfl
  · change (Process.setReg _ 6 _).reg 5 = _
    rw [Process.reg_setReg, if_neg (by decide)]
    rfl
  · change (Process.setReg _ 6 _).reg 6 = _ ↔ _
    rw [Process.reg_setReg, if_pos rfl, hzero, hfive]
    exact difference_iff

/-- The `JMP_IF_ZERO` on the difference. -/
theorem test {offset : I32} (target : ℕ) (h : AppAt hal m t type pc n p) (hn : n < 128)
    (hd : decode appProgram pc = (.ok (.jmpIfZero 6 offset), pc + 6))
    (hmin : offset.toInt ≠ -2 ^ 31) (htarget : (pc + 6 : ℤ) + offset.toInt = target)
    (hinside : target ≤ appProgram.length) :
    ∃ q, AppAt hal m t type (if p.reg 6 = makeSmallint 0 then target else pc + 6) (n + 1) q ∧
      q.reg 5 = p.reg 5 := by
  have hi : ¬ (Instr.jmpIfZero 6 offset).IsSend := Instr.not_isSend nofun
  have hzero : ((p.setPc (pc + 6)).reg 6 = makeSmallint 0) ↔ p.reg 6 = makeSmallint 0 := Iff.rfl
  by_cases hjump : p.reg 6 = makeSmallint 0
  · rw [if_pos hjump]
    have hto : jumpTo (p.setPc (pc + 6)) offset = (.ok, p.setPc target) := by
      have hpc : ((p.setPc (pc + 6)).pc : ℤ) + offset.toInt = target := by
        rw [Process.setPc_pc, ← htarget]
        omega
      rw [jumpTo_eq hmin, hpc, if_neg (by omega), if_pos (by
        rw [Process.setPc_program, h.program]
        omega)]
      rfl
    have hrun : (Instr.jmpIfZero 6 offset).run hal false p.pc (p.setPc (pc + 6)) t =
        .ok (.ok, p.setPc target, []) := by
      rw [Instr.run, if_pos (hzero.mpr hjump), hto]
      rfl
    exact ⟨_, h.step hn hd hi hrun rfl h.running rfl rfl, rfl⟩
  · rw [if_neg hjump]
    have hrun : (Instr.jmpIfZero 6 offset).run hal false p.pc (p.setPc (pc + 6)) t =
        .ok (.ok, p.setPc (pc + 6), []) := by
      rw [Instr.run, if_neg (hzero.not.mpr hjump)]
      rfl
    exact ⟨_, h.step hn hd hi hrun rfl h.running rfl rfl, rfl⟩

/-- A `SUB` and a `JMP_IF_ZERO`: a jump exactly for the command type loaded before. -/
theorem branch (offset : I32) (target : ℕ) (h : AppAt hal m t type pc n p) (hn : n < 127)
    (hvalue : p.reg 5 = makeSmallint value.code)
    (hsub : decode appProgram pc = (.ok (.sub 6 0 5), pc + 4))
    (hjump : decode appProgram (pc + 4) = (.ok (.jmpIfZero 6 offset), pc + 4 + 6))
    (hmin : offset.toInt ≠ -2 ^ 31) (htarget : (pc + 10 : ℤ) + offset.toInt = target)
    (hinside : target ≤ appProgram.length) :
    ∃ q, AppAt hal m t type (if type = value then target else pc + 10) (n + 2) q ∧
      q.reg 5 = makeSmallint value.code := by
  obtain ⟨q, hq, hfive, hsix⟩ := h.subtract (by omega) hvalue hsub
  obtain ⟨r, hr, hkeep⟩ := hq.test target (by omega) hjump hmin (by omega) hinside
  simp only [hsix] at hr
  exact ⟨r, hr, hkeep.trans (hfive.trans hvalue)⟩

/-- The way out at the `HALT` behind the tests. -/
theorem halts (h : AppAt hal m t type 54 n p) (hn : n < 127) :
    ∃ q, runLoop hal 128 129 m = .ok (.ok, ⟨.compat q, t⟩) ∧ q.halted = true := by
  have hd : decode p.program p.pc = (.ok .halt, 55) := by
    rw [h.program, h.at_pc]
    decide +kernel
  have hstep := mbProcStep_alone (t := t) h.running hd
    (Instr.not_isSend nofun) (rfl : Instr.run hal false _ _ _ .halt = .ok _)
  have hround := runRound_of_step h.running (h.spent ▸ Nat.lt_succ_of_lt hn) hstep
  rw [if_pos rfl, if_pos rfl, List.append_nil] at hround
  have hrun := (h.rounds.next hround).runLoop (129 - (n + 1))
  rw [Nat.add_sub_cancel' (by omega)] at hrun
  obtain ⟨fuel, hfuel⟩ : ∃ fuel, 129 - (n + 1) = fuel + 1 := ⟨127 - n, by omega⟩
  rw [hfuel] at hrun
  exact ⟨_, hrun.trans (runLoop_halted hal 128 fuel rfl), rfl⟩

/-- The way out at a byte that is no opcode. -/
theorem refused (h : AppAt hal m t type 67 n p) (hn : n < 127) :
    ∃ q, runLoop hal 128 129 m = .ok (.badOpcode, ⟨.compat q, t⟩) := by
  have hd : decode p.program p.pc = (.error .badOpcode, 68) := by
    rw [h.program, h.at_pc]
    decide +kernel
  have hproc : (⟨.compat p, t⟩ : Machine).proc = p := rfl
  have hstep : mbProcStep hal ⟨.compat p, t⟩ =
      .ok (.badOpcode, ⟨.compat ((p.setPc 68).fail .badOpcode), t⟩) := by
    rw [mbProcStep_eq, hproc, if_neg (by simp [h.running]), hd]
    rfl
  have hround := runRound_of_step h.running (h.spent ▸ Nat.lt_succ_of_lt hn) hstep
  rw [if_neg (by decide)] at hround
  have hrun := h.rounds.runLoop (129 - n)
  rw [Nat.add_sub_cancel' (by omega)] at hrun
  obtain ⟨fuel, hfuel⟩ : ∃ fuel, 129 - n = fuel + 1 := ⟨128 - n, by omega⟩
  have hlast : runLoop hal 128 (fuel + 1) ⟨.compat p, t⟩ =
      .ok (.badOpcode, ⟨.compat ((p.setPc 68).fail .badOpcode), t⟩) := by
    rw [runLoop, hround]
    rfl
  rw [hfuel] at hrun
  exact ⟨_, hrun.trans hlast⟩

/-- The second byte of the second `CALL_BIF` is a `MOVE`, which ends on its last. -/
theorem strays (h : AppAt hal m t type 63 n p) (hn : n < 126) :
    ∃ q, runLoop hal 128 129 m = .ok (.badOpcode, ⟨.compat q, t⟩) := by
  have hd : decode appProgram 63 = (.ok (.move 2 1 2), 67) := by decide +kernel
  have hmoved := h.step (by omega) hd (Instr.not_isSend nofun) rfl rfl
    h.running rfl (by rw [Process.reg_setReg, if_neg (by decide)]; rfl)
  exact hmoved.refused (by omega)

end AppAt

/-- The tests, from behind the `RECV_CMD`. The jump of the first aims one byte before the second
test, that of the second one byte before the `HALT`, and that of the third into the second of
the calls. -/
theorem AppAt.ends (h : AppAt hal m t type 6 1 p) :
    ∃ rc q, runLoop hal 128 129 m = .ok (rc, ⟨.compat q, t⟩) ∧
      (type ∉ [.gpioWrite, .pwmSetDuty, .i2cRead] → rc = .ok ∧ q.halted = true) := by
  obtain ⟨p₁, h₁, hfive₁⟩ := h.load .gpioWrite (by decide) (by decide +kernel)
  obtain ⟨p₂, h₂, hfive₂⟩ := h₁.branch 21 43 (by decide) hfive₁ (by decide +kernel)
    (by decide +kernel) (by decide) (by decide) (by decide)
  by_cases hgpio : type = .gpioWrite
  · rw [if_pos hgpio] at h₂
    obtain ⟨p₃, h₃, hfive₃⟩ := h₂.nop (by decide) (by decide +kernel)
    obtain ⟨p₄, h₄, -⟩ := h₃.branch 9 63 (by decide) (hfive₃.trans hfive₂) (by decide +kernel)
      (by decide +kernel) (by decide) (by decide) (by decide)
    rw [if_pos hgpio] at h₄
    obtain ⟨q, hq⟩ := h₄.strays (by decide)
    exact ⟨_, q, hq, fun hother => absurd hgpio (by rintro rfl; simp at hother)⟩
  rw [if_neg hgpio] at h₂
  obtain ⟨p₃, h₃, hfive₃⟩ := h₂.load .pwmSetDuty (by decide) (by decide +kernel)
  obtain ⟨p₄, h₄, hfive₄⟩ := h₃.branch 15 53 (by decide) hfive₃ (by decide +kernel)
    (by decide +kernel) (by decide) (by decide) (by decide)
  by_cases hpwm : type = .pwmSetDuty
  · rw [if_pos hpwm] at h₄
    obtain ⟨p₅, h₅, -⟩ := h₄.nop (by decide) (by decide +kernel)
    obtain ⟨q, hq, hhalted⟩ := h₅.halts (by decide)
    exact ⟨_, q, hq, fun _ => ⟨rfl, hhalted⟩⟩
  rw [if_neg hpwm] at h₄
  obtain ⟨p₅, h₅, hfive₅⟩ := h₄.load .i2cRead (by decide) (by decide +kernel)
  obtain ⟨p₆, h₆, -⟩ := h₅.branch 9 63 (by decide) hfive₅ (by decide +kernel)
    (by decide +kernel) (by decide) (by decide) (by decide)
  by_cases hi2c : type = .i2cRead
  · rw [if_pos hi2c] at h₆
    obtain ⟨q, hq⟩ := h₆.strays (by decide)
    exact ⟨_, q, hq, fun hother => absurd hi2c (by rintro rfl; simp at hother)⟩
  · rw [if_neg hi2c] at h₆
    obtain ⟨q, hq, hhalted⟩ := h₆.halts (by decide)
    exact ⟨_, q, hq, fun _ => ⟨rfl, hhalted⟩⟩

/-- The `RECV_CMD` of a valid command. -/
theorem AppAt.receives {cmd : Command} {mb mb' : Mailbox} (hal : Hal)
    (hvalid : mbValidateCommand cmd = .ok) (htype : cmd.type = type.code)
    (hpop : mbMailboxPopRaw mb = .ok (some (cmd, mb'))) :
    ∃ p, AppAt hal ⟨.compat (mbVmToProc { mbVmInit appProgram with mailbox := mb }), []⟩
      [.pop 0 cmd] type 6 1 p := by
  have hd : decode appProgram 0 = (.ok (.recvCmd 0 1 2 3 4), 6) := by decide +kernel
  have hstep := mbProcStep_recv hal
    (m := ⟨.compat (mbVmToProc { mbVmInit appProgram with mailbox := mb }), []⟩) rfl hd hpop
  rw [if_pos hvalid] at hstep
  have hround := runRound_of_step rfl (Nat.zero_lt_succ 127) hstep
  rw [if_pos rfl] at hround
  refine ⟨_, Rounds.none.next hround, rfl, rfl, rfl, rfl, ?_⟩
  rw [← htype]
  change (Process.loadCommand _ 0 1 2 3 4 cmd).reg 0 = _
  simp only [Process.loadCommand, Process.reg_setReg]
  rfl

end App

/-- When the application does what the command says: for the command types it has no branch
for. -/
theorem dispatches_iff (hal : Hal) {cmd : Command} (hvalid : mbValidateCommand cmd = .ok) :
    Dispatches hal cmd ↔ cmd.type ∉ [CommandType.gpioWrite.code, CommandType.pwmSetDuty.code,
      CommandType.i2cRead.code] := by
  obtain ⟨type, htype⟩ := type_of_valid hvalid
  have hempty : (Inbox.empty.push cmd).1 = .ok := by
    rw [Inbox.push, dif_pos hvalid]
    rfl
  obtain ⟨mb, hpush, hholds, -⟩ := Mailbox.push_refines Mailbox.zero_holds cmd
  rw [hempty] at hpush
  have hqueue : (Inbox.empty.push cmd).2.queue = [cmd] := by
    rw [Inbox.push_queue, if_pos hempty]
    rfl
  obtain ⟨-, mb', hpop⟩ := hholds.pop_front hqueue
  obtain ⟨p, hp⟩ := AppAt.receives hal hvalid htype hpop
  obtain ⟨rc, q, hrun, hother⟩ := hp.ends
  have hmain : appMain hal cmd = .ok (rc, mbProcToVm q { mbVmInit appProgram with mailbox := mb },
      [.pop 0 cmd]) := by
    have hvm : mbVmMailboxPush (mbVmInit appProgram) cmd =
        .ok (.ok, { mbVmInit appProgram with mailbox := mb }) := by
      rw [mbVmMailboxPush]
      change (mbMailboxPushRaw Mailbox.zero cmd >>= _) = _
      rw [hpush]
      rfl
    rw [appMain, hvm, ok_bind]
    dsimp only
    have hproc : mbProcRun hal 129 128
        ⟨.compat (mbVmToProc { mbVmInit appProgram with mailbox := mb }), []⟩ =
          .ok (rc, ⟨.compat q, [.pop 0 cmd]⟩) := hrun
    rw [if_neg (by decide), mbVmRun, hproc]
    rfl
  have hhandled : cmd.call? = none ↔ type ∉ [.gpioWrite, .pwmSetDuty, .i2cRead] := by
    rw [Command.call?, htype]
    cases type <;> simp [CommandType.ofCode?, CommandType.code]
  have hcodes : cmd.type ∉ [CommandType.gpioWrite.code, CommandType.pwmSetDuty.code,
      CommandType.i2cRead.code] ↔ type ∉ [.gpioWrite, .pwmSetDuty, .i2cRead] := by
    rw [htype]
    cases type <;> decide
  rw [hcodes, ← hhandled]
  constructor
  · rintro ⟨vm, t, hok, -, hcalls⟩
    rw [hmain] at hok
    cases hok
    cases hcall : cmd.call? with
    | none => rfl
    | some call =>
        rw [hcall] at hcalls
        cases hcalls
  · intro hnone
    obtain ⟨rfl, hhalted⟩ := hother (hhandled.mp hnone)
    exact ⟨_, _, hmain, hhalted, by rw [hnone]; rfl⟩

/-- The command that `app_main` queues. -/
def gpioOn : Command := ⟨CommandType.gpioWrite.code, 2, 1, 0, 0⟩

theorem dispatches_iff_gpioOn : mbValidateCommand gpioOn = .ok ∧
    (Dispatches idleHal gpioOn ↔ gpioOn.type ∉ [CommandType.gpioWrite.code,
      CommandType.pwmSetDuty.code, CommandType.i2cRead.code]) :=
  ⟨by decide, dispatches_iff idleHal (by decide)⟩

/-- The run of it stops at an operand byte, and the pin is not written. -/
theorem gpio_not_written : mbValidateCommand gpioOn = .ok ∧
    (appMain idleHal gpioOn).map (fun r => (r.1, r.2.1.pc, halCalls r.2.2)) =
      .ok (.badOpcode, 68, []) ∧
    ¬ Dispatches idleHal gpioOn := by
  have hrun : (appMain idleHal gpioOn).map (fun r => (r.1, r.2.1.pc, halCalls r.2.2)) =
      .ok (.badOpcode, 68, []) := by
    decide +kernel
  refine ⟨by decide, hrun, ?_⟩
  rintro ⟨vm, t, hok, -⟩
  rw [hok] at hrun
  cases hrun

end MiniBeam
