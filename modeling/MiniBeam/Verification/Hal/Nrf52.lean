import MiniBeam.Verification.Hal.Answered
import MiniBeam.Verification.Pwm

/-! The devices of the nRF52 board under bytecode: what reaches them in any run, and what a program
may conclude from an answer. -/

namespace MiniBeam

/-- The pin is touched in whole transactions: it is configured for the access, and accessed if
that was granted. -/
inductive GpioSessions : List GpioOp → Prop
  | nil : GpioSessions []
  | refused {log : List GpioOp} {rc : I32} (before : GpioSessions log) (flags : GpioFlags)
      (h : rc ≠ 0) : GpioSessions (log ++ [.configure flags rc])
  | write {log : List GpioOp} (before : GpioSessions log) (level : Bool) (rc : I32) :
      GpioSessions (log ++ [.configure .outputInactive 0, .set level rc])
  | read {log : List GpioOp} (before : GpioSessions log) (value : I32) :
      GpioSessions (log ++ [.configure .input 0, .get value])

/-- A pulse no longer than its period, on a channel of the driver. -/
structure PwmSet.Safe (s : PwmSet) : Prop where
  channel : s.channel.toNat ≤ 7
  period : 20000 ≤ s.periodNs.toNat
  pulse : s.pulseNs.toNat ≤ s.periodNs.toNat

/-- A transfer of a register number, or of a register number and its value, with a device that a
bus can address. -/
structure I2cOp.Safe (op : I2cOp) : Prop where
  bus : op.bus.toNat ≤ 1
  addr : op.addr.toNat ≤ 127
  shape : (op.tx.length = 1 ∧ op.rx.isSome) ∨ (op.tx.length = 2 ∧ op.rx = none)

structure Nrf52Log.Safe (log : Nrf52Log) : Prop where
  gpio : GpioSessions log.gpio
  pwm : ∀ s ∈ log.pwm, s.Safe
  i2c : ∀ op ∈ log.i2c, op.Safe

/-- The work a call asks for, done with success, from `s` to `s'`; `value` is what a read gave
back. The clock asks for none. -/
def HalCall.Performed (s : Nrf52Log) (value : Byte) (s' : Nrf52Log) : HalCall → Prop
  | .gpioWrite pin level => pin = 0 ∧
    s' = { s with gpio := s.gpio ++ [.configure .outputInactive 0, .set (level ≠ 0) 0] }
  | .gpioRead pin => pin = 0 ∧ ∃ read : I32, 0 ≤ read.toInt ∧ value = read.setWidth 8 ∧
    s' = { s with gpio := s.gpio ++ [.configure .input 0, .get read] }
  | .pwmSetDuty channel permille =>
    s' = { s with pwm := s.pwm ++ [⟨channel, 20000, .ofNat 32 (20 * permille.toNat), 0⟩] }
  | .pwmConfig channel frequencyHz =>
    s' = { s with pwm := s.pwm ++ [⟨channel, .ofNat 32 (1000000000 / frequencyHz.toNat), 0, 0⟩] }
  | .i2cReadReg bus addr reg =>
    s' = { s with i2c := s.i2c ++ [⟨bus, addr, [reg], some value, 0⟩] }
  | .i2cWriteReg bus addr reg written =>
    s' = { s with i2c := s.i2c ++ [⟨bus, addr, [reg, written], none, 0⟩] }
  | .monotonicMs => s' = s
  | .delayMs _ => s' = s

/-! ### One call -/

section Gpio

variable (led0 : Option GpioDevice) (log : List GpioOp)

theorem mbHalGpioWrite_cases (pin level : Byte) :
    mbHalGpioWrite led0 log pin level = (-1, log) ∨
      (∃ rc, rc ≠ 0 ∧
        mbHalGpioWrite led0 log pin level = (-1, log ++ [.configure .outputInactive rc])) ∨
      pin = 0 ∧ ∃ rc, mbHalGpioWrite led0 log pin level =
        (rc, log ++ [.configure .outputInactive 0, .set (level ≠ 0) rc]) := by
  cases led0 with
  | none => exact .inl rfl
  | some dev =>
      simp only [mbHalGpioWrite]
      split
      · exact .inl rfl
      · rename_i hready
        split
        · rename_i hrc
          exact .inr (.inl ⟨_, hrc, rfl⟩)
        · rename_i hrc
          rw [not_not] at hrc
          rw [hrc, List.append_assoc]
          exact .inr (.inr ⟨not_not.mp fun hpin => hready (.inl hpin), _, rfl⟩)

theorem mbHalGpioRead_cases (pin : Byte) :
    mbHalGpioRead led0 log pin = (-1, 0, log) ∨
      (∃ rc, rc ≠ 0 ∧ mbHalGpioRead led0 log pin = (-1, 0, log ++ [.configure .input rc])) ∨
      pin = 0 ∧ ∃ value : I32, mbHalGpioRead led0 log pin =
        if value.toInt < 0 then (-1, 0, log ++ [.configure .input 0, .get value])
        else (0, value.setWidth 8, log ++ [.configure .input 0, .get value]) := by
  cases led0 with
  | none => exact .inl rfl
  | some dev =>
      simp only [mbHalGpioRead]
      split
      · exact .inl rfl
      · rename_i hready
        split
        · rename_i hrc
          exact .inr (.inl ⟨_, hrc, rfl⟩)
        · rename_i hrc
          rw [not_not] at hrc
          rw [hrc, List.append_assoc]
          exact .inr (.inr ⟨not_not.mp fun hpin => hready (.inl hpin), _, rfl⟩)

end Gpio

section Pwm

variable (pwm0 : Pwm0) (log : List PwmSet) (channel : Byte)

theorem mbHalPwmSetDuty_cases (permille : BitVec 16) :
    mbHalPwmSetDuty pwm0 log channel permille = (-1, log) ∨
      permille.toNat ≤ 1000 ∧ ∃ rc, mbHalPwmSetDuty pwm0 log channel permille =
        (rc, log ++ [⟨channel, 20000, .ofNat 32 (20 * permille.toNat), rc⟩]) := by
  cases pwm0 with
  | none => exact .inl rfl
  | some dev =>
      simp only [mbHalPwmSetDuty]
      split
      · exact .inl rfl
      · rename_i hcheck
        have hpermille : permille.toNat ≤ 1000 := Nat.le_of_not_gt fun hgt => hcheck (.inr hgt)
        have hpulse : (20000 * permille.setWidth 32) / 1000 =
            BitVec.ofNat 32 (20 * permille.toNat) := by
          apply BitVec.eq_of_toNat_eq
          refine (PwmCall.pulseNs_setDuty channel hpermille).trans ?_
          rw [BitVec.toNat_ofNat]
          omega
        rw [hpulse]
        exact .inr ⟨hpermille, _, rfl⟩

theorem mbHalPwmConfig_cases (frequencyHz : BitVec 32) :
    mbHalPwmConfig pwm0 log channel frequencyHz = (-1, log) ∨
      frequencyHz ≠ 0 ∧ ∃ rc, mbHalPwmConfig pwm0 log channel frequencyHz =
        (rc, log ++ [⟨channel, .ofNat 32 (1000000000 / frequencyHz.toNat), 0, rc⟩]) := by
  cases pwm0 with
  | none => exact .inl rfl
  | some dev =>
      simp only [mbHalPwmConfig]
      split
      · exact .inl rfl
      · rename_i hcheck
        have hperiod : 1000000000 / frequencyHz =
            BitVec.ofNat 32 (1000000000 / frequencyHz.toNat) := by
          apply BitVec.eq_of_toNat_eq
          rw [BitVec.toNat_udiv, BitVec.toNat_ofNat]
          have hle := Nat.div_le_self 1000000000 frequencyHz.toNat
          show 1000000000 / frequencyHz.toNat = _
          exact (Nat.mod_eq_of_lt (by omega)).symm
        rw [hperiod]
        exact .inr ⟨fun hzero => hcheck (.inl hzero), _, rfl⟩

end Pwm

section I2c

variable (board : Nrf52) (log : List I2cOp) (bus addr reg : Byte)

theorem bus_le_one {bus : Byte} (h : bus = 0 ∨ bus = 1) : bus.toNat ≤ 1 := by
  rcases h with rfl | rfl <;> decide

theorem mbGetI2cBus_some {dev : I2cDevice} (h : mbGetI2cBus board log bus = some dev) :
    bus = 0 ∨ bus = 1 := by
  unfold mbGetI2cBus at h
  split at h
  · exact .inl ‹_›
  · split at h
    · exact .inr ‹_›
    · cases h

theorem mbHalI2cReadReg_cases :
    mbHalI2cReadReg board log bus addr reg = (-1, 0, log) ∨
      (bus = 0 ∨ bus = 1) ∧ ∃ rc value, mbHalI2cReadReg board log bus addr reg =
        (rc, value, log ++ [⟨bus, addr, [reg], some value, rc⟩]) := by
  unfold mbHalI2cReadReg
  split
  · exact .inl rfl
  · exact .inr ⟨mbGetI2cBus_some board log bus ‹_›, _, _, rfl⟩

theorem mbHalI2cWriteReg_cases (value : Byte) :
    mbHalI2cWriteReg board log bus addr reg value = (-1, log) ∨
      (bus = 0 ∨ bus = 1) ∧ ∃ rc, mbHalI2cWriteReg board log bus addr reg value =
        (rc, log ++ [⟨bus, addr, [reg, value], none, rc⟩]) := by
  unfold mbHalI2cWriteReg
  split
  · exact .inl rfl
  · exact .inr ⟨mbGetI2cBus_some board log bus ‹_›, _, rfl⟩

end I2c

section Call

variable (board : Nrf52) {log : Nrf52Log}

theorem GpioSessions.mbHalGpioWrite {log : List GpioOp} (h : GpioSessions log)
    (led0 : Option GpioDevice) (pin level : Byte) :
    GpioSessions (MiniBeam.mbHalGpioWrite led0 log pin level).2 := by
  rcases mbHalGpioWrite_cases led0 log pin level with hr | ⟨rc, hrc, hr⟩ | ⟨-, rc, hr⟩
  · rwa [hr]
  · rw [hr]
    exact h.refused _ hrc
  · rw [hr]
    exact h.write _ rc

theorem GpioSessions.mbHalGpioRead {log : List GpioOp} (h : GpioSessions log)
    (led0 : Option GpioDevice) (pin : Byte) :
    GpioSessions (MiniBeam.mbHalGpioRead led0 log pin).2.2 := by
  rcases mbHalGpioRead_cases led0 log pin with hr | ⟨rc, hrc, hr⟩ | ⟨-, value, hr⟩
  · rwa [hr]
  · rw [hr]
    exact h.refused _ hrc
  · rw [hr]
    split
    · exact h.read value
    · exact h.read value

theorem forall_mem_snoc {α : Type} {P : α → Prop} {l : List α} {a : α} (h : ∀ x ∈ l, P x)
    (ha : P a) : ∀ x ∈ l ++ [a], P x := by
  simp only [List.mem_append, List.mem_singleton]
  rintro x (hx | rfl)
  · exact h x hx
  · exact ha

/-- A call in range leaves the devices safe. -/
theorem Nrf52.call_safe (h : log.Safe) {call : HalCall} (hrange : call.InRange) :
    (board.call log call).2.Safe := by
  cases call with
  | gpioWrite pin level => exact ⟨h.gpio.mbHalGpioWrite _ _ _, h.pwm, h.i2c⟩
  | gpioRead pin => exact ⟨h.gpio.mbHalGpioRead _ _, h.pwm, h.i2c⟩
  | pwmSetDuty channel permille =>
      refine ⟨h.gpio, ?_, h.i2c⟩
      show ∀ s ∈ (mbHalPwmSetDuty board.pwm0 log.pwm channel permille).2, s.Safe
      rcases mbHalPwmSetDuty_cases board.pwm0 log.pwm channel permille with hr | ⟨hle, rc, hr⟩
      · rw [hr]
        exact h.pwm
      · rw [hr]
        refine forall_mem_snoc h.pwm ⟨hrange.1, Nat.le_refl _, ?_⟩
        show (BitVec.ofNat 32 (20 * permille.toNat)).toNat ≤ 20000
        rw [BitVec.toNat_ofNat, Nat.mod_eq_of_lt (by omega)]
        omega
  | pwmConfig channel frequencyHz =>
      refine ⟨h.gpio, ?_, h.i2c⟩
      show ∀ s ∈ (mbHalPwmConfig board.pwm0 log.pwm channel frequencyHz).2, s.Safe
      rcases mbHalPwmConfig_cases board.pwm0 log.pwm channel frequencyHz with hr | ⟨-, rc, hr⟩
      · rw [hr]
        exact h.pwm
      · rw [hr]
        obtain ⟨hchannel, hpos, hmax⟩ := hrange
        refine forall_mem_snoc h.pwm ⟨hchannel, ?_, Nat.zero_le _⟩
        show 20000 ≤ (BitVec.ofNat 32 (1000000000 / frequencyHz.toNat)).toNat
        have hle := Nat.div_le_self 1000000000 frequencyHz.toNat
        rw [BitVec.toNat_ofNat, Nat.mod_eq_of_lt (by omega), Nat.le_div_iff_mul_le hpos]
        omega
  | i2cReadReg bus addr reg =>
      refine ⟨h.gpio, h.pwm, ?_⟩
      show ∀ op ∈ (mbHalI2cReadReg board log.i2c bus addr reg).2.2, op.Safe
      rcases mbHalI2cReadReg_cases board log.i2c bus addr reg with hr | ⟨hbus, rc, value, hr⟩
      · rw [hr]
        exact h.i2c
      · rw [hr]
        exact forall_mem_snoc h.i2c ⟨bus_le_one hbus, hrange.2.1, .inl ⟨rfl, rfl⟩⟩
  | i2cWriteReg bus addr reg value =>
      refine ⟨h.gpio, h.pwm, ?_⟩
      show ∀ op ∈ (mbHalI2cWriteReg board log.i2c bus addr reg value).2, op.Safe
      rcases mbHalI2cWriteReg_cases board log.i2c bus addr reg value with hr | ⟨hbus, rc, hr⟩
      · rw [hr]
        exact h.i2c
      · rw [hr]
        exact forall_mem_snoc h.i2c ⟨bus_le_one hbus, hrange.2.1, .inr ⟨rfl, rfl⟩⟩
  | monotonicMs => exact h
  | delayMs ms => exact h

/-- A driver answers zero exactly when the devices have done the work. -/
theorem Nrf52.call_performed (call : HalCall) :
    (board.call log call).1.rc = 0 ↔
      call.Performed log (board.call log call).1.value (board.call log call).2 := by
  cases call with
  | gpioWrite pin level =>
      simp only [Nrf52.call, HalCall.Performed]
      rcases mbHalGpioWrite_cases board.led0 log.gpio pin level with
        hr | ⟨rc, hrc, hr⟩ | ⟨hpin, rc, hr⟩
      · simp [hr]
      · simp [hr]
      · rw [hr]
        simp [hpin]
  | gpioRead pin =>
      simp only [Nrf52.call, HalCall.Performed]
      rcases mbHalGpioRead_cases board.led0 log.gpio pin with
        hr | ⟨rc, hrc, hr⟩ | ⟨hpin, value, hr⟩
      · simp [hr]
      · simp [hr]
      · by_cases hneg : value.toInt < 0
        · rw [hr, if_pos hneg]
          refine iff_of_false (show (-1 : I32) ≠ 0 by decide) ?_
          rintro ⟨-, read, hread, -, hlog⟩
          obtain rfl : value = read := by simpa using hlog
          omega
        · rw [hr, if_neg hneg]
          exact iff_of_true rfl ⟨hpin, value, Int.not_lt.mp hneg, rfl, rfl⟩
  | pwmSetDuty channel permille =>
      simp only [Nrf52.call, HalCall.Performed]
      rcases mbHalPwmSetDuty_cases board.pwm0 log.pwm channel permille with hr | ⟨-, rc, hr⟩
      · simp [hr]
      · simp [hr]
  | pwmConfig channel frequencyHz =>
      simp only [Nrf52.call, HalCall.Performed]
      rcases mbHalPwmConfig_cases board.pwm0 log.pwm channel frequencyHz with hr | ⟨-, rc, hr⟩
      · simp [hr]
      · simp [hr]
  | i2cReadReg bus addr reg =>
      simp only [Nrf52.call, HalCall.Performed]
      rcases mbHalI2cReadReg_cases board log.i2c bus addr reg with hr | ⟨-, rc, value, hr⟩
      · simp [hr]
      · simp [hr]
  | i2cWriteReg bus addr reg value =>
      simp only [Nrf52.call, HalCall.Performed]
      rcases mbHalI2cWriteReg_cases board log.i2c bus addr reg value with hr | ⟨-, rc, hr⟩
      · simp [hr]
      · simp [hr]
  | monotonicMs => simp [Nrf52.call, HalCall.Performed]
  | delayMs ms => simp [Nrf52.call, HalCall.Performed]

end Call

/-! ### Runs -/

/-- The traces of runs: of the scheduler, between its calls and inside a slice, and of a VM of
its own. -/
def RunTrace (hal : Hal) (t : Trace) : Prop :=
  (∃ sys, Reached hal sys ∧ sys.trace = t) ∨ ∃ vm₀ vm, VmRuns hal vm₀ vm t

theorem RunTrace.answered {hal : Hal} {t : Trace} (h : RunTrace hal t) : Answered hal t := by
  rcases h with ⟨sys, hr, rfl⟩ | ⟨vm₀, vm, hr⟩
  · exact hr.answered
  · exact hr.answered

/-- Whatever programs run on the nRF52: the pin is only touched in whole transactions, every pulse
fits its period, every I2C transfer can be addressed; and a call was answered zero exactly when
the devices did its work. -/
theorem nrf52_drives {board : Trace → Nrf52} {t : Trace} (h : RunTrace (nrf52 board).hal t) :
    ((nrf52 board).after t).Safe ∧
      ∀ before pid call reply after, t = before ++ .hal pid call reply :: after →
        (reply.rc = 0 ↔ call.Performed ((nrf52 board).after before) reply.value
          ((nrf52 board).after (before ++ [.hal pid call reply]))) := by
  have hanswered := h.answered
  refine ⟨?_, fun before pid call reply after ht => ?_⟩
  · exact Backend.holds (nrf52 board) (I := Nrf52Log.Safe) ⟨.nil, nofun, nofun⟩
      (fun past log call hrange hlog => (board past).call_safe hlog hrange) hanswered
  · obtain ⟨-, -, rfl⟩ := hanswered.split ht
    rw [Backend.after_call]
    exact (board before).call_performed call

/-- A board with nothing but its PWM. -/
def pwmBoard : Nrf52 := ⟨none, readyPwm, none, none, 0⟩

/-- `0` and `500` into registers, and `CALL_BIF PWM_SET_DUTY` on them. -/
def halfDuty : List Byte :=
  [0x01, 0, 0, 0, 0, 0, 0x01, 1, 0xF4, 1, 0, 0, 0x10, 2, 2, 0, 1, 5]

/-- Half a duty is half a period. -/
theorem nrf52_drives_halfDuty : ∃ t, RunTrace (nrf52 fun _ => pwmBoard).hal t ∧
    ((nrf52 fun _ => pwmBoard).after t).Safe ∧
    ((nrf52 fun _ => pwmBoard).after t).pwm = [⟨0, 20000, 10000, 0⟩] := by
  obtain ⟨sys, hrun, hpwm⟩ := exists_ok_of_map
    (runCalls (nrf52 fun _ => pwmBoard).hal System.init [.spawn halfDuty, .tick])
    (fun sys => ((nrf52 fun _ => pwmBoard).after sys.trace).pwm) [⟨0, 20000, 10000, 0⟩]
    (by decide +kernel)
  have htrace : RunTrace (nrf52 fun _ => pwmBoard).hal sys.trace :=
    .inl ⟨sys, .inl ⟨_, hrun⟩, rfl⟩
  exact ⟨sys.trace, htrace, (nrf52_drives htrace).1, hpwm⟩

end MiniBeam
