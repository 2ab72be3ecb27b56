import MiniBeam.Model.EspIdf
import MiniBeam.Verification.Hal.Nrf52

/-! The drivers of ESP-IDF under bytecode: in any run every duty fits the resolution of the timer,
and every device that was added to an I2C bus is removed again. -/

namespace MiniBeam

/-- The calls into ESP-IDF come in whole transactions. Of those on I2C, one that was granted a
device uses that device once and removes it. -/
inductive EspSessions : List EspOp → Prop
  | nil : EspSessions []
  | setLevel {log : List EspOp} (before : EspSessions log) {pin : Byte} {level : BitVec 32}
      (err : I32) (hpin : pin.toNat ≤ 39) (hlevel : level.toNat ≤ 1) :
      EspSessions (log ++ [.gpioSetLevel pin level err])
  | getLevel {log : List EspOp} (before : EspSessions log) {pin : Byte} (level : I32)
      (hpin : pin.toNat ≤ 39) : EspSessions (log ++ [.gpioGetLevel pin level])
  | duty {log : List EspOp} (before : EspSessions log) {channel : Byte} {duty : BitVec 32}
      {err : I32} (h : err ≠ 0) (hchannel : channel.toNat ≤ 7) (hduty : duty.toNat ≤ 8191) :
      EspSessions (log ++ [.ledcSetDuty channel duty err])
  | update {log : List EspOp} (before : EspSessions log) {channel : Byte} {duty : BitVec 32}
      (err : I32) (hchannel : channel.toNat ≤ 7) (hduty : duty.toNat ≤ 8191) :
      EspSessions (log ++ [.ledcSetDuty channel duty 0, .ledcUpdateDuty channel err])
  | timer {log : List EspOp} (before : EspSessions log) {channel : Byte} {freqHz : BitVec 32}
      (err : I32) (hchannel : channel.toNat ≤ 7) (hpos : 0 < freqHz.toNat)
      (hmax : freqHz.toNat ≤ 40000) : EspSessions (log ++ [.ledcTimerConfig channel freqHz err])
  | refused {log : List EspOp} (before : EspSessions log) {bus addr : Byte} (handle : ℕ) {err : I32}
      (h : err ≠ 0) (hbus : bus.toNat ≤ 3) (haddr : addr.toNat ≤ 127) :
      EspSessions (log ++ [.addDevice bus addr handle err])
  | read {log : List EspOp} (before : EspSessions log) {bus addr : Byte} (reg value : Byte)
      (handle : ℕ) (err err' : I32) (hbus : bus.toNat ≤ 3) (haddr : addr.toNat ≤ 127) :
      EspSessions (log ++ [.addDevice bus addr handle 0, .transmitReceive handle [reg] value err,
        .rmDevice handle err'])
  | write {log : List EspOp} (before : EspSessions log) {bus addr : Byte} (reg value : Byte)
      (handle : ℕ) (err err' : I32) (hbus : bus.toNat ≤ 3) (haddr : addr.toNat ≤ 127) :
      EspSessions (log ++ [.addDevice bus addr handle 0, .transmit handle [reg, value] err,
        .rmDevice handle err'])

/-- The work a call asks for, done with success, from `log` to `log'`; `value` is what a read gave
back. Whether a device could be removed does not matter to it. -/
def HalCall.EspPerformed (log : List EspOp) (value : Byte) (log' : List EspOp) : HalCall → Prop
  | .gpioWrite pin level => log' = log ++ [.gpioSetLevel pin (if level ≠ 0 then 1 else 0) 0]
  | .gpioRead pin => ∃ level : I32, value = level.setWidth 8 ∧
    log' = log ++ [.gpioGetLevel pin level]
  | .pwmSetDuty channel permille =>
    log' = log ++ [.ledcSetDuty channel (.ofNat 32 (permille.toNat * 8191 / 1000)) 0,
      .ledcUpdateDuty channel 0]
  | .pwmConfig channel frequencyHz => log' = log ++ [.ledcTimerConfig channel frequencyHz 0]
  | .i2cReadReg bus addr reg => ∃ handle err, log' = log ++ [.addDevice bus addr handle 0,
      .transmitReceive handle [reg] value 0, .rmDevice handle err]
  | .i2cWriteReg bus addr reg written => ∃ handle err, log' = log ++ [.addDevice bus addr handle 0,
      .transmit handle [reg, written] 0, .rmDevice handle err]
  | .monotonicMs => log' = log
  | .delayMs _ => log' = log

/-- A duty in permille on the scale of 13 bits, which the 32-bit product does not distort. -/
theorem toNat_duty {permille : BitVec 16} (h : permille.toNat ≤ 1000) :
    ((permille.setWidth 32 * 8191) / 1000 : BitVec 32).toNat = permille.toNat * 8191 / 1000 := by
  have hp : (permille.setWidth 32).toNat = permille.toNat := by
    rw [BitVec.toNat_setWidth, Nat.mod_eq_of_lt (by omega)]
  have hproduct : (permille.setWidth 32 * 8191 : BitVec 32).toNat = permille.toNat * 8191 := by
    rw [BitVec.toNat_mul, hp]
    exact Nat.mod_eq_of_lt (by simp; omega)
  rw [BitVec.toNat_udiv, hproduct]
  rfl

section Call

variable (esp : Esp) {log : List EspOp}

/-- A call in range is one transaction, or none. -/
theorem Esp.call_sessions (h : EspSessions log) {call : HalCall} (hrange : call.InRange) :
    EspSessions (esp.call log call).2 := by
  cases call with
  | gpioWrite pin level =>
      refine h.setLevel _ hrange.1 ?_
      split <;> decide
  | gpioRead pin => exact h.getLevel _ hrange
  | pwmSetDuty channel permille =>
      obtain ⟨hchannel, hpermille⟩ := hrange
      have hduty : ((permille.setWidth 32 * 8191) / 1000 : BitVec 32).toNat ≤ 8191 := by
        rw [toNat_duty hpermille]
        omega
      simp only [Esp.call, EspIdf.mbHalPwmSetDuty]
      rw [if_neg (Nat.not_lt.mpr hpermille)]
      split
      · rename_i herr
        exact h.duty herr hchannel hduty
      · rename_i herr
        rw [not_not] at herr
        rw [herr, List.append_assoc]
        exact h.update _ hchannel hduty
  | pwmConfig channel frequencyHz => exact h.timer _ hrange.1 hrange.2.1 hrange.2.2
  | i2cReadReg bus addr reg =>
      simp only [Esp.call, EspIdf.mbHalI2cReadReg]
      split
      · rename_i herr
        exact h.refused _ herr hrange.1 hrange.2.1
      · rename_i herr
        rw [not_not] at herr
        rw [herr, List.append_assoc, List.append_assoc]
        exact h.read _ _ _ _ _ hrange.1 hrange.2.1
  | i2cWriteReg bus addr reg value =>
      simp only [Esp.call, EspIdf.mbHalI2cWriteReg]
      split
      · rename_i herr
        exact h.refused _ herr hrange.1 hrange.2.1
      · rename_i herr
        rw [not_not] at herr
        rw [herr, List.append_assoc, List.append_assoc]
        exact h.write _ _ _ _ _ hrange.1 hrange.2.1
  | monotonicMs => exact h
  | delayMs ms => exact h

theorem espResult_eq_zero {err : I32} : espResult err = 0#32 ↔ err = 0#32 := by
  by_cases h : err = 0
  · exact iff_of_true (if_pos h) h
  · refine iff_of_false ?_ h
    rw [espResult, if_neg h]
    decide

/-- A driver answers zero exactly when ESP-IDF has done the work. -/
theorem Esp.call_performed {call : HalCall} (hrange : call.InRange) :
    (esp.call log call).1.rc = 0 ↔
      call.EspPerformed log (esp.call log call).1.value (esp.call log call).2 := by
  cases call with
  | gpioWrite pin level =>
      simp [Esp.call, EspIdf.mbHalGpioWrite, HalCall.EspPerformed, espResult_eq_zero]
  | gpioRead pin => exact iff_of_true rfl ⟨_, rfl, rfl⟩
  | pwmSetDuty channel permille =>
      have hduty : (permille.setWidth 32 * 8191) / 1000 =
          BitVec.ofNat 32 (permille.toNat * 8191 / 1000) := by
        apply BitVec.eq_of_toNat_eq
        rw [toNat_duty hrange.2, BitVec.toNat_ofNat, Nat.mod_eq_of_lt]
        have hle := hrange.2
        omega
      simp only [Esp.call, EspIdf.mbHalPwmSetDuty, HalCall.EspPerformed]
      rw [if_neg (Nat.not_lt.mpr hrange.2), ← hduty]
      split
      · simp
      · rename_i herr
        rw [not_not] at herr
        simp only [herr, List.append_assoc, List.append_cancel_left_eq]
        simp [espResult_eq_zero]
  | pwmConfig channel frequencyHz =>
      simp [Esp.call, EspIdf.mbHalPwmConfig, HalCall.EspPerformed, espResult_eq_zero]
  | i2cReadReg bus addr reg =>
      simp only [Esp.call, EspIdf.mbHalI2cReadReg, HalCall.EspPerformed]
      split
      · simp
      · rename_i herr
        rw [not_not] at herr
        simp [herr, espResult_eq_zero]
  | i2cWriteReg bus addr reg value =>
      simp only [Esp.call, EspIdf.mbHalI2cWriteReg, HalCall.EspPerformed]
      split
      · simp
      · rename_i herr
        rw [not_not] at herr
        simp [herr, espResult_eq_zero]
  | monotonicMs => exact iff_of_true rfl rfl
  | delayMs ms => exact iff_of_true rfl rfl

end Call

/-! ### Devices on the buses -/

def EspOp.attach (handles : List ℕ) : EspOp → List ℕ
  | .addDevice _ _ handle err => if err = 0 then handle :: handles else handles
  | .rmDevice handle err => if err = 0 then handles.erase handle else handles
  | _ => handles

/-- The handles given out and not removed yet, latest first. -/
def attached (log : List EspOp) : List ℕ := log.foldl EspOp.attach []

theorem attached_append (log ops : List EspOp) :
    attached (log ++ ops) = ops.foldl EspOp.attach (attached log) := List.foldl_append

/-- Unless ESP-IDF refuses to remove a device, none is left behind. -/
theorem EspSessions.attached_eq {log : List EspOp} (h : EspSessions log)
    (hrm : ∀ handle err, .rmDevice handle err ∈ log → err = 0) : attached log = [] := by
  induction h with
  | nil => rfl
  | refused before handle herr _ _ ih =>
      have hrest := ih fun handle err hmem => hrm handle err (List.mem_append_left _ hmem)
      rw [attached_append, hrest]
      exact if_neg herr
  | read before reg value handle err err' _ _ ih | write before reg value handle err err' _ _ ih =>
      have hrest := ih fun handle err hmem => hrm handle err (List.mem_append_left _ hmem)
      obtain rfl := hrm handle err' (by simp)
      rw [attached_append, hrest]
      simp [EspOp.attach]
  | _ =>
      rename_i ih
      have hrest := ih fun handle err hmem => hrm handle err (List.mem_append_left _ hmem)
      rw [attached_append, hrest]
      rfl

/-- Whatever programs run on the ESP32: the calls into ESP-IDF come in whole transactions in the
ranges of its drivers, an I2C bus is left without devices unless one cannot be removed, and a
call was answered zero exactly when ESP-IDF did its work. -/
theorem espIdf_drives {esp : Trace → Esp} {t : Trace} (h : RunTrace (espIdf esp).hal t) :
    EspSessions ((espIdf esp).after t) ∧
      ((∀ handle err, .rmDevice handle err ∈ (espIdf esp).after t → err = 0) →
        attached ((espIdf esp).after t) = []) ∧
      ∀ before pid call reply after, t = before ++ .hal pid call reply :: after →
        (reply.rc = 0 ↔ call.EspPerformed ((espIdf esp).after before) reply.value
          ((espIdf esp).after (before ++ [.hal pid call reply]))) := by
  have hanswered := h.answered
  have hsessions : EspSessions ((espIdf esp).after t) :=
    Backend.holds (espIdf esp) (I := EspSessions) .nil
      (fun past log call hrange hlog => (esp past).call_sessions hlog hrange) hanswered
  refine ⟨hsessions, hsessions.attached_eq, fun before pid call reply after ht => ?_⟩
  obtain ⟨-, hrange, rfl⟩ := hanswered.split ht
  rw [Backend.after_call]
  exact (esp before).call_performed hrange

/-- An ESP32 on which everything works. -/
def workingEsp : Esp where
  gpioSetLevel _ _ _ := 0
  gpioGetLevel _ _ := 0
  ledcSetDuty _ _ _ := 0
  ledcUpdateDuty _ _ := 0
  ledcTimerConfig _ _ _ := 0
  addDevice _ _ _ := (7, 0)
  transmitReceive _ _ _ := (0xAB, 0)
  transmit _ _ _ := 0
  rmDevice _ _ := 0
  timerUs := 0

/-- Register `0x92` of the device `0x39` on bus 0 into a register. -/
def readOnce : List Byte :=
  [0x01, 0, 0, 0, 0, 0, 0x01, 1, 0x39, 0, 0, 0, 0x01, 2, 0x92, 0, 0, 0, 0x10, 3, 3, 0, 1, 2, 5]

/-- One read by a VM of its own: the device is added, read and removed. -/
theorem espIdf_drives_readOnce : ∃ t, RunTrace (espIdf fun _ => workingEsp).hal t ∧
    (espIdf fun _ => workingEsp).after t = [.addDevice 0 0x39 7 0,
      .transmitReceive 7 [0x92] 0xAB 0, .rmDevice 7 0] ∧
    EspSessions ((espIdf fun _ => workingEsp).after t) := by
  obtain ⟨⟨vm, t⟩, hrun, hlog⟩ := exists_ok_of_map
    (runVmCalls (espIdf fun _ => workingEsp).hal (mbVmInit readOnce) [] [.run 8 8])
    (fun r => (espIdf fun _ => workingEsp).after r.2)
    [.addDevice 0 0x39 7 0, .transmitReceive 7 [0x92] 0xAB 0, .rmDevice 7 0] (by decide +kernel)
  have htrace : RunTrace (espIdf fun _ => workingEsp).hal t := .inr ⟨_, vm, _, hrun⟩
  exact ⟨t, htrace, hlog, (espIdf_drives htrace).1⟩

end MiniBeam
