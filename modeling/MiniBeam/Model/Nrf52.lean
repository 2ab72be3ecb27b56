import MiniBeam.Model.Types

/-! The PWM part of the nRF52 HAL (`mb_hal_nrf52.c`, built with `MB_USE_NRF52`). -/

namespace MiniBeam

/-- A call of Zephyr's `pwm_set`, with normal polarity, and what it returned. -/
structure PwmSet where
  channel : Byte
  periodNs : BitVec 32
  pulseNs : BitVec 32
  rc : I32
  deriving DecidableEq, Repr

/-- The Zephyr device: `device_is_ready` and the result of `pwm_set`, any functions of the
calls so far. -/
structure PwmDevice where
  ready : List PwmSet → Bool
  result : List PwmSet → Byte → BitVec 32 → BitVec 32 → I32

def pwmSet (dev : PwmDevice) (log : List PwmSet) (channel : Byte) (periodNs pulseNs : BitVec 32) :
    I32 × List PwmSet :=
  let rc := dev.result log channel periodNs pulseNs
  (rc, log ++ [⟨channel, periodNs, pulseNs, rc⟩])

/-- `mb_pwm0`; `none` if the devicetree has no node `pwm0` that is okay. -/
abbrev Pwm0 := Option PwmDevice

/-- `mb_hal_pwm_set_duty`. -/
def mbHalPwmSetDuty (pwm0 : Pwm0) (log : List PwmSet) (channel : Byte) (permille : BitVec 16) :
    I32 × List PwmSet :=
  match pwm0 with
  | none => (-1, log)
  | some dev =>
    let periodNs : BitVec 32 := 20000
    if dev.ready log = false ∨ permille.toNat > 1000 then (-1, log)
    else
      let pulseNs := (periodNs * permille.setWidth 32) / 1000
      pwmSet dev log channel periodNs pulseNs

/-- `mb_hal_pwm_config`. -/
def mbHalPwmConfig (pwm0 : Pwm0) (log : List PwmSet) (channel : Byte) (frequencyHz : BitVec 32) :
    I32 × List PwmSet :=
  match pwm0 with
  | none => (-1, log)
  | some dev =>
    if frequencyHz = 0 ∨ dev.ready log = false then (-1, log)
    else
      let periodNs := 1000000000 / frequencyHz
      pwmSet dev log channel periodNs 0

/-- The calls on the PWM. -/
inductive PwmCall where
  | setDuty (channel : Byte) (permille : BitVec 16)
  | config (channel : Byte) (frequencyHz : BitVec 32)
  deriving DecidableEq, Repr

def PwmCall.run (pwm0 : Pwm0) (log : List PwmSet) : PwmCall → I32 × List PwmSet
  | .setDuty channel permille => mbHalPwmSetDuty pwm0 log channel permille
  | .config channel frequencyHz => mbHalPwmConfig pwm0 log channel frequencyHz

/-- The log after a sequence of calls, if all of them succeed. -/
def runPwm (pwm0 : Pwm0) (log : List PwmSet) : List PwmCall → Option (List PwmSet)
  | [] => some log
  | call :: calls =>
    match call.run pwm0 log with
    | (rc, log) => if rc = 0 then runPwm pwm0 log calls else none

/-- The period and the pulse that a channel was last set to. -/
def recorded (log : List PwmSet) (channel : Byte) : Option (BitVec 32 × BitVec 32) :=
  (log.filter fun s => s.channel = channel ∧ s.rc = 0).getLast?.map fun s => (s.periodNs, s.pulseNs)

end MiniBeam
