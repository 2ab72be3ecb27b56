import MiniBeam.Model.Board

/-! The HAL of the ESP32 (`mb_hal_espidf.c`, built with `MB_USE_ESP_IDF`), over a log of the calls
into the drivers of ESP-IDF. -/

namespace MiniBeam

/-- A call into ESP-IDF, with what it returned. A bus handle is the bus number cast to a pointer;
a device handle is any value that `i2c_master_bus_add_device` gives out. -/
inductive EspOp where
  | gpioSetLevel (pin : Byte) (level : BitVec 32) (err : I32)
  | gpioGetLevel (pin : Byte) (level : I32)
  | ledcSetDuty (channel : Byte) (duty : BitVec 32) (err : I32)
  | ledcUpdateDuty (channel : Byte) (err : I32)
  | ledcTimerConfig (timer : Byte) (freqHz : BitVec 32) (err : I32)
  | addDevice (bus addr : Byte) (handle : ℕ) (err : I32)
  | transmitReceive (handle : ℕ) (tx : List Byte) (rx : Byte) (err : I32)
  | transmit (handle : ℕ) (tx : List Byte) (err : I32)
  | rmDevice (handle : ℕ) (err : I32)
  deriving DecidableEq, Repr

/-- ESP-IDF: results that are any functions of the calls so far. -/
structure Esp where
  gpioSetLevel : List EspOp → Byte → BitVec 32 → I32
  gpioGetLevel : List EspOp → Byte → I32
  ledcSetDuty : List EspOp → Byte → BitVec 32 → I32
  ledcUpdateDuty : List EspOp → Byte → I32
  ledcTimerConfig : List EspOp → Byte → BitVec 32 → I32
  addDevice : List EspOp → Byte → Byte → ℕ × I32
  transmitReceive : List EspOp → ℕ → List Byte → Byte × I32
  transmit : List EspOp → ℕ → List Byte → I32
  rmDevice : List EspOp → ℕ → I32
  timerUs : BitVec 64

/-- `err == ESP_OK ? 0 : -1`. -/
def espResult (err : I32) : I32 := if err = 0 then 0 else -1

namespace EspIdf

def mbHalGpioWrite (esp : Esp) (log : List EspOp) (pin level : Byte) : I32 × List EspOp :=
  let raised : BitVec 32 := if level ≠ 0 then 1 else 0
  let err := esp.gpioSetLevel log pin raised
  (espResult err, log ++ [.gpioSetLevel pin raised err])

def mbHalGpioRead (esp : Esp) (log : List EspOp) (pin : Byte) : I32 × Byte × List EspOp :=
  let level := esp.gpioGetLevel log pin
  (0, level.setWidth 8, log ++ [.gpioGetLevel pin level])

def mbHalPwmSetDuty (esp : Esp) (log : List EspOp) (channel : Byte) (permille : BitVec 16) :
    I32 × List EspOp :=
  if permille.toNat > 1000 then (-1, log)
  else
    let duty : BitVec 32 := (permille.setWidth 32 * 8191) / 1000
    let err := esp.ledcSetDuty log channel duty
    let log := log ++ [.ledcSetDuty channel duty err]
    if err ≠ 0 then (-1, log)
    else
      let err := esp.ledcUpdateDuty log channel
      (espResult err, log ++ [.ledcUpdateDuty channel err])

def mbHalPwmConfig (esp : Esp) (log : List EspOp) (channel : Byte) (frequencyHz : BitVec 32) :
    I32 × List EspOp :=
  let err := esp.ledcTimerConfig log channel frequencyHz
  (espResult err, log ++ [.ledcTimerConfig channel frequencyHz err])

def mbHalI2cReadReg (esp : Esp) (log : List EspOp) (bus addr reg : Byte) :
    I32 × Byte × List EspOp :=
  let added := esp.addDevice log bus addr
  let log := log ++ [.addDevice bus addr added.1 added.2]
  if added.2 ≠ 0 then (-1, 0, log)
  else
    let answer := esp.transmitReceive log added.1 [reg]
    let log := log ++ [.transmitReceive added.1 [reg] answer.1 answer.2]
    (espResult answer.2, answer.1, log ++ [.rmDevice added.1 (esp.rmDevice log added.1)])

def mbHalI2cWriteReg (esp : Esp) (log : List EspOp) (bus addr reg value : Byte) :
    I32 × List EspOp :=
  let added := esp.addDevice log bus addr
  let log := log ++ [.addDevice bus addr added.1 added.2]
  if added.2 ≠ 0 then (-1, log)
  else
    let err := esp.transmit log added.1 [reg, value]
    let log := log ++ [.transmit added.1 [reg, value] err]
    (espResult err, log ++ [.rmDevice added.1 (esp.rmDevice log added.1)])

/-- `mb_hal_monotonic_ms`: `esp_timer_get_time() / 1000`, cut to 32 bits. -/
def mbHalMonotonicMs (esp : Esp) : BitVec 32 := (esp.timerUs / 1000).setWidth 32

end EspIdf

/-- `mb_hal_delay_ms` spins on the timer and calls no driver. -/
def Esp.call (esp : Esp) (log : List EspOp) : HalCall → HalReply × List EspOp
  | .gpioWrite pin level =>
    let r := EspIdf.mbHalGpioWrite esp log pin level
    (⟨r.1, 0, 0⟩, r.2)
  | .gpioRead pin =>
    let r := EspIdf.mbHalGpioRead esp log pin
    (⟨r.1, r.2.1, 0⟩, r.2.2)
  | .pwmSetDuty channel permille =>
    let r := EspIdf.mbHalPwmSetDuty esp log channel permille
    (⟨r.1, 0, 0⟩, r.2)
  | .pwmConfig channel frequencyHz =>
    let r := EspIdf.mbHalPwmConfig esp log channel frequencyHz
    (⟨r.1, 0, 0⟩, r.2)
  | .i2cReadReg bus addr reg =>
    let r := EspIdf.mbHalI2cReadReg esp log bus addr reg
    (⟨r.1, r.2.1, 0⟩, r.2.2)
  | .i2cWriteReg bus addr reg value =>
    let r := EspIdf.mbHalI2cWriteReg esp log bus addr reg value
    (⟨r.1, 0, 0⟩, r.2)
  | .monotonicMs => (⟨0, 0, EspIdf.mbHalMonotonicMs esp⟩, log)
  | .delayMs _ => (⟨0, 0, 0⟩, log)

/-- The ESP32 over a run. -/
def espIdf (esp : Trace → Esp) : Backend (List EspOp) where
  init := []
  call t log call := (esp t).call log call

end MiniBeam
