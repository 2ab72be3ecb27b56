import MiniBeam.Model.Nrf52

/-! The HAL of the nRF52 as a whole (`mb_hal_nrf52.c`): GPIO, PWM, I2C and time over the devices
of the board, with a log of what each device was asked. -/

namespace MiniBeam

/-! ### A HAL with a state -/

/-- An implementation of `mb_hal.h` that keeps a state. A call may depend on all that came
before it. -/
structure Backend (σ : Type) where
  init : σ
  call : Trace → σ → HalCall → HalReply × σ

def Backend.next {σ : Type} (b : Backend σ) (past : Trace × σ) (e : Event) : Trace × σ :=
  (past.1 ++ [e], match e with
    | .hal _ call _ => (b.call past.1 past.2 call).2
    | _ => past.2)

/-- The state behind a run. -/
def Backend.after {σ : Type} (b : Backend σ) (t : Trace) : σ := (t.foldl b.next ([], b.init)).2

def Backend.hal {σ : Type} (b : Backend σ) : Hal := fun t call => (b.call t (b.after t) call).1

/-! ### GPIO -/

/-- The flags of `gpio_pin_configure_dt` in use. -/
inductive GpioFlags where
  | outputInactive | input
  deriving DecidableEq, Repr

/-- A call on the pin of `led0`, with what it returned. -/
inductive GpioOp where
  | configure (flags : GpioFlags) (rc : I32)
  | set (level : Bool) (rc : I32)
  | get (value : I32)
  deriving DecidableEq, Repr

/-- `mb_gpio0`: results that are any functions of the calls so far. -/
structure GpioDevice where
  ready : List GpioOp → Bool
  configure : List GpioOp → GpioFlags → I32
  set : List GpioOp → Bool → I32
  get : List GpioOp → I32

/-- `mb_hal_gpio_write`; without `led0` in the devicetree it is an error. -/
def mbHalGpioWrite (led0 : Option GpioDevice) (log : List GpioOp) (pin level : Byte) :
    I32 × List GpioOp :=
  match led0 with
  | none => (-1, log)
  | some dev =>
    if pin ≠ 0 ∨ dev.ready log = false then (-1, log)
    else
      let rc := dev.configure log .outputInactive
      let log := log ++ [.configure .outputInactive rc]
      if rc ≠ 0 then (-1, log)
      else
        let rc := dev.set log (level ≠ 0)
        (rc, log ++ [.set (level ≠ 0) rc])

/-- `mb_hal_gpio_read`: the code and `*out_level`. -/
def mbHalGpioRead (led0 : Option GpioDevice) (log : List GpioOp) (pin : Byte) :
    I32 × Byte × List GpioOp :=
  match led0 with
  | none => (-1, 0, log)
  | some dev =>
    if pin ≠ 0 ∨ dev.ready log = false then (-1, 0, log)
    else
      let rc := dev.configure log .input
      let log := log ++ [.configure .input rc]
      if rc ≠ 0 then (-1, 0, log)
      else
        let value := dev.get log
        let log := log ++ [.get value]
        if value.toInt < 0 then (-1, 0, log) else (0, value.setWidth 8, log)

/-! ### I2C -/

/-- A call of `i2c_write_read` (`rx` is the byte read) or `i2c_write`. -/
structure I2cOp where
  bus : Byte
  addr : Byte
  tx : List Byte
  rx : Option Byte
  rc : I32
  deriving DecidableEq, Repr

structure I2cDevice where
  ready : List I2cOp → Bool
  writeRead : List I2cOp → Byte → List Byte → I32 × Byte
  write : List I2cOp → Byte → List Byte → I32

/-- The devices at one moment; `none` for what the devicetree does not have. -/
structure Nrf52 where
  led0 : Option GpioDevice
  pwm0 : Pwm0
  i2c0 : Option I2cDevice
  i2c1 : Option I2cDevice
  uptime : BitVec 32

/-- `mb_get_i2c_bus`. -/
def mbGetI2cBus (board : Nrf52) (log : List I2cOp) (bus : Byte) : Option I2cDevice :=
  if bus = 0 then board.i2c0.filter fun dev => dev.ready log
  else if bus = 1 then board.i2c1.filter fun dev => dev.ready log
  else none

/-- `mb_hal_i2c_read_reg`: the code and `*out_value`. -/
def mbHalI2cReadReg (board : Nrf52) (log : List I2cOp) (bus addr reg : Byte) :
    I32 × Byte × List I2cOp :=
  match mbGetI2cBus board log bus with
  | none => (-1, 0, log)
  | some dev =>
    let answer := dev.writeRead log addr [reg]
    (answer.1, answer.2, log ++ [⟨bus, addr, [reg], some answer.2, answer.1⟩])

/-- `mb_hal_i2c_write_reg`. -/
def mbHalI2cWriteReg (board : Nrf52) (log : List I2cOp) (bus addr reg value : Byte) :
    I32 × List I2cOp :=
  match mbGetI2cBus board log bus with
  | none => (-1, log)
  | some dev =>
    let rc := dev.write log addr [reg, value]
    (rc, log ++ [⟨bus, addr, [reg, value], none, rc⟩])

/-! ### The board -/

/-- What the devices were asked. -/
structure Nrf52Log where
  gpio : List GpioOp
  pwm : List PwmSet
  i2c : List I2cOp
  deriving DecidableEq, Repr

/-- `mb_hal_monotonic_ms` reads the uptime; `mb_hal_delay_ms` only lets time pass. -/
def Nrf52.call (board : Nrf52) (log : Nrf52Log) : HalCall → HalReply × Nrf52Log
  | .gpioWrite pin level =>
    let r := mbHalGpioWrite board.led0 log.gpio pin level
    (⟨r.1, 0, 0⟩, { log with gpio := r.2 })
  | .gpioRead pin =>
    let r := mbHalGpioRead board.led0 log.gpio pin
    (⟨r.1, r.2.1, 0⟩, { log with gpio := r.2.2 })
  | .pwmSetDuty channel permille =>
    let r := mbHalPwmSetDuty board.pwm0 log.pwm channel permille
    (⟨r.1, 0, 0⟩, { log with pwm := r.2 })
  | .pwmConfig channel frequencyHz =>
    let r := mbHalPwmConfig board.pwm0 log.pwm channel frequencyHz
    (⟨r.1, 0, 0⟩, { log with pwm := r.2 })
  | .i2cReadReg bus addr reg =>
    let r := mbHalI2cReadReg board log.i2c bus addr reg
    (⟨r.1, r.2.1, 0⟩, { log with i2c := r.2.2 })
  | .i2cWriteReg bus addr reg value =>
    let r := mbHalI2cWriteReg board log.i2c bus addr reg value
    (⟨r.1, 0, 0⟩, { log with i2c := r.2 })
  | .monotonicMs => (⟨0, 0, board.uptime⟩, log)
  | .delayMs _ => (⟨0, 0, 0⟩, log)

/-- The nRF52 over a run, on devices that may change from call to call. -/
def nrf52 (board : Trace → Nrf52) : Backend Nrf52Log where
  init := ⟨[], [], []⟩
  call t log call := (board t).call log call

end MiniBeam
