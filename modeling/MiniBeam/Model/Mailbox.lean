import MiniBeam.Model.Types

/-! Command validation and the bounded mailbox (`mb_vm.c`, `mb_types.h`). -/

namespace MiniBeam

/-- `v >= lo && v <= hi` on a signed 32-bit value. -/
def inRange (lo hi : ℤ) (v : I32) : Bool := decide (lo ≤ v.toInt) && decide (v.toInt ≤ hi)

def mbValidateGpioPin (pin : I32) : Bool := inRange 0 39 pin
def mbValidatePwmChannel (channel : I32) : Bool := inRange 0 7 channel
def mbValidatePwmDuty (permille : I32) : Bool := inRange 0 1000 permille
def mbValidateI2cBus (bus : I32) : Bool := inRange 0 3 bus
def mbValidateI2cAddr (addr : I32) : Bool := inRange 0 0x7f addr
def mbValidateU8Value (value : I32) : Bool := inRange 0 0xff value

def mbValidatePwmFrequency (frequencyHz : I32) : Bool :=
  decide (0 < frequencyHz.toInt) && decide (frequencyHz.toInt ≤ 40000)

/-- `mb_validate_command`. -/
def mbValidateCommand (cmd : Command) : Status :=
  match CommandType.ofCode? cmd.type with
  | some .none => .ok
  | some .gpioWrite =>
    if mbValidateGpioPin cmd.a && (cmd.b == 0 || cmd.b == 1) then .ok else .badArgument
  | some .gpioRead => if mbValidateGpioPin cmd.a then .ok else .badArgument
  | some .pwmSetDuty =>
    if mbValidatePwmChannel cmd.a && mbValidatePwmDuty cmd.b then .ok else .badArgument
  | some .pwmConfig =>
    if mbValidatePwmChannel cmd.a && mbValidatePwmFrequency cmd.b then .ok else .badArgument
  | some .i2cRead =>
    if mbValidateI2cBus cmd.a && mbValidateI2cAddr cmd.b && mbValidateU8Value cmd.c then .ok
    else .badArgument
  | some .i2cWrite =>
    if mbValidateI2cBus cmd.a && mbValidateI2cAddr cmd.b && mbValidateU8Value cmd.c &&
        mbValidateU8Value cmd.d then .ok
    else .badArgument
  | Option.none => .invalidCommand

/-- `mb_mailbox_t`. -/
structure Mailbox where
  items : Vector Command mailboxCapacity
  head : ℕ
  tail : ℕ
  count : ℕ
  deriving DecidableEq

def Mailbox.zero : Mailbox := ⟨Vector.replicate mailboxCapacity ⟨0, 0, 0, 0, 0⟩, 0, 0, 0⟩

/-- `mb_mailbox_push_raw`. -/
def mbMailboxPushRaw (mb : Mailbox) (cmd : Command) : Except Fault (Status × Mailbox) :=
  let status := mbValidateCommand cmd
  if status ≠ .ok then .ok (status, mb)
  else if mb.count ≥ mailboxCapacity then .ok (.mailboxFull, mb)
  else if h : mb.tail < mailboxCapacity then
    .ok (.ok, { mb with
      items := mb.items.set mb.tail cmd h
      tail := (mb.tail + 1) % mailboxCapacity
      count := mb.count + 1 })
  else .error (.slot mb.tail)

/-- `mb_mailbox_pop_raw`; `none` is `MB_MAILBOX_EMPTY`. -/
def mbMailboxPopRaw (mb : Mailbox) : Except Fault (Option (Command × Mailbox)) :=
  if mb.count = 0 then .ok none
  else
    match mb.items[mb.head]? with
    | none => .error (.slot mb.head)
    | some cmd => .ok (some (cmd, { mb with
        head := (mb.head + 1) % mailboxCapacity
        count := mb.count - 1 }))

end MiniBeam
