import Mathlib.Data.Int.Notation
import Mathlib.Data.Nat.Notation

/-! Shared ABI types of the VM: status codes, commands, HAL calls, and the
observable events of a run. Machine words are bit vectors; `size_t` is `ℕ`. -/

namespace MiniBeam

/-- `uint8_t`: bytecode bytes, register numbers, pids. -/
abbrev Byte := BitVec 8

/-- `int32_t`: command fields and status codes. Read as signed by `BitVec.toInt`. -/
abbrev I32 := BitVec 32

/-- `mb_term_t`: a tagged register or heap word. -/
abbrev Term := BitVec 32

/-- `MB_REG_COUNT`. -/
abbrev regCount : ℕ := 16

/-- `MB_MAILBOX_CAPACITY`. -/
abbrev mailboxCapacity : ℕ := 32

/-- `MB_HEAP_WORDS`: words per semi-space. -/
abbrev heapWords : ℕ := 128

/-- `MB_MAX_TUPLE_ARITY`. -/
abbrev maxTupleArity : ℕ := 16

/-- `MB_MAX_PROCESSES`. -/
abbrev maxProcesses : ℕ := 8

/-- `MB_REDUCTIONS`: instructions per scheduler slice. -/
abbrev maxReductions : ℕ := 64

/-- `mb_status_t`. -/
inductive Status where
  | ok | eof | badReg | badOpcode | badBif | badArgc | mailboxEmpty | invalidCommand
  | badArgument | mailboxFull | schedIdle | badPid | procTableFull | heapOom | badTerm | badArity
  deriving DecidableEq, Repr

/-- The numeric value of a status, as `SEND` and `RECV_CMD` store it in a register. -/
def Status.code : Status → I32
  | .ok => 0
  | .eof => 1
  | .badReg => 2
  | .badOpcode => 3
  | .badBif => 4
  | .badArgc => 5
  | .mailboxEmpty => 6
  | .invalidCommand => 7
  | .badArgument => 8
  | .mailboxFull => 9
  | .schedIdle => 10
  | .badPid => 11
  | .procTableFull => 12
  | .heapOom => 13
  | .badTerm => 14
  | .badArity => 15

/-- An access the C program must never make; C gives it no meaning, so the run
stops there. `fuel` is not an access: it marks a loop cut off by its bound. -/
inductive Fault where
  | program (index : ℕ)
  | register (index : ℕ)
  | argument (index : ℕ)
  | element (index : ℕ)
  | slot (index : ℕ)
  | table (index : ℕ)
  | word (index : ℕ)
  | fuel
  deriving DecidableEq, Repr

/-- `mb_command_type_t`. -/
inductive CommandType where
  | none | gpioWrite | pwmSetDuty | i2cRead | gpioRead | i2cWrite | pwmConfig
  deriving DecidableEq, Repr

def CommandType.code : CommandType → I32
  | .none => 0
  | .gpioWrite => 1
  | .pwmSetDuty => 2
  | .i2cRead => 3
  | .gpioRead => 4
  | .i2cWrite => 5
  | .pwmConfig => 6

/-- The enumerator a raw `type` field selects in a `switch`; `none` is `default`. -/
def CommandType.ofCode? (n : I32) : Option CommandType :=
  match n.toNat with
  | 0 => some .none
  | 1 => some .gpioWrite
  | 2 => some .pwmSetDuty
  | 3 => some .i2cRead
  | 4 => some .gpioRead
  | 5 => some .i2cWrite
  | 6 => some .pwmConfig
  | _ => Option.none

/-- `mb_command_t`. -/
structure Command where
  type : I32
  a : I32
  b : I32
  c : I32
  d : I32
  deriving DecidableEq, Repr

/-- The calls of `mb_hal.h`, with the values passed. -/
inductive HalCall where
  | gpioWrite (pin level : Byte)
  | gpioRead (pin : Byte)
  | pwmSetDuty (channel : Byte) (permille : BitVec 16)
  | pwmConfig (channel : Byte) (frequencyHz : BitVec 32)
  | i2cReadReg (bus addr reg : Byte)
  | i2cWriteReg (bus addr reg value : Byte)
  | monotonicMs
  | delayMs (ms : BitVec 32)
  deriving DecidableEq, Repr

/-- What a HAL call gives back: the return code, the byte written through the out
pointer, and the time. Each call uses the fields its prototype has. -/
structure HalReply where
  rc : I32
  value : Byte
  ms : BitVec 32
  deriving DecidableEq, Repr

/-- Observable events: HAL calls, mailbox pushes with their result, and pops.
`pid` is the calling process (0 outside any process) or the mailbox's owner. -/
inductive Event where
  | hal (pid : Byte) (call : HalCall) (reply : HalReply)
  | push (pid : Byte) (cmd : Command) (rc : Status)
  | pop (pid : Byte) (cmd : Command)
  deriving DecidableEq, Repr

/-- The events so far, oldest first. -/
abbrev Trace := List Event

/-- The hardware: any function of the past events and the call at hand. -/
abbrev Hal := Trace → HalCall → HalReply

end MiniBeam
