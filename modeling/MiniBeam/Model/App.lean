import MiniBeam.Model.Compat

/-! The ESP-IDF application (`espidf_app/main/app_main.c`). -/

namespace MiniBeam

/-- `I32LE`. -/
def i32Le (v : I32) : List Byte :=
  [(v &&& 0xff).setWidth 8, (v.sshiftRight 8 &&& 0xff).setWidth 8,
    (v.sshiftRight 16 &&& 0xff).setWidth 8, (v.sshiftRight 24 &&& 0xff).setWidth 8]

/-- `app_program`: a receive, three tests of the command type, and the branches. -/
def appProgram : List Byte :=
  -- RECV_CMD
  [0x20, 0, 1, 2, 3, 4] ++
  -- CONST_I32, SUB and JMP_IF_ZERO, for each of the three types
  [0x01, 5] ++ i32Le CommandType.gpioWrite.code ++ [0x04, 6, 0, 5] ++ [0x31, 6] ++ i32Le 21 ++
  [0x01, 5] ++ i32Le CommandType.pwmSetDuty.code ++ [0x04, 6, 0, 5] ++ [0x31, 6] ++ i32Le 15 ++
  [0x01, 5] ++ i32Le CommandType.i2cRead.code ++ [0x04, 6, 0, 5] ++ [0x31, 6] ++ i32Le 9 ++
  -- HALT
  [0xFF] ++
  -- CALL_BIF and HALT: GPIO_WRITE, PWM_SET_DUTY, I2C_READ_REG
  [0x10, 1, 2, 1, 2, 15] ++ [0xFF] ++
  [0x10, 2, 2, 1, 2, 15] ++ [0xFF] ++
  [0x10, 3, 3, 1, 2, 3, 7] ++ [0xFF]

variable (hal : Hal)

/-- `app_main`, with the command it queues as a parameter. A run of at most 128 instructions
has at most 129 rounds. -/
def appMain (cmd : Command) : Except Fault (Status × VmState × Trace) := do
  let (rc, vm) ← mbVmMailboxPush (mbVmInit appProgram) cmd
  if rc ≠ .ok then return (rc, vm, [])
  else mbVmRun hal 129 128 vm []

end MiniBeam
