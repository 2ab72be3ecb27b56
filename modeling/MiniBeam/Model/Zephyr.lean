import MiniBeam.Model.App
import MiniBeam.Model.Scheduler

/-! The Zephyr application (`zephyr_app/src/main.c`): the builder of the cyclic program, the
commands it queues, and the loop of `main` with its telemetry. -/

namespace MiniBeam

/-! ### Emission into `demo_program` -/

/-- `demo_program`. -/
abbrev DemoProgram := Vector Byte 128

/-- Code that writes into `demo_program`. -/
abbrev Emit := StateT DemoProgram (Except Fault)

/-- `demo_program[i] = value`. -/
def setByte (i : ℕ) (value : Byte) : Emit PUnit := fun program =>
  if h : i < 128 then .ok (⟨⟩, program.set i value h) else .error (.program i)

/-- `os2_emit_u8`, with the `pc` behind the byte. -/
def os2EmitU8 (pc : ℕ) (value : Byte) : Emit ℕ := do
  setByte pc value
  return pc + 1

/-- `os2_emit_i32`. -/
def os2EmitI32 (pc : ℕ) (value : I32) : Emit ℕ := do
  let pc ← os2EmitU8 pc ((value &&& 0xff).setWidth 8)
  let pc ← os2EmitU8 pc ((value.sshiftRight 8 &&& 0xff).setWidth 8)
  let pc ← os2EmitU8 pc ((value.sshiftRight 16 &&& 0xff).setWidth 8)
  os2EmitU8 pc ((value.sshiftRight 24 &&& 0xff).setWidth 8)

/-- `os2_patch_rel_i32`. -/
def os2PatchRelI32 (patchPos targetPc : ℕ) : Emit PUnit := do
  let rel : I32 := BitVec.ofNat 32 targetPc - BitVec.ofNat 32 (patchPos + 4)
  setByte (patchPos + 0) ((rel &&& 0xff).setWidth 8)
  setByte (patchPos + 1) ((rel.sshiftRight 8 &&& 0xff).setWidth 8)
  setByte (patchPos + 2) ((rel.sshiftRight 16 &&& 0xff).setWidth 8)
  setByte (patchPos + 3) ((rel.sshiftRight 24 &&& 0xff).setWidth 8)

/-- A row of `os2_emit_u8`. -/
def os2EmitBytes (pc : ℕ) (values : List Byte) : Emit ℕ := values.foldlM os2EmitU8 pc

/-- `os2_build_cyclic_program`. -/
def os2BuildCyclicProgram : Emit ℕ := do
  -- r6 = idle sleep ms, r10 = published cmd type, r14 = MB_CMD_PWM_SET_DUTY
  let pc ← os2EmitBytes 0 [0x01, 6]
  let pc ← os2EmitI32 pc 20
  let pc ← os2EmitBytes pc [0x01, 10]
  let pc ← os2EmitI32 pc CommandType.none.code
  let pc ← os2EmitBytes pc [0x01, 14]
  let pc ← os2EmitI32 pc CommandType.pwmSetDuty.code
  let loopPc := pc
  -- RECV_CMD
  let pc ← os2EmitBytes pc [0x20, 0, 1, 2, 3, 4]
  -- JMP_IF_ZERO to the sleep path
  let jzToSleepPatch := pc + 2
  let pc ← os2EmitBytes pc [0x31, 0]
  let pc ← os2EmitI32 pc 0
  -- SUB and JMP_IF_ZERO to the PWM path
  let pc ← os2EmitBytes pc [0x04, 15, 0, 14]
  let jzToPwmPatch := pc + 2
  let pc ← os2EmitBytes pc [0x31, 15]
  let pc ← os2EmitI32 pc 0
  -- CALL_BIF I2C_READ_REG and MONOTONIC_MS
  let pc ← os2EmitBytes pc [0x10, 3, 3, 1, 2, 3, 7]
  let pc ← os2EmitBytes pc [0x10, 4, 0, 8]
  -- MOVE to the event registers
  let pc ← os2EmitBytes pc [0x02, 11, 1, 0]
  let pc ← os2EmitBytes pc [0x02, 12, 2, 0]
  let pc ← os2EmitBytes pc [0x02, 13, 3, 0]
  let pc ← os2EmitBytes pc [0x02, 9, 4, 0]
  let pc ← os2EmitBytes pc [0x02, 10, 0, 0]
  -- JMP
  let jmpOverPwmPatch := pc + 1
  let pc ← os2EmitBytes pc [0x30]
  let pc ← os2EmitI32 pc 0
  -- PWM path: CALL_BIF PWM_SET_DUTY and MONOTONIC_MS
  let pwmPathPc := pc
  let pc ← os2EmitBytes pc [0x10, 2, 2, 1, 2, 7]
  let pc ← os2EmitBytes pc [0x10, 4, 0, 8]
  -- MOVE and CONST_I32
  let pc ← os2EmitBytes pc [0x02, 11, 1, 0]
  let pc ← os2EmitBytes pc [0x02, 12, 2, 0]
  let pc ← os2EmitBytes pc [0x01, 13]
  let pc ← os2EmitI32 pc 0
  let pc ← os2EmitBytes pc [0x02, 9, 3, 0]
  let pc ← os2EmitBytes pc [0x02, 10, 0, 0]
  -- JMP
  let jmpToLoopPatch := pc + 1
  let pc ← os2EmitBytes pc [0x30]
  let pc ← os2EmitI32 pc 0
  -- sleep path: SLEEP_MS and JMP
  os2PatchRelI32 jzToSleepPatch pc
  let pc ← os2EmitBytes pc [0x40, 6]
  let pc ← os2EmitBytes pc [0x30]
  let pc ← os2EmitI32 pc (BitVec.ofNat 32 loopPc - BitVec.ofNat 32 (pc + 4))
  os2PatchRelI32 jzToPwmPatch pwmPathPc
  os2PatchRelI32 jmpOverPwmPatch loopPc
  os2PatchRelI32 jmpToLoopPatch loopPc
  return pc

/-! ### Commands from outside -/

/-- `os2_mb_stats_t`, without the field that nothing counts. -/
structure Os2MbStats where
  attempted : BitVec 32
  pushed : BitVec 32
  droppedFull : BitVec 32
  deriving DecidableEq, Repr

/-- What `os2_enqueue_sensor_cmd` and `os2_enqueue_pwm_cmd` do with their command, under
`OS2_MB_POLICY_REJECT_NEW`. -/
def os2Enqueue (sys : System) (pid : Byte) (cmd : Command) (stats : Os2MbStats) :
    Except Fault (Status × System × Os2MbStats) := do
  let stats := { stats with attempted := stats.attempted + 1 }
  let full := match ← mbSchedProc sys.sched pid with
    | none => false
    | some p => decide ((sys.sched.proc p).mailbox.count ≥ mailboxCapacity)
  if full then return (.mailboxFull, sys, { stats with droppedFull := stats.droppedFull + 1 })
  else
    let (rc, sys) ← mbSchedSend sys pid cmd
    if rc = .ok then return (rc, sys, { stats with pushed := stats.pushed + 1 })
    else if rc = .mailboxFull then
      return (rc, sys, { stats with droppedFull := stats.droppedFull + 1 })
    else return (rc, sys, stats)

/-- `os2_sensor_target_t`, without the name. -/
structure Os2SensorTarget where
  id : Byte
  bus : Byte
  addr : Byte
  reg : Byte
  deriving DecidableEq, Repr

/-- `os2_enqueue_sensor_cmd`. -/
def os2EnqueueSensorCmd (sys : System) (pid : Byte) (target : Os2SensorTarget)
    (stats : Os2MbStats) : Except Fault (Status × System × Os2MbStats) :=
  os2Enqueue sys pid ⟨CommandType.i2cRead.code, target.bus.setWidth 32, target.addr.setWidth 32,
    target.reg.setWidth 32, target.id.setWidth 32⟩ stats

/-- `os2_enqueue_pwm_cmd`. -/
def os2EnqueuePwmCmd (sys : System) (pid : Byte) (channel : Byte) (dutyPermille : BitVec 16)
    (actuatorId : Byte) (stats : Os2MbStats) : Except Fault (Status × System × Os2MbStats) :=
  os2Enqueue sys pid ⟨CommandType.pwmSetDuty.code, channel.setWidth 32, dutyPermille.setWidth 32, 0,
    actuatorId.setWidth 32⟩ stats

/-! ### The main loop -/

/-- The spawns of the sensors, with `proc_s` from the first. -/
def spawnSensors (sched : Scheduler) (procS : Option Slot) (i : ℕ) :
    List (List Byte) → Except Fault (Scheduler × Option Slot)
  | [] => .ok (sched, procS)
  | program :: programs => do
    let (p, sched) := mbSchedSpawn sched program
    let procS ← if i = 0 then mbSchedProc sched p else .ok procS
    spawnSensors sched procS (i + 1) programs

/-- The spawns of `main`: the table, `proc_s` and `proc_a`. -/
def mainSpawn (sensors : List (List Byte)) (actuator : List Byte) :
    Except Fault (Scheduler × Option Slot × Option Slot) := do
  let (sched, procS) ← spawnSensors mbSchedInit none 0 sensors
  let (pidActuator, sched) := mbSchedSpawn sched actuator
  let procA ← mbSchedProc sched pidActuator
  return (sched, procS, procA)

/-- The locals of the loop. -/
structure MainLoop where
  tickCount : BitVec 32
  eventCount : BitVec 32
  idleCount : BitVec 32
  errorCount : BitVec 32
  maxADepth : BitVec 32
  maxSDepth : BitVec 32
  lastTs : BitVec 32
  lastStatsTs : BitVec 32
  deriving DecidableEq, Repr

def MainLoop.zero : MainLoop := ⟨0, 0, 0, 0, 0, 0, 0, 0⟩

/-- A line `STRESS` of the log. -/
structure Stress where
  ticks : BitVec 32
  events : BitVec 32
  idle : BitVec 32
  errors : BitVec 32
  ticksPerS : BitVec 32
  eventsPerS : BitVec 32
  aDepthMax : BitVec 32
  sDepthMax : BitVec 32
  aDepthNow : BitVec 32
  sDepthNow : BitVec 32
  deriving DecidableEq, Repr

/-- A read through `proc_s` or `proc_a`; there is none through a null pointer. -/
def procAt (sched : Scheduler) : Option Slot → Except Fault Process
  | some i => .ok (sched.proc i)
  | none => .error (.table 0)

/-- The count of a tick by its status. -/
def MainLoop.countTick (l : MainLoop) (rc : Status) : MainLoop :=
  let l := { l with tickCount := l.tickCount + 1 }
  if rc = .schedIdle then { l with idleCount := l.idleCount + 1 }
  else if rc ≠ .ok then { l with errorCount := l.errorCount + 1 }
  else l

/-- A new timestamp in `r9` of the sensor is an event. -/
def MainLoop.countEvent (l : MainLoop) (ts : I32) : MainLoop :=
  if ts ≠ 0 ∧ ts ≠ l.lastTs then { l with eventCount := l.eventCount + 1, lastTs := ts } else l

/-- `ts`: what `r9` of the sensor reads as. -/
def sensorTs (s : Process) : I32 := getSmallint s.regs[9]

/-- The peaks of the two mailboxes. -/
def MainLoop.trackDepth (l : MainLoop) (aDepth sDepth : ℕ) : MainLoop :=
  let l := if aDepth > l.maxADepth.toNat then { l with maxADepth := .ofNat 32 aDepth } else l
  if sDepth > l.maxSDepth.toNat then { l with maxSDepth := .ofNat 32 sDepth } else l

/-- The summary, every five seconds. -/
def MainLoop.summary (l : MainLoop) (now : BitVec 32) (aDepth sDepth : ℕ) :
    MainLoop × Option Stress :=
  let elapsed := now - l.lastStatsTs
  if elapsed ≥ 5000 then
    ({ MainLoop.zero with lastTs := l.lastTs, lastStatsTs := now },
      some {
        ticks := l.tickCount
        events := l.eventCount
        idle := l.idleCount
        errors := l.errorCount
        ticksPerS := l.tickCount * 1000 / elapsed
        eventsPerS := l.eventCount * 1000 / elapsed
        aDepthMax := l.maxADepth
        sDepthMax := l.maxSDepth
        aDepthNow := .ofNat 32 aDepth
        sDepthNow := .ofNat 32 sDepth })
  else (l, none)

/-- What a turn of the loop reads besides the table: `k_uptime_get_32`, and what `task_wdt_feed`
returns. -/
structure TurnInput where
  now : BitVec 32
  feed : I32
  deriving DecidableEq, Repr

/-- One turn of the loop, with `OS2_ENABLE_TASK_WDT`: the status of the tick, the line logged, and
what `main` returns if the feed of the watchdog fails. -/
def mainLoop (hal : Hal) (procS procA : Option Slot) (input : TurnInput) (sys : System)
    (l : MainLoop) : Except Fault (Status × System × MainLoop × Option Stress × Option I32) := do
  let (rc, sys) ← mbSchedTick hal sys
  let l := l.countTick rc
  let s ← procAt sys.sched procS
  let l := l.countEvent (sensorTs s)
  let a ← procAt sys.sched procA
  let l := l.trackDepth a.mailbox.count s.mailbox.count
  let (l, line) := l.summary input.now a.mailbox.count s.mailbox.count
  return (rc, sys, l, line, if input.feed.slt 0 then some (-1) else none)

/-- Turns of the loop as long as `main` does not return, with the lines logged and what it
returns. -/
def mainRun (hal : Hal) (procS procA : Option Slot) : List TurnInput → System → MainLoop →
    Except Fault (System × MainLoop × List Stress × Option I32)
  | [], sys, l => .ok (sys, l, [], none)
  | input :: inputs, sys, l => do
    let (_, sys, l, line, exit) ← mainLoop hal procS procA input sys l
    if exit.isSome then return (sys, l, line.toList, exit)
    else
      let (sys, l, log, exit) ← mainRun hal procS procA inputs sys l
      return (sys, l, line.toList ++ log, exit)

end MiniBeam
