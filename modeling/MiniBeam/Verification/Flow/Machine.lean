import MiniBeam.Verification.Flow.Code
import MiniBeam.Verification.Heap.Terms
import MiniBeam.Verification.Mailbox
import MiniBeam.Verification.Scheduler.Table
import Mathlib.Tactic.Simps.Basic

/-! A deployed flow without its bytecode: sensors that read and send, bounded queues of
duties, and an actuator that drives what it receives. -/

namespace MiniBeam

/-- A duty that command validation accepts. -/
abbrev Duty := { d : I32 // mbValidatePwmDuty d = true }

/-- The duties that wait for one process, oldest first. -/
structure DutyQueue where
  duties : List Duty
  bounded : duties.length ≤ mailboxCapacity

namespace DutyQueue

def empty : DutyQueue := ⟨[], Nat.zero_le _⟩

/-- A value is refused, or it waits behind the others while there is room. -/
def offer (q : DutyQueue) (v : I32) : Status × DutyQueue :=
  if hv : mbValidatePwmDuty v = true then
    if hb : q.duties.length < mailboxCapacity then
      (.ok, ⟨q.duties ++ [⟨v, hv⟩], by simpa using Nat.succ_le_of_lt hb⟩)
    else (.mailboxFull, q)
  else (.badArgument, q)

end DutyQueue

/-- The index of a sensor's next instruction, the pid it sends to, and its last value. -/
structure SensorState where
  next : ℕ
  target : I32
  value : I32

/-- Where the actuator stands, with the duty it is about to drive. -/
inductive ActuatorState where
  | receiving
  | driving (duty : Duty)
  | looping

namespace ActuatorState

def next : ActuatorState → ℕ
  | receiving => 0
  | driving _ => 1
  | looping => 2

/-- The duty on its way from the queue to the hardware. -/
def inFlight : ActuatorState → List Duty
  | driving duty => [duty]
  | _ => []

end ActuatorState

/-- `budget` counts the rounds of the running slice. -/
structure FlowState where
  sensor : Slot → SensorState
  actuator : ActuatorState
  queue : Slot → DutyQueue
  budget : ℕ
  trace : Trace

namespace FlowState

@[simps]
def setSensor (a : FlowState) (i : Slot) (σ : SensorState) : FlowState :=
  { a with sensor := Function.update a.sensor i σ }

@[simps]
def setActuator (a : FlowState) (σ : ActuatorState) : FlowState := { a with actuator := σ }

@[simps]
def setQueue (a : FlowState) (i : Slot) (q : DutyQueue) : FlowState :=
  { a with queue := Function.update a.queue i q }

@[simps]
def emit (a : FlowState) (events : List Event) : FlowState :=
  { a with trace := a.trace ++ events }

@[simps]
def setBudget (a : FlowState) (n : ℕ) : FlowState := { a with budget := n }

/-- Right after the deployment. -/
def initial : FlowState where
  sensor _ := ⟨0, 0, 0⟩
  actuator := .receiving
  queue _ := .empty
  budget := 0
  trace := []

/-- One more round of the slice. -/
def spend (a : FlowState) : FlowState := a.setBudget (a.budget + 1)

@[simp] theorem spend_sensor (a : FlowState) : a.spend.sensor = a.sensor := rfl
@[simp] theorem spend_actuator (a : FlowState) : a.spend.actuator = a.actuator := rfl
@[simp] theorem spend_queue (a : FlowState) : a.spend.queue = a.queue := rfl
@[simp] theorem spend_budget (a : FlowState) : a.spend.budget = a.budget + 1 := rfl
@[simp] theorem spend_trace (a : FlowState) : a.spend.trace = a.trace := rfl

end FlowState

/-- The read a sensor makes. -/
def Sensor.call (s : Sensor) : HalCall :=
  .i2cReadReg (BitVec.ofInt 8 s.bus) (BitVec.ofInt 8 s.addr) (BitVec.ofInt 8 s.reg)

namespace FlowSpec

variable (f : FlowSpec)

/-- The command a sensor sends for a value. -/
def command (v : I32) : Command :=
  ⟨CommandType.pwmSetDuty.code, BitVec.ofInt 32 f.channel, v, 0, 0⟩

/-- The process a pid names: the sensors come first, then the actuator. -/
def resolve (pid : Byte) : Option Slot :=
  if h : pid ≠ 0 ∧ pid.toNat ≤ maxProcesses ∧ pid.toNat ≤ f.sensors.length + 1 then
    some ⟨pid.toNat - 1, by
      have hpos : pid.toNat ≠ 0 := fun hz => h.1 (BitVec.eq_of_toNat_eq hz)
      omega⟩
  else none

end FlowSpec

/-- One round of the slice of `self`, and whether it ends the slice. -/
inductive FlowStep (hal : Hal) (f : FlowSpec) (self : Slot) : FlowState → Bool → FlowState → Prop
  | spent {a : FlowState} (out : maxReductions ≤ a.budget) : FlowStep hal f self a true a
  | load {a : FlowState} {s : Sensor} {k : ℕ} (left : a.budget < maxReductions)
      (sensor : f.sensors[self.val]? = some s) (next : (a.sensor self).next = k) (loading : k < 8) :
      FlowStep hal f self a false (a.setSensor self { a.sensor self with
        next := k + 1
        target := if k = 3 then held (BitVec.ofInt 32 f.actPid) else (a.sensor self).target }).spend
  | read {a : FlowState} {s : Sensor} {reply : HalReply} (left : a.budget < maxReductions)
      (sensor : f.sensors[self.val]? = some s) (next : (a.sensor self).next = 8)
      (answer : reply = hal a.trace s.call) :
      FlowStep hal f self a false ((a.setSensor self { a.sensor self with
        next := 9, value := held (readResult reply) }).emit [.hal self.pid s.call reply]).spend
  | clock {a : FlowState} {s : Sensor} {reply : HalReply} (left : a.budget < maxReductions)
      (sensor : f.sensors[self.val]? = some s) (next : (a.sensor self).next = 9)
      (answer : reply = hal a.trace .monotonicMs) :
      FlowStep hal f self a false ((a.setSensor self { a.sensor self with next := 10 }).emit
        [.hal self.pid .monotonicMs reply]).spend
  | lost {a : FlowState} {s : Sensor} (left : a.budget < maxReductions)
      (sensor : f.sensors[self.val]? = some s) (next : (a.sensor self).next = 10)
      (unknown : f.resolve ((a.sensor self).target.setWidth 8) = none) :
      FlowStep hal f self a false (a.setSensor self { a.sensor self with
        next := 11, target := held Status.badPid.code }).spend
  | send {a : FlowState} {s : Sensor} {i : Slot} {rc : Status} {q : DutyQueue}
      (left : a.budget < maxReductions) (sensor : f.sensors[self.val]? = some s)
      (next : (a.sensor self).next = 10)
      (known : f.resolve ((a.sensor self).target.setWidth 8) = some i)
      (offered : (a.queue i).offer (a.sensor self).value = (rc, q)) :
      FlowStep hal f self a false (((a.setQueue i q).setSensor self { a.sensor self with
        next := 11, target := held rc.code }).emit
          [.push i.pid (f.command (a.sensor self).value) rc]).spend
  | yield {a : FlowState} {s : Sensor} (left : a.budget < maxReductions)
      (sensor : f.sensors[self.val]? = some s) (next : (a.sensor self).next = 11)
      (tight : s.pollMs = 0) :
      FlowStep hal f self a false
        ((a.setSensor self { a.sensor self with next := 12 }).setBudget (maxReductions + 1))
  | sleep {a : FlowState} {s : Sensor} {reply : HalReply} (left : a.budget < maxReductions)
      (sensor : f.sensors[self.val]? = some s) (next : (a.sensor self).next = 11)
      (paced : s.pollMs ≠ 0) (answer : reply = hal a.trace .monotonicMs) :
      FlowStep hal f self a true ((a.setSensor self { a.sensor self with next := 12 }).emit
        [.hal self.pid .monotonicMs reply])
  | jump {a : FlowState} {s : Sensor} (left : a.budget < maxReductions)
      (sensor : f.sensors[self.val]? = some s) (next : (a.sensor self).next = 12) :
      FlowStep hal f self a false (a.setSensor self { a.sensor self with next := 8 }).spend
  | block {a : FlowState} (left : a.budget < maxReductions)
      (actuator : self.val = f.sensors.length) (at_ : a.actuator = .receiving)
      (empty : (a.queue self).duties = []) : FlowStep hal f self a true a
  | receive {a : FlowState} {duty : Duty} {q : DutyQueue} (left : a.budget < maxReductions)
      (actuator : self.val = f.sensors.length) (at_ : a.actuator = .receiving)
      (oldest : (a.queue self).duties = duty :: q.duties) :
      FlowStep hal f self a false (((a.setQueue self q).setActuator (.driving duty)).emit
        [.pop self.pid (f.command duty)]).spend
  | drive {a : FlowState} {duty : Duty} {reply : HalReply} (left : a.budget < maxReductions)
      (actuator : self.val = f.sensors.length) (at_ : a.actuator = .driving duty)
      (answer : reply = hal a.trace
        (.pwmSetDuty (BitVec.ofInt 8 f.channel) (duty.val.setWidth 16))) :
      FlowStep hal f self a false ((a.setActuator .looping).emit
        [.hal self.pid (.pwmSetDuty (BitVec.ofInt 8 f.channel) (duty.val.setWidth 16)) reply]).spend
  | loop {a : FlowState} (left : a.budget < maxReductions)
      (actuator : self.val = f.sensors.length) (at_ : a.actuator = .looping) :
      FlowStep hal f self a false (a.setActuator .receiving).spend

/-- The wake-up of the sleepers reads the clock once. -/
def FlowState.wake (hal : Hal) (a : FlowState) : FlowState :=
  a.emit [.hal 0 .monotonicMs (hal a.trace .monotonicMs)]

/-- The states of a deployed flow: between two ticks, or in the slice of a process. -/
inductive FlowReach (hal : Hal) (f : FlowSpec) : Option Slot → FlowState → Prop
  | start : FlowReach hal f none .initial
  | idle {a : FlowState} (before : FlowReach hal f none a) : FlowReach hal f none (a.wake hal)
  | pick {a : FlowState} (self : Slot) (before : FlowReach hal f none a) :
      FlowReach hal f (some self) ((a.wake hal).setBudget 0)
  | step {self : Slot} {a a' : FlowState} (before : FlowReach hal f (some self) a)
      (round : FlowStep hal f self a false a') : FlowReach hal f (some self) a'
  | stop {self : Slot} {a a' : FlowState} (before : FlowReach hal f (some self) a)
      (round : FlowStep hal f self a true a') : FlowReach hal f none a'

end MiniBeam
