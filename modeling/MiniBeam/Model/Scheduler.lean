import MiniBeam.Model.Vm
import Mathlib.Data.List.FinRange

/-! The cooperative round-robin scheduler (`mb_scheduler.c`). -/

namespace MiniBeam

/-- `mb_sched_init`: all slots free. -/
def mbSchedInit : Scheduler :=
  { procs := Vector.replicate maxProcesses Process.zero, current := 0, count := 0 }

/-- `mb_sched_spawn`: the pid, or 0 (`MB_PID_NONE`) when the table is full. -/
def mbSchedSpawn (sched : Scheduler) (program : List Byte) : Byte × Scheduler :=
  match (List.finRange maxProcesses).find? fun i => (sched.proc i).state = .free with
  | none => (0, sched)
  | some i =>
    let pid := BitVec.ofNat 8 (i.val + 1)
    (pid, { sched.setProc i (mbProcInit pid program) with count := (sched.count + 1) % 256 })

/-- The scheduler with the events so far. -/
structure System where
  sched : Scheduler
  trace : Trace

def System.init : System := ⟨mbSchedInit, []⟩

/-- `mb_sched_send`. -/
def mbSchedSend (sys : System) (dst : Byte) (cmd : Command) : Except Fault (Status × System) := do
  match ← mbSchedProc sys.sched dst with
  | none => return (.badPid, sys)
  | some target =>
    let (rc, p) ← mbVmMailboxPushProc (sys.sched.proc target) cmd
    let p := if rc = .ok ∧ p.state = .waiting then { p with state := .ready } else p
    return (rc, ⟨sys.sched.setProc target p, sys.trace ++ [.push p.pid cmd rc]⟩)

/-- The wake-up of one table entry. -/
def wake (now : BitVec 32) (p : Process) : Process :=
  if p.state = .sleeping ∧ p.sleepUntilMs ≤ now then { p with state := .ready } else p

variable (hal : Hal)

/-- `mb_sched_wake_sleepers`. -/
def mbSchedWakeSleepers (sys : System) : System :=
  let reply := hal sys.trace .monotonicMs
  { sched := { sys.sched with procs := sys.sched.procs.map (wake reply.ms) }
    trace := sys.trace ++ [.hal 0 .monotonicMs reply] }

/-- The round-robin scan from `start + i`, over `n` more entries. -/
def scanReady (sched : Scheduler) (start i : ℕ) : ℕ → Except Fault (Option Slot)
  | 0 => .ok none
  | n + 1 =>
    let idx := (start + i) % maxProcesses
    if h : idx < maxProcesses then
      if (sched.proc ⟨idx, h⟩).state = .ready then .ok (some ⟨idx, h⟩)
      else scanReady sched start (i + 1) n
    else .error (.table idx)

/-- The part of `mb_sched_tick` before the call of `mb_proc_run`: the chosen slot, with
`current` moved past it, or `none` when no process is runnable. -/
def mbSchedPick (sys : System) : Except Fault (Option Slot × System) := do
  let sys := mbSchedWakeSleepers hal sys
  match ← scanReady sys.sched sys.sched.current 0 maxProcesses with
  | none => return (none, sys)
  | some idx =>
    return (some idx, { sys with
      sched := { sys.sched with current := (idx.val + 1) % maxProcesses } })

/-- The arguments `mb_sched_tick` passes to `mb_proc_run`. -/
def System.machine (sys : System) (self : Slot) : Machine := ⟨.sched sys.sched self, sys.trace⟩

/-- The scheduler an instruction leaves behind; `default` for a process without one. -/
def Machine.system (default : System) (m : Machine) : System :=
  match m.ctx with
  | .sched sched _ => ⟨sched, m.trace⟩
  | .compat _ => default

/-- `mb_sched_tick`. A slice has at most `MB_REDUCTIONS` rounds and the one that ends it. -/
def mbSchedTick (sys : System) : Except Fault (Status × System) := do
  match ← mbSchedPick hal sys with
  | (none, sys) => return (.schedIdle, sys)
  | (some self, sys) =>
    let (rc, m) ← mbProcRun hal (maxReductions + 1) maxReductions (sys.machine self)
    return (rc, m.system sys)

/-! ### Runs of the whole system -/

/-- The calls native code makes on a scheduler. -/
inductive Call where
  | spawn (program : List Byte)
  | send (dst : Byte) (cmd : Command)
  | tick
  deriving DecidableEq

def runCall (sys : System) : Call → Except Fault System
  | .spawn program => .ok { sys with sched := (mbSchedSpawn sys.sched program).2 }
  | .send dst cmd => return (← mbSchedSend sys dst cmd).2
  | .tick => return (← mbSchedTick hal sys).2

def runCalls (sys : System) : List Call → Except Fault System
  | [] => .ok sys
  | call :: calls => do runCalls (← runCall hal sys call) calls

end MiniBeam
