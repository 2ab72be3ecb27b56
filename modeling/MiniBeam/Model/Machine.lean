import MiniBeam.Model.Heap
import MiniBeam.Model.Mailbox

/-! Processes, the process table, and the machine state one instruction sees
(`mb_process.h`, `mb_scheduler.h`). -/

namespace MiniBeam

/-- `mb_proc_state_t`. -/
inductive ProcState where
  | free | ready | waiting | sleeping | halted
  deriving DecidableEq, Repr

/-- `mb_process_t`; `program_size` is the length of `program`. -/
structure Process where
  pid : Byte
  state : ProcState
  program : List Byte
  pc : ℕ
  regs : Vector Term regCount
  mailbox : Mailbox
  halted : Bool
  lastError : Status
  heap : Heap
  sleepUntilMs : BitVec 32
  reductions : ℕ
  deriving DecidableEq

/-- All-zero memory, as `memset` leaves it. -/
def Process.zero : Process :=
  { pid := 0
    state := .free
    program := []
    pc := 0
    regs := Vector.replicate regCount 0
    mailbox := Mailbox.zero
    halted := false
    lastError := .ok
    heap := Heap.zero
    sleepUntilMs := 0
    reductions := 0 }

/-- `mb_proc_init`. -/
def mbProcInit (pid : Byte) (program : List Byte) : Process :=
  { Process.zero with pid := pid, state := .ready, program := program, heap := mbHeapInit }

/-- `mb_vm_mailbox_push_proc`. -/
def mbVmMailboxPushProc (proc : Process) (cmd : Command) : Except Fault (Status × Process) := do
  let (rc, mb) ← mbMailboxPushRaw proc.mailbox cmd
  return (rc, { proc with mailbox := mb })

/-- An index of the process table. -/
abbrev Slot := Fin maxProcesses

/-- `mb_scheduler_t`. -/
structure Scheduler where
  procs : Vector Process maxProcesses
  current : ℕ
  count : ℕ
  deriving DecidableEq

def Scheduler.proc (sched : Scheduler) (i : Slot) : Process := sched.procs[i]

def Scheduler.setProc (sched : Scheduler) (i : Slot) (p : Process) : Scheduler :=
  { sched with procs := sched.procs.set i p }

/-- `mb_sched_proc`: the slot a pid names, or `none` for a null pointer. -/
def mbSchedProc (sched : Scheduler) (pid : Byte) : Except Fault (Option Slot) :=
  if pid = 0 ∨ pid.toNat > maxProcesses then .ok none
  else if h : pid.toNat - 1 < maxProcesses then
    if (sched.proc ⟨pid.toNat - 1, h⟩).state = .free then .ok none
    else .ok (some ⟨pid.toNat - 1, h⟩)
  else .error (.table (pid.toNat - 1))

/-- The arguments of `mb_proc_step`: a process on its own with a null scheduler, or a
scheduler and a pointer into its table. -/
inductive Context where
  | compat (proc : Process)
  | sched (sched : Scheduler) (self : Slot)
  deriving DecidableEq

namespace Context

def proc : Context → Process
  | compat p => p
  | sched s self => s.proc self

def setProc : Context → Process → Context
  | compat _, p => compat p
  | sched s self, p => sched (s.setProc self p) self

/-- `sched != NULL`. -/
def scheduled : Context → Bool
  | compat _ => false
  | sched _ _ => true

end Context

/-- What an instruction can read and write, with the events so far. -/
structure Machine where
  ctx : Context
  trace : Trace

def Machine.proc (m : Machine) : Process := m.ctx.proc

def Machine.setProc (m : Machine) (p : Process) : Machine := { m with ctx := m.ctx.setProc p }

end MiniBeam
