import MiniBeam.Model.Vm

/-! The single-process layer `mb_vm_t` (`mb_vm.h`, end of `mb_vm.c`). -/

namespace MiniBeam

/-- `mb_vm_t`. -/
structure VmState where
  program : List Byte
  pc : ℕ
  regs : Vector Term regCount
  mailbox : Mailbox
  halted : Bool
  lastError : Status
  deriving DecidableEq

/-- `mb_vm_init`. -/
def mbVmInit (program : List Byte) : VmState :=
  { program := program
    pc := 0
    regs := Vector.replicate regCount 0
    mailbox := Mailbox.zero
    halted := false
    lastError := .ok }

/-- `mb_vm_to_proc`: every field the copy leaves out, the heap included, is zero. -/
def mbVmToProc (vm : VmState) : Process :=
  { Process.zero with
    state := if vm.halted then .halted else .ready
    program := vm.program
    pc := vm.pc
    regs := vm.regs
    mailbox := vm.mailbox
    halted := vm.halted
    lastError := vm.lastError }

/-- `mb_proc_to_vm`. -/
def mbProcToVm (proc : Process) (vm : VmState) : VmState :=
  { vm with
    pc := proc.pc
    regs := proc.regs
    mailbox := proc.mailbox
    halted := proc.halted
    lastError := proc.lastError }

/-- `mb_vm_mailbox_push`. -/
def mbVmMailboxPush (vm : VmState) (cmd : Command) : Except Fault (Status × VmState) := do
  let (rc, mb) ← mbMailboxPushRaw vm.mailbox cmd
  return (rc, { vm with mailbox := mb })

/-- `mb_vm_mailbox_pop`. -/
def mbVmMailboxPop (vm : VmState) : Except Fault (Option Command × VmState) := do
  match ← mbMailboxPopRaw vm.mailbox with
  | none => return (none, vm)
  | some (cmd, mb) => return (some cmd, { vm with mailbox := mb })

variable (hal : Hal)

/-- `mb_vm_step`. -/
def mbVmStep (vm : VmState) (trace : Trace) : Except Fault (Status × VmState × Trace) := do
  let (rc, m) ← mbProcStep hal ⟨.compat (mbVmToProc vm), trace⟩
  return (rc, mbProcToVm m.proc vm, m.trace)

/-- `mb_vm_run`, for at most `fuel` rounds of its loop. -/
def mbVmRun (fuel maxSteps : ℕ) (vm : VmState) (trace : Trace) :
    Except Fault (Status × VmState × Trace) := do
  let (rc, m) ← mbProcRun hal fuel maxSteps ⟨.compat (mbVmToProc vm), trace⟩
  return (rc, mbProcToVm m.proc vm, m.trace)

/-- The calls native code makes on a VM. -/
inductive VmCall where
  | push (cmd : Command)
  | pop
  | step
  | run (fuel maxSteps : ℕ)
  deriving DecidableEq

def runVmCall (vm : VmState) (trace : Trace) : VmCall → Except Fault (VmState × Trace)
  | .push cmd => return ((← mbVmMailboxPush vm cmd).2, trace)
  | .pop => return ((← mbVmMailboxPop vm).2, trace)
  | .step => return (← mbVmStep hal vm trace).2
  | .run fuel maxSteps => return (← mbVmRun hal fuel maxSteps vm trace).2

def runVmCalls (vm : VmState) (trace : Trace) : List VmCall → Except Fault (VmState × Trace)
  | [] => .ok (vm, trace)
  | call :: calls => do
    let (vm, trace) ← runVmCall hal vm trace call
    runVmCalls vm trace calls

end MiniBeam
