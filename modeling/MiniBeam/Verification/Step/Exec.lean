import MiniBeam.Verification.Step.Decode
import MiniBeam.Verification.Step.Lens

/-! The effect of a decoded instruction, as a function on the process that runs it.
`SEND` under a scheduler is the one instruction that reaches other table entries. -/

namespace MiniBeam

/-- The status returned, the process after the instruction, and the events. -/
abbrev Outcome := Status × Process × List Event

namespace Process

def reg (p : Process) (r : Reg) : Term := p.regs[r]

/-- The integer a register reads as. -/
def int (p : Process) (r : Reg) : I32 := getSmallint (p.reg r)

def setReg (p : Process) (r : Reg) (t : Term) : Process := { p with regs := p.regs.set r t }

def setPc (p : Process) (pc : ℕ) : Process := { p with pc := pc }

def setMailbox (p : Process) (mb : Mailbox) : Process := { p with mailbox := mb }

def setHeap (p : Process) (heap : Heap) : Process := { p with heap := heap }

def fail (p : Process) (e : Status) : Process := { p with lastError := e }

@[simp] theorem setPc_pc (p : Process) (n : ℕ) : (p.setPc n).pc = n := rfl
@[simp] theorem setPc_program (p : Process) (n : ℕ) : (p.setPc n).program = p.program := rfl
@[simp] theorem setPc_reg (p : Process) (n : ℕ) (r : Reg) : (p.setPc n).reg r = p.reg r := rfl
@[simp] theorem setPc_heap (p : Process) (n : ℕ) : (p.setPc n).heap = p.heap := rfl
@[simp] theorem setPc_mailbox (p : Process) (n : ℕ) : (p.setPc n).mailbox = p.mailbox := rfl
@[simp] theorem setPc_pid (p : Process) (n : ℕ) : (p.setPc n).pid = p.pid := rfl
@[simp] theorem setPc_setPc (p : Process) (n k : ℕ) : (p.setPc n).setPc k = p.setPc k := rfl
@[simp] theorem setPc_self (p : Process) : p.setPc p.pc = p := rfl

@[simp] theorem reg_setReg (p : Process) (r r' : Reg) (t : Term) :
    (p.setReg r t).reg r' = if r = r' then t else p.reg r' := by
  by_cases h : r = r'
  · subst h
    simp [Process.reg, Process.setReg]
  · have hv : (r : ℕ) ≠ r' := fun he => h (Fin.ext he)
    simp [Process.reg, Process.setReg, h, hv]

end Process

/-- A value or a refusal. -/
def checked {α : Type} (ok : Bool) (e : Status) (a : α) : Except Status α :=
  if ok then .ok a else .error e

/-- What a read-type BIF loads: the byte read, or the error code. -/
def readResult (r : HalReply) : I32 := if r.rc = 0 then r.value.setWidth 32 else r.rc

/-- The HAL call of one BIF on integer arguments, and the value it loads from the reply;
or the status of its argument checks. -/
def Bif.request : Bif → List I32 → Except Status (HalCall × (HalReply → I32))
  | .gpioWrite, [pin, level] =>
    checked (mbValidateGpioPin pin && (level == 0 || level == 1)) .badArgument
      (.gpioWrite (pin.setWidth 8) (level.setWidth 8), HalReply.rc)
  | .gpioRead, [pin] =>
    checked (mbValidateGpioPin pin) .badArgument (.gpioRead (pin.setWidth 8), readResult)
  | .pwmSetDuty, [ch, duty] =>
    checked (mbValidatePwmChannel ch && mbValidatePwmDuty duty) .badArgument
      (.pwmSetDuty (ch.setWidth 8) (duty.setWidth 16), HalReply.rc)
  | .pwmConfig, [ch, freq] =>
    checked (mbValidatePwmChannel ch && mbValidatePwmFrequency freq) .badArgument
      (.pwmConfig (ch.setWidth 8) freq, HalReply.rc)
  | .i2cReadReg, [bus, addr, reg] =>
    checked (mbValidateI2cBus bus && mbValidateI2cAddr addr && mbValidateU8Value reg) .badArgument
      (.i2cReadReg (bus.setWidth 8) (addr.setWidth 8) (reg.setWidth 8), readResult)
  | .i2cWriteReg, [bus, addr, reg, val] =>
    checked (mbValidateI2cBus bus && mbValidateI2cAddr addr && mbValidateU8Value reg &&
      mbValidateU8Value val) .badArgument
      (.i2cWriteReg (bus.setWidth 8) (addr.setWidth 8) (reg.setWidth 8) (val.setWidth 8),
        HalReply.rc)
  | .monotonicMs, [] => .ok (.monotonicMs, HalReply.ms)
  | _, _ => .error .badArgc

def bifRequest (bifId : Byte) (args : List I32) : Except Status (HalCall × (HalReply → I32)) :=
  match Bif.ofCode? bifId with
  | some b => b.request args
  | none => .error .badBif

/-- The five register writes of `RECV_CMD`. -/
def Process.loadCommand (p : Process) (rType rA rB rC rD : Reg) (cmd : Command) : Process :=
  ((((p.setReg rType (makeSmallint cmd.type)).setReg rA (makeSmallint cmd.a)).setReg rB
    (makeSmallint cmd.b)).setReg rC (makeSmallint cmd.c)).setReg rD (makeSmallint cmd.d)

/-- A jump from the address after the instruction. -/
def jumpTo (p : Process) (offset : I32) : Status × Process :=
  if offset.toInt < 0 ∧ sizeOfI32 (-offset) > p.pc then (.eof, p)
  else
    let pc := ((p.pc : ℤ) + offset.toInt).toNat
    (if pc ≤ p.program.length then .ok else .eof, p.setPc pc)

/-- A heap allocation with one collection and one retry. The retry gets the process
after the collection, so an instruction may read its registers again. -/
def allocate (p : Process) (alloc : Process → Except Fault (Term × Heap)) (dst : Reg) :
    Except Fault (Status × Process) := do
  let (t, heap) ← alloc p
  let p := p.setHeap heap
  if t ≠ 0 then return (.ok, p.setReg dst t)
  else
    let p ← gcRegs p
    let (t, heap) ← alloc p
    let p := p.setHeap heap
    if t ≠ 0 then return (.ok, p.setReg dst t) else return (.heapOom, p)

variable (hal : Hal) (scheduled : Bool) (preOpPc : ℕ)

/-- The status thrown, or `ok`, with the process and the events; `last_error` of a
failing instruction is set by the step. -/
def Instr.run (p : Process) (trace : Trace) : Instr → Except Fault Outcome
  | .nop => return (.ok, p, [])
  | .constI32 dst val => return (.ok, p.setReg dst (makeSmallint val), [])
  | .move dst a _ => return (.ok, p.setReg dst (p.reg a), [])
  | .add dst a b => return (.ok, p.setReg dst (makeSmallint (p.int a + p.int b)), [])
  | .sub dst a b => return (.ok, p.setReg dst (makeSmallint (p.int a - p.int b)), [])
  | .callBif bifId args dst =>
    if h : dst.toNat < regCount then
      match bifRequest bifId (args.map p.int) with
      | .error e => return (e, p, [])
      | .ok (call, load) =>
        let reply := hal trace call
        return (.ok, (p.setReg ⟨dst.toNat, h⟩ (makeSmallint (load reply))).fail .ok,
          [.hal p.pid call reply])
    else return (.badReg, p, [])
  | .recvCmd rType rA rB rC rD => do
    match ← mbMailboxPopRaw p.mailbox with
    | some (cmd, mb) =>
      let rc := mbValidateCommand cmd
      let seen := if rc = .ok then cmd else ⟨CommandType.none.code, rc.code, 0, 0, 0⟩
      return (.ok, ((p.setMailbox mb).loadCommand rType rA rB rC rD seen).fail rc,
        [.pop p.pid cmd])
    | none =>
      if scheduled then return (.ok, { p with pc := preOpPc, state := .waiting }, [])
      else
        return (.ok, (p.loadCommand rType rA rB rC rD
          ⟨CommandType.none.code, Status.mailboxEmpty.code, 0, 0, 0⟩).fail .mailboxEmpty, [])
  | .send rPid _ _ _ _ _ =>
    return (.ok, p.setReg rPid (makeSmallint Status.badArgument.code), [])
  | .self dst => return (.ok, p.setReg dst (makePid p.pid), [])
  | .yield => return (.ok, { p with reductions := maxReductions }, [])
  | .jmp offset => return ((jumpTo p offset).1, (jumpTo p offset).2, [])
  | .jmpIfZero reg offset =>
    if p.reg reg = makeSmallint 0 then return ((jumpTo p offset).1, (jumpTo p offset).2, [])
    else return (.ok, p, [])
  | .sleepMs reg =>
    if scheduled then
      let reply := hal trace .monotonicMs
      return (.ok, { p with sleepUntilMs := reply.ms + p.int reg, state := .sleeping },
        [.hal p.pid .monotonicMs reply])
    else
      let call := HalCall.delayMs (p.int reg)
      return (.ok, p, [.hal p.pid call (hal trace call)])
  | .makeTuple dst elems => do
    let old := elems.map p.reg
    let (rc, p) ← allocate p (fun q => mbHeapMakeTuple q.heap old old.length) dst
    return (rc, p, [])
  | .tupleElem dst tuple index => do
    let t := p.reg tuple
    if isBoxed t then
      let hdr ← readWord p.heap.fromSpace (getBoxed t)
      if ¬ isTupleHdr hdr then return (.badTerm, p, [])
      else if index.toNat < getTupleArity hdr then
        let e ← readWord p.heap.fromSpace (getBoxed t + (1 + index.toNat))
        return (.ok, p.setReg dst e, [])
      else return (.badArity, p, [])
    else return (.badTerm, p, [])
  | .cons dst hd tl => do
    let (rc, p) ← allocate p (fun q => mbHeapCons q.heap (q.reg hd) (q.reg tl)) dst
    return (rc, p, [])
  | .head dst cell => do
    let t := p.reg cell
    if isCons t then
      let w ← readWord p.heap.fromSpace (getCons t)
      return (.ok, p.setReg dst w, [])
    else return (.badTerm, p, [])
  | .tail dst cell => do
    let t := p.reg cell
    if isCons t then
      let w ← readWord p.heap.fromSpace (getCons t + 1)
      return (.ok, p.setReg dst w, [])
    else return (.badTerm, p, [])
  | .halt => return (.ok, { p with halted := true, state := .halted }, [])

/-- A push onto the mailbox of a table entry, and the wake-up after it. -/
def deliver (sched : Scheduler) (target : Slot) (cmd : Command) :
    Except Fault (Status × Scheduler) := do
  let (rc, p) ← mbVmMailboxPushProc (sched.proc target) cmd
  let p := if rc = .ok ∧ p.state = .waiting then { p with state := .ready } else p
  return (rc, sched.setProc target p)

/-- The command a `SEND` builds from its registers. -/
def Process.command (p : Process) (rType rA rB rC rD : Reg) : Command :=
  ⟨p.int rType, p.int rA, p.int rB, p.int rC, p.int rD⟩

/-- The result code of a `SEND`, stored where the target pid was. -/
def answer (sched : Scheduler) (self : Slot) (rPid : Reg) (rc : Status) : Scheduler :=
  sched.setProc self ((sched.proc self).setReg rPid (makeSmallint rc.code))

/-- `SEND` of the process in slot `self`: the table and the events after it. -/
def sendFrom (sched : Scheduler) (self : Slot) (rPid rType rA rB rC rD : Reg) :
    Except Fault (Scheduler × List Event) := do
  let p := sched.proc self
  match ← mbSchedProc sched ((p.int rPid).setWidth 8) with
  | none => return (answer sched self rPid .badPid, [])
  | some target =>
    let cmd := p.command rType rA rB rC rD
    let (rc, after) ← deliver sched target cmd
    return (answer after self rPid rc, [.push (sched.proc target).pid cmd rc])

/-- The machine after a decoded instruction. -/
def execInstr (m : Machine) : Instr → Except Fault (Status × Machine)
  | .send rPid rType rA rB rC rD =>
    match m.ctx with
    | .compat p => return (.ok, { m with
        ctx := .compat (p.setReg rPid (makeSmallint Status.badArgument.code)) })
    | .sched sched self => do
      let (after, events) ← sendFrom sched self rPid rType rA rB rC rD
      return (.ok, ⟨.sched after self, m.trace ++ events⟩)
  | i => do
    let (rc, p, events) ← i.run hal m.ctx.scheduled preOpPc m.proc m.trace
    return (rc, (m.setProc (if rc = .ok then p else p.fail rc)).emit events)

def Instr.opcode : Instr → Opcode
  | .nop => .nop
  | .constI32 .. => .constI32
  | .move .. => .move
  | .add .. => .add
  | .sub .. => .sub
  | .callBif .. => .callBif
  | .recvCmd .. => .recvCmd
  | .send .. => .send
  | .self .. => .self
  | .yield => .yield
  | .jmp .. => .jmp
  | .jmpIfZero .. => .jmpIfZero
  | .sleepMs .. => .sleepMs
  | .makeTuple .. => .makeTuple
  | .tupleElem .. => .tupleElem
  | .cons .. => .cons
  | .head .. => .head
  | .tail .. => .tail
  | .halt => .halt

def Instr.IsSend (i : Instr) : Prop := ∃ rPid rType rA rB rC rD, i = .send rPid rType rA rB rC rD

theorem Instr.not_isSend {i : Instr} (h : i.opcode ≠ .send) : ¬ i.IsSend := by
  rintro ⟨_, _, _, _, _, _, rfl⟩
  exact h rfl

/-- Every instruction but `SEND` is its effect on the running process. -/
theorem execInstr_run {m : Machine} {i : Instr} (hi : ¬ i.IsSend) :
    execInstr hal preOpPc m i = do
      let (rc, p, events) ← i.run hal m.ctx.scheduled preOpPc m.proc m.trace
      return (rc, (m.setProc (if rc = .ok then p else p.fail rc)).emit events) := by
  cases i with
  | send rPid rType rA rB rC rD => exact absurd ⟨rPid, rType, rA, rB, rC, rD, rfl⟩ hi
  | _ => rfl

/-- What an instruction other than `SEND` leaves behind. -/
theorem execInstr_ok {m m' : Machine} {i : Instr} {rc : Status} (hi : ¬ i.IsSend)
    (h : execInstr hal preOpPc m i = .ok (rc, m')) :
    ∃ p events, i.run hal m.ctx.scheduled preOpPc m.proc m.trace = .ok (rc, p, events) ∧
      m' = (m.setProc (if rc = .ok then p else p.fail rc)).emit events := by
  rw [execInstr_run hal preOpPc hi] at h
  obtain ⟨⟨rc', p, events⟩, hrun, h⟩ := bind_eq_ok.mp h
  simp only [pure_ok, Except.ok.injEq, Prod.mk.injEq] at h
  obtain ⟨rfl, rfl⟩ := h
  exact ⟨p, events, hrun, rfl⟩

end MiniBeam
