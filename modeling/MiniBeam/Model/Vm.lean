import MiniBeam.Model.Machine

/-! The interpreter (`mb_vm.c`). An error exit of `mb_proc_step` throws its status;
`mbProcStep` stores it in `last_error` and returns it. -/

namespace MiniBeam

/-- Interpreter code: it may fault, throw a status, or finish; a throw keeps the state. -/
abbrev Vm := ExceptT Status (StateT Machine (Except Fault))

def fault {α : Type} (f : Fault) : Vm α := throwThe Fault f

def getProc : Vm Process := return (← get).proc

def modifyProc (f : Process → Process) : Vm Unit := modify fun m => m.setProc (f m.proc)

def emit (e : Event) : Vm Unit := modify fun m => { m with trace := m.trace ++ [e] }

def readReg (r : Byte) : Vm Term := do
  match (← getProc).regs[r.toNat]? with
  | some t => return t
  | none => fault (.register r.toNat)

def writeReg (r : Byte) (t : Term) : Vm Unit :=
  if h : r.toNat < regCount then modifyProc fun p => { p with regs := p.regs.set r.toNat t h }
  else fault (.register r.toNat)

def require (b : Bool) (e : Status) : Vm Unit := if b then pure () else throw e

/-! ### Fetching -/

def mbFetchU8 : Vm Byte := do
  let p ← getProc
  if p.pc ≥ p.program.length then throw .eof
  else match p.program[p.pc]? with
    | none => fault (.program p.pc)
    | some b =>
      modifyProc fun p => { p with pc := p.pc + 1 }
      return b

/-- Four little-endian bytes. -/
def mbFetchI32 : Vm I32 := do
  let b0 ← mbFetchU8
  let b1 ← mbFetchU8
  let b2 ← mbFetchU8
  let b3 ← mbFetchU8
  return b0.setWidth 32 ||| (b1.setWidth 32 <<< 8) ||| (b2.setWidth 32 <<< 16) |||
    (b3.setWidth 32 <<< 24)

def mbVmValidReg (reg : Byte) : Bool := decide (reg.toNat < regCount)

/-! ### Built-in functions -/

/-- `mb_bif_t`. -/
inductive Bif where
  | gpioWrite | pwmSetDuty | i2cReadReg | monotonicMs | gpioRead | i2cWriteReg | pwmConfig
  deriving DecidableEq, Repr

/-- The enumerator a BIF byte selects in a `switch`; `none` is `default`. -/
def Bif.ofCode? (n : Byte) : Option Bif :=
  match n.toNat with
  | 1 => some .gpioWrite
  | 2 => some .pwmSetDuty
  | 3 => some .i2cReadReg
  | 4 => some .monotonicMs
  | 5 => some .gpioRead
  | 6 => some .i2cWriteReg
  | 7 => some .pwmConfig
  | _ => none

variable (hal : Hal)

def callHal (call : HalCall) : Vm HalReply := do
  let m ← get
  let reply := hal m.trace call
  emit (.hal m.proc.pid call reply)
  return reply

/-- `REG_INT(argv[i])`: `argv` holds the argument bytes fetched so far. -/
def regInt (argv : List Byte) (i : ℕ) : Vm I32 :=
  match argv[i]? with
  | some r => return getSmallint (← readReg r)
  | none => fault (.argument i)

/-- The `switch` of `mb_call_bif`. -/
def bifCase (argc : Byte) (argv : List Byte) (dst : Byte) : Bif → Vm Unit
  | .gpioWrite => do
    require (argc == 2) .badArgc
    let pin ← regInt argv 0
    let level ← regInt argv 1
    require (mbValidateGpioPin pin && (level == 0 || level == 1)) .badArgument
    let reply ← callHal hal (.gpioWrite (pin.setWidth 8) (level.setWidth 8))
    writeReg dst (makeSmallint reply.rc)
  | .gpioRead => do
    require (argc == 1) .badArgc
    let pin ← regInt argv 0
    require (mbValidateGpioPin pin) .badArgument
    let reply ← callHal hal (.gpioRead (pin.setWidth 8))
    writeReg dst (makeSmallint (if reply.rc = 0 then reply.value.setWidth 32 else reply.rc))
  | .pwmSetDuty => do
    require (argc == 2) .badArgc
    let ch ← regInt argv 0
    let duty ← regInt argv 1
    require (mbValidatePwmChannel ch && mbValidatePwmDuty duty) .badArgument
    let reply ← callHal hal (.pwmSetDuty (ch.setWidth 8) (duty.setWidth 16))
    writeReg dst (makeSmallint reply.rc)
  | .pwmConfig => do
    require (argc == 2) .badArgc
    let ch ← regInt argv 0
    let freq ← regInt argv 1
    require (mbValidatePwmChannel ch && mbValidatePwmFrequency freq) .badArgument
    let reply ← callHal hal (.pwmConfig (ch.setWidth 8) freq)
    writeReg dst (makeSmallint reply.rc)
  | .i2cReadReg => do
    require (argc == 3) .badArgc
    let bus ← regInt argv 0
    let addr ← regInt argv 1
    let reg ← regInt argv 2
    require (mbValidateI2cBus bus && mbValidateI2cAddr addr && mbValidateU8Value reg) .badArgument
    let reply ← callHal hal (.i2cReadReg (bus.setWidth 8) (addr.setWidth 8) (reg.setWidth 8))
    writeReg dst (makeSmallint (if reply.rc = 0 then reply.value.setWidth 32 else reply.rc))
  | .i2cWriteReg => do
    require (argc == 4) .badArgc
    let bus ← regInt argv 0
    let addr ← regInt argv 1
    let reg ← regInt argv 2
    let val ← regInt argv 3
    require (mbValidateI2cBus bus && mbValidateI2cAddr addr && mbValidateU8Value reg &&
      mbValidateU8Value val) .badArgument
    let reply ← callHal hal
      (.i2cWriteReg (bus.setWidth 8) (addr.setWidth 8) (reg.setWidth 8) (val.setWidth 8))
    writeReg dst (makeSmallint reply.rc)
  | .monotonicMs => do
    require (argc == 0) .badArgc
    let reply ← callHal hal .monotonicMs
    writeReg dst (makeSmallint reply.ms)

/-- `mb_call_bif`. -/
def mbCallBif (bifId argc : Byte) (argv : List Byte) (dst : Byte) : Vm Unit := do
  require (mbVmValidReg dst) .badReg
  match Bif.ofCode? bifId with
  | some b => bifCase hal argc argv dst b
  | none => throw .badBif

/-! ### Instructions, one definition for each `case` of `mb_proc_step` -/

/-- `mb_opcode_t`. -/
inductive Opcode where
  | nop | constI32 | move | add | sub | callBif | recvCmd | send | self | yield | jmp | jmpIfZero
  | sleepMs | makeTuple | tupleElem | cons | head | tail | halt
  deriving DecidableEq, Repr

/-- The enumerator an opcode byte selects in the `switch`; `none` is `default`. -/
def Opcode.ofCode? (n : Byte) : Option Opcode :=
  match n.toNat with
  | 0x00 => some .nop
  | 0x01 => some .constI32
  | 0x02 => some .move
  | 0x03 => some .add
  | 0x04 => some .sub
  | 0x10 => some .callBif
  | 0x20 => some .recvCmd
  | 0x21 => some .send
  | 0x22 => some .self
  | 0x23 => some .yield
  | 0x30 => some .jmp
  | 0x31 => some .jmpIfZero
  | 0x40 => some .sleepMs
  | 0x50 => some .makeTuple
  | 0x51 => some .tupleElem
  | 0x52 => some .cons
  | 0x53 => some .head
  | 0x54 => some .tail
  | 0xFF => some .halt
  | _ => none

def opConstI32 : Vm Unit := do
  let dst ← mbFetchU8
  let val ← mbFetchI32
  require (mbVmValidReg dst) .badReg
  writeReg dst (makeSmallint val)

/-- `MOVE`, `ADD` and `SUB` share their operands; `f` is what they write. -/
def opArith (f : Term → Term → Term) : Vm Unit := do
  let dst ← mbFetchU8
  let a ← mbFetchU8
  let b ← mbFetchU8
  require (mbVmValidReg dst && mbVmValidReg a && mbVmValidReg b) .badReg
  let x ← readReg a
  let y ← readReg b
  writeReg dst (f x y)

def opMove : Vm Unit := opArith fun x _ => x
def opAdd : Vm Unit := opArith fun x y => makeSmallint (getSmallint x + getSmallint y)
def opSub : Vm Unit := opArith fun x y => makeSmallint (getSmallint x - getSmallint y)

/-- The argument loop: each register number is checked as it is fetched, and stored in
the buffer `args[8]` behind those already there. -/
def fetchArgs (args : List Byte) : ℕ → Vm (List Byte)
  | 0 => return args
  | n + 1 => do
    let r ← mbFetchU8
    if args.length < 8 then
      require (mbVmValidReg r) .badReg
      fetchArgs (args ++ [r]) n
    else fault (.argument args.length)

def opCallBif : Vm Unit := do
  let bifId ← mbFetchU8
  let argc ← mbFetchU8
  require (decide (argc.toNat ≤ 8)) .badArgc
  let args ← fetchArgs [] argc.toNat
  let dst ← mbFetchU8
  mbCallBif hal bifId argc args dst
  modifyProc fun p => { p with lastError := .ok }

/-- The five writes that end every non-blocking `RECV_CMD`. -/
def writeCommand (rType rA rB rC rD : Byte) (cmd : Command) : Vm Unit := do
  writeReg rType (makeSmallint cmd.type)
  writeReg rA (makeSmallint cmd.a)
  writeReg rB (makeSmallint cmd.b)
  writeReg rC (makeSmallint cmd.c)
  writeReg rD (makeSmallint cmd.d)

def popMailbox : Vm (Option Command) := do
  let p ← getProc
  match mbMailboxPopRaw p.mailbox with
  | .error f => fault f
  | .ok none => return none
  | .ok (some (cmd, mb)) =>
    modifyProc fun p => { p with mailbox := mb }
    emit (.pop p.pid cmd)
    return some cmd

def opRecvCmd (preOpPc : ℕ) : Vm Unit := do
  let rType ← mbFetchU8
  let rA ← mbFetchU8
  let rB ← mbFetchU8
  let rC ← mbFetchU8
  let rD ← mbFetchU8
  require (mbVmValidReg rType && mbVmValidReg rA && mbVmValidReg rB && mbVmValidReg rC &&
    mbVmValidReg rD) .badReg
  match ← popMailbox with
  | some cmd =>
    let rc := mbValidateCommand cmd
    if rc = .ok then
      writeCommand rType rA rB rC rD cmd
      modifyProc fun p => { p with lastError := .ok }
    else
      writeCommand rType rA rB rC rD ⟨CommandType.none.code, rc.code, 0, 0, 0⟩
      modifyProc fun p => { p with lastError := rc }
  | none =>
    if (← get).ctx.scheduled then
      -- block until a message arrives: the same instruction runs again
      modifyProc fun p => { p with pc := preOpPc, state := .waiting }
    else
      writeCommand rType rA rB rC rD
        ⟨CommandType.none.code, Status.mailboxEmpty.code, 0, 0, 0⟩
      modifyProc fun p => { p with lastError := .mailboxEmpty }

/-- `mb_vm_mailbox_push_proc(target, cmd)` and the wake-up after it. -/
def pushTarget (sched : Scheduler) (self target : Slot) (cmd : Command) : Vm Status := do
  match mbVmMailboxPushProc (sched.proc target) cmd with
  | .error f => fault f
  | .ok (rc, p) =>
    let p := if rc = .ok ∧ p.state = .waiting then { p with state := .ready } else p
    modify fun m => { m with ctx := .sched (sched.setProc target p) self }
    emit (.push p.pid cmd rc)
    return rc

def opSend : Vm Unit := do
  let rPid ← mbFetchU8
  let rType ← mbFetchU8
  let rA ← mbFetchU8
  let rB ← mbFetchU8
  let rC ← mbFetchU8
  let rD ← mbFetchU8
  require (mbVmValidReg rPid && mbVmValidReg rType && mbVmValidReg rA && mbVmValidReg rB &&
    mbVmValidReg rC && mbVmValidReg rD) .badReg
  match (← get).ctx with
  | .compat _ => writeReg rPid (makeSmallint Status.badArgument.code)
  | .sched sched self =>
    let pid := (getSmallint (← readReg rPid)).setWidth 8
    match mbSchedProc sched pid with
    | .error f => fault f
    | .ok none => writeReg rPid (makeSmallint Status.badPid.code)
    | .ok (some target) =>
      let type := getSmallint (← readReg rType)
      let a := getSmallint (← readReg rA)
      let b := getSmallint (← readReg rB)
      let c := getSmallint (← readReg rC)
      let d := getSmallint (← readReg rD)
      let rc ← pushTarget sched self target ⟨type, a, b, c, d⟩
      writeReg rPid (makeSmallint rc.code)

def opSelf : Vm Unit := do
  let rDst ← mbFetchU8
  require (mbVmValidReg rDst) .badReg
  let p ← getProc
  writeReg rDst (makePid p.pid)

def opYield : Vm Unit := modifyProc fun p => { p with reductions := maxReductions }

/-- `(size_t)v` of a signed value, with a 64-bit `size_t`. -/
def sizeOfI32 (v : I32) : ℕ := (v.signExtend 64).toNat

/-- The jump shared by `JMP` and a taken `JMP_IF_ZERO`. The backward check comes before
`pc` is written, the forward check after. -/
def jump (offset : I32) : Vm Unit := do
  let p ← getProc
  if offset.toInt < 0 ∧ sizeOfI32 (-offset) > p.pc then throw .eof
  else
    modifyProc fun p => { p with pc := ((p.pc : ℤ) + offset.toInt).toNat }
    let p ← getProc
    require (decide (p.pc ≤ p.program.length)) .eof

def opJmp : Vm Unit := do
  let offset ← mbFetchI32
  jump offset

def opJmpIfZero : Vm Unit := do
  let reg ← mbFetchU8
  let offset ← mbFetchI32
  require (mbVmValidReg reg) .badReg
  let t ← readReg reg
  if t = makeSmallint 0 then jump offset else pure ()

def opSleepMs : Vm Unit := do
  let reg ← mbFetchU8
  require (mbVmValidReg reg) .badReg
  if (← get).ctx.scheduled then
    let reply ← callHal hal .monotonicMs
    let t ← readReg reg
    modifyProc fun p =>
      { p with sleepUntilMs := reply.ms + getSmallint t, state := .sleeping }
  else
    let t ← readReg reg
    let _ ← callHal hal (.delayMs (getSmallint t))
    pure ()

/-! ### Heap instructions -/

/-- `mb_heap_gc` with the addresses of all registers as roots. -/
def gcRegs (p : Process) : Except Fault Process := do
  let (roots, heap) ← mbHeapGc p.heap p.regs.toList
  return { p with heap := heap, regs := Vector.ofFn fun i => roots.getD i 0 }

def collect : Vm Unit := do
  match gcRegs (← getProc) with
  | .error f => fault f
  | .ok p => modifyProc fun _ => p

def heapCall (f : Heap → Except Fault (Term × Heap)) : Vm Term := do
  let p ← getProc
  match f p.heap with
  | .error e => fault e
  | .ok (t, heap) =>
    modifyProc fun p => { p with heap := heap }
    return t

/-- The element loop: the registers are read as their numbers are fetched. -/
def fetchElems (elems : List Term) : ℕ → Vm (List Term)
  | 0 => return elems
  | n + 1 => do
    let r ← mbFetchU8
    require (mbVmValidReg r) .badReg
    if elems.length < maxTupleArity then
      let t ← readReg r
      fetchElems (elems ++ [t]) n
    else fault (.element elems.length)

def opMakeTuple : Vm Unit := do
  let rDst ← mbFetchU8
  let arity ← mbFetchU8
  require (mbVmValidReg rDst && decide (arity.toNat ≤ maxTupleArity))
    (if arity.toNat > maxTupleArity then .badArity else .badReg)
  let elems ← fetchElems [] arity.toNat
  let result ← heapCall fun heap => mbHeapMakeTuple heap elems arity.toNat
  if result ≠ 0 then writeReg rDst result
  else
    -- collect and retry, with the element values read before the collection
    collect
    let result ← heapCall fun heap => mbHeapMakeTuple heap elems arity.toNat
    require (result != 0) .heapOom
    writeReg rDst result

def opTupleElem : Vm Unit := do
  let rDst ← mbFetchU8
  let rTuple ← mbFetchU8
  let index ← mbFetchU8
  require (mbVmValidReg rDst && mbVmValidReg rTuple) .badReg
  let t ← readReg rTuple
  require (isBoxed t) .badTerm
  let hdr ← heapCall fun heap => return (← readWord heap.fromSpace (getBoxed t), heap)
  require (isTupleHdr hdr) .badTerm
  require (decide (index.toNat < getTupleArity hdr)) .badArity
  let e ← heapCall fun heap =>
    return (← readWord heap.fromSpace (getBoxed t + (1 + index.toNat)), heap)
  writeReg rDst e

def opCons : Vm Unit := do
  let rDst ← mbFetchU8
  let rHead ← mbFetchU8
  let rTail ← mbFetchU8
  require (mbVmValidReg rDst && mbVmValidReg rHead && mbVmValidReg rTail) .badReg
  let head ← readReg rHead
  let tail ← readReg rTail
  let result ← heapCall fun heap => mbHeapCons heap head tail
  if result ≠ 0 then writeReg rDst result
  else
    collect
    let head ← readReg rHead
    let tail ← readReg rTail
    let result ← heapCall fun heap => mbHeapCons heap head tail
    require (result != 0) .heapOom
    writeReg rDst result

/-- `HEAD` and `TAIL` differ in the word of the cell they read. -/
def opField (i : ℕ) : Vm Unit := do
  let rDst ← mbFetchU8
  let rCons ← mbFetchU8
  require (mbVmValidReg rDst && mbVmValidReg rCons) .badReg
  let t ← readReg rCons
  require (isCons t) .badTerm
  let w ← heapCall fun heap => return (← readWord heap.fromSpace (getCons t + i), heap)
  writeReg rDst w

def opHead : Vm Unit := opField 0
def opTail : Vm Unit := opField 1

def opHalt : Vm Unit := modifyProc fun p => { p with halted := true, state := .halted }

/-! ### Stepping and running -/

/-- The `switch` of `mb_proc_step`. -/
def dispatch (preOpPc : ℕ) : Option Opcode → Vm Unit
  | some .nop => pure ()
  | some .constI32 => opConstI32
  | some .move => opMove
  | some .add => opAdd
  | some .sub => opSub
  | some .callBif => opCallBif hal
  | some .recvCmd => opRecvCmd preOpPc
  | some .send => opSend
  | some .self => opSelf
  | some .yield => opYield
  | some .jmp => opJmp
  | some .jmpIfZero => opJmpIfZero
  | some .sleepMs => opSleepMs hal
  | some .makeTuple => opMakeTuple
  | some .tupleElem => opTupleElem
  | some .cons => opCons
  | some .head => opHead
  | some .tail => opTail
  | some .halt => opHalt
  | none => throw .badOpcode

/-- The fetch of the opcode and the `switch`. -/
def stepBody : Vm Unit := do
  let preOpPc := (← getProc).pc
  let op ← mbFetchU8
  dispatch hal preOpPc (Opcode.ofCode? op)

/-- `mb_proc_step`: the status returned, and the machine after the instruction. -/
def mbProcStep (m : Machine) : Except Fault (Status × Machine) :=
  if m.proc.halted then .ok (.ok, m)
  else
    match stepBody hal m with
    | .error f => .error f
    | .ok (.ok _, m) => .ok (.ok, m)
    | .ok (.error rc, m) => .ok (rc, m.setProc { m.proc with lastError := rc })

/-- One round of the loop of `mb_proc_run`: the status to return, or `none` to go on. -/
def runRound (maxSteps : ℕ) (m : Machine) : Except Fault (Option Status × Machine) :=
  if m.proc.halted ∨ m.proc.reductions ≥ maxSteps then .ok (some .ok, m)
  else do
    let (rc, m) ← mbProcStep hal m
    if rc ≠ .ok then return (some rc, m)
    else if m.ctx.scheduled ∧ m.proc.state ≠ .ready then return (some .ok, m)
    else return (none, m.setProc { m.proc with reductions := m.proc.reductions + 1 })

/-- The loop of `mb_proc_run`, for at most `fuel` rounds. -/
def runLoop (maxSteps : ℕ) : ℕ → Machine → Except Fault (Status × Machine)
  | 0, _ => .error .fuel
  | fuel + 1, m => do
    match ← runRound hal maxSteps m with
    | (some rc, m) => return (rc, m)
    | (none, m) => runLoop maxSteps fuel m

/-- `mb_proc_run`. -/
def mbProcRun (fuel maxSteps : ℕ) (m : Machine) : Except Fault (Status × Machine) :=
  runLoop hal maxSteps fuel (m.setProc { m.proc with reductions := 0 })

end MiniBeam
