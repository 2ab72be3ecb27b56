import MiniBeam.Model.Vm

/-! The instruction set as data. Decoding reads the program and moves the pc, and
nothing else; a decoded instruction has only register numbers below 16. -/

namespace MiniBeam

/-- A register number that passed `mb_vm_valid_reg`. -/
abbrev Reg := Fin regCount

inductive Instr where
  | nop
  | constI32 (dst : Reg) (val : I32)
  | move (dst a b : Reg)
  | add (dst a b : Reg)
  | sub (dst a b : Reg)
  | callBif (bifId : Byte) (args : List Reg) (dst : Byte)
  | recvCmd (rType rA rB rC rD : Reg)
  | send (rPid rType rA rB rC rD : Reg)
  | self (dst : Reg)
  | yield
  | jmp (offset : I32)
  | jmpIfZero (reg : Reg) (offset : I32)
  | sleepMs (reg : Reg)
  | makeTuple (dst : Reg) (elems : List Reg)
  | tupleElem (dst tuple : Reg) (index : Byte)
  | cons (dst head tail : Reg)
  | head (dst cell : Reg)
  | tail (dst cell : Reg)
  | halt
  deriving DecidableEq, Repr

/-- A decoder reads a value or stops with a status, and tells where the pc is then. -/
def Decoder (α : Type) := ℕ → Except Status α × ℕ

instance : Monad Decoder where
  pure a := fun pc => (.ok a, pc)
  bind d k := fun pc =>
    match d pc with
    | (.error e, pc) => (.error e, pc)
    | (.ok a, pc) => k a pc

def stop {α : Type} (e : Status) : Decoder α := fun pc => (.error e, pc)

section Operands

variable (program : List Byte)

def u8 : Decoder Byte := fun pc =>
  match program[pc]? with
  | some b => (.ok b, pc + 1)
  | none => (.error .eof, pc)

def i32 : Decoder I32 := do
  let b0 ← u8 program
  let b1 ← u8 program
  let b2 ← u8 program
  let b3 ← u8 program
  return b0.setWidth 32 ||| (b1.setWidth 32 <<< 8) ||| (b2.setWidth 32 <<< 16) |||
    (b3.setWidth 32 <<< 24)

def toReg (b : Byte) : Decoder Reg :=
  if h : b.toNat < regCount then return ⟨b.toNat, h⟩ else stop .badReg

/-- `n` register numbers, each checked before the next is fetched. -/
def regList : ℕ → Decoder (List Reg)
  | 0 => return []
  | n + 1 => do
    let b ← u8 program
    let r ← toReg b
    let rs ← regList n
    return r :: rs

/-- One register operand. -/
def reg1 (mk : Reg → Instr) : Decoder Instr := do
  let a ← u8 program
  return mk (← toReg a)

def reg2 (mk : Reg → Reg → Instr) : Decoder Instr := do
  let a ← u8 program
  let b ← u8 program
  return mk (← toReg a) (← toReg b)

def reg3 (mk : Reg → Reg → Reg → Instr) : Decoder Instr := do
  let a ← u8 program
  let b ← u8 program
  let c ← u8 program
  return mk (← toReg a) (← toReg b) (← toReg c)

/-- The operands behind an opcode. Where an instruction has several register operands,
all of them are fetched before any is checked, except in the variable-length lists. -/
def operands : Option Opcode → Decoder Instr
  | some .nop => return .nop
  | some .constI32 => do
    let dst ← u8 program
    let val ← i32 program
    return .constI32 (← toReg dst) val
  | some .move => reg3 program .move
  | some .add => reg3 program .add
  | some .sub => reg3 program .sub
  | some .callBif => do
    let bifId ← u8 program
    let argc ← u8 program
    if argc.toNat ≤ 8 then
      let args ← regList program argc.toNat
      let dst ← u8 program
      return .callBif bifId args dst
    else stop .badArgc
  | some .recvCmd => do
    let t ← u8 program
    let a ← u8 program
    let b ← u8 program
    let c ← u8 program
    let d ← u8 program
    return .recvCmd (← toReg t) (← toReg a) (← toReg b) (← toReg c) (← toReg d)
  | some .send => do
    let p ← u8 program
    let t ← u8 program
    let a ← u8 program
    let b ← u8 program
    let c ← u8 program
    let d ← u8 program
    return .send (← toReg p) (← toReg t) (← toReg a) (← toReg b) (← toReg c) (← toReg d)
  | some .self => reg1 program .self
  | some .yield => return .yield
  | some .jmp => return .jmp (← i32 program)
  | some .jmpIfZero => do
    let r ← u8 program
    let offset ← i32 program
    return .jmpIfZero (← toReg r) offset
  | some .sleepMs => reg1 program .sleepMs
  | some .makeTuple => do
    let dst ← u8 program
    let arity ← u8 program
    if arity.toNat ≤ maxTupleArity then
      let dst ← toReg dst
      return .makeTuple dst (← regList program arity.toNat)
    else stop .badArity
  | some .tupleElem => do
    let dst ← u8 program
    let t ← u8 program
    let index ← u8 program
    return .tupleElem (← toReg dst) (← toReg t) index
  | some .cons => reg3 program .cons
  | some .head => reg2 program .head
  | some .tail => reg2 program .tail
  | some .halt => return .halt
  | none => stop .badOpcode

def decode : Decoder Instr := do
  let op ← u8 program
  operands program (Opcode.ofCode? op)

end Operands

/-! ### The statuses of decoding -/

/-- The statuses with which an instruction fails. -/
def Status.isError : Status → Bool
  | .eof | .badReg | .badOpcode | .badBif | .badArgc | .badArgument | .heapOom | .badTerm
  | .badArity => true
  | _ => false

theorem Status.isError_ne_ok {e : Status} (h : e.isError) : e ≠ .ok := by
  rintro rfl
  cases h

/-- The statuses with which a decoder stops. -/
def Status.isDecodeError : Status → Bool
  | .eof | .badReg | .badOpcode | .badArgc | .badArity => true
  | _ => false

theorem Status.isDecodeError_isError {e : Status} (h : e.isDecodeError) : e.isError := by
  cases e <;> simp_all [isDecodeError, isError]

/-- A decoder that stops with an error of an instruction only. -/
def Decoder.Proper {α : Type} (d : Decoder α) : Prop :=
  ∀ pc e, (d pc).1 = .error e → e.isError

/-- A decoder made of byte fetches and refusals. -/
inductive Decoder.Built (program : List Byte) : {α : Type} → Decoder α → Prop
  | pure {α : Type} (a : α) : Built program (Pure.pure a : Decoder α)
  | stop {α : Type} {e : Status} (h : e.isDecodeError) : Built program (stop e : Decoder α)
  | u8 : Built program (u8 program)
  | bind {α β : Type} {d : Decoder α} {k : α → Decoder β} (hd : Built program d)
      (hk : ∀ a, Built program (k a)) : Built program (d >>= k)

namespace Decoder.Built

variable {program : List Byte}

theorem i32 : Built program (MiniBeam.i32 program) :=
  bind u8 fun _ => bind u8 fun _ => bind u8 fun _ =>
    bind u8 fun _ => pure _

theorem toReg (b : Byte) : Built program (MiniBeam.toReg b) := by
  unfold MiniBeam.toReg
  split
  · exact pure _
  · exact stop rfl

theorem regList (n : ℕ) : Built program (MiniBeam.regList program n) := by
  induction n with
  | zero => exact pure _
  | succ n ih =>
      exact bind u8 fun b => bind (toReg b) fun _ => bind ih fun _ => pure _

theorem reg1 (mk : Reg → Instr) : Built program (MiniBeam.reg1 program mk) :=
  bind u8 fun _ => bind (toReg _) fun _ => pure _

theorem reg2 (mk : Reg → Reg → Instr) :
    Built program (MiniBeam.reg2 program mk) :=
  bind u8 fun _ => bind u8 fun _ => bind (toReg _) fun _ =>
    bind (toReg _) fun _ => pure _

theorem reg3 (mk : Reg → Reg → Reg → Instr) :
    Built program (MiniBeam.reg3 program mk) :=
  bind u8 fun _ => bind u8 fun _ => bind u8 fun _ =>
    bind (toReg _) fun _ => bind (toReg _) fun _ => bind (toReg _) fun _ => pure _

theorem operands (op : Option Opcode) :
    Built program (MiniBeam.operands program op) := by
  rcases op with _ | op
  · exact stop rfl
  cases op with
  | nop | yield | halt => exact pure _
  | move | add | sub | cons => exact reg3 _
  | head | tail => exact reg2 _
  | self | sleepMs => exact reg1 _
  | constI32 =>
      exact bind u8 fun _ => bind i32 fun _ => bind (toReg _) fun _ => pure _
  | jmp => exact bind i32 fun _ => pure _
  | jmpIfZero =>
      exact bind u8 fun _ => bind i32 fun _ => bind (toReg _) fun _ => pure _
  | tupleElem =>
      exact bind u8 fun _ => bind u8 fun _ => bind u8 fun _ =>
        bind (toReg _) fun _ => bind (toReg _) fun _ => pure _
  | callBif =>
      refine bind u8 fun _ => bind u8 fun argc => ?_
      split
      · exact bind (regList _) fun _ => bind u8 fun _ => pure _
      · exact stop rfl
  | makeTuple =>
      refine bind u8 fun _ => bind u8 fun arity => ?_
      split
      · exact bind (toReg _) fun _ => bind (regList _) fun _ => pure _
      · exact stop rfl
  | recvCmd =>
      exact bind u8 fun _ => bind u8 fun _ => bind u8 fun _ =>
        bind u8 fun _ => bind u8 fun _ => bind (toReg _) fun _ =>
          bind (toReg _) fun _ => bind (toReg _) fun _ => bind (toReg _) fun _ =>
            bind (toReg _) fun _ => pure _
  | send =>
      exact bind u8 fun _ => bind u8 fun _ => bind u8 fun _ =>
        bind u8 fun _ => bind u8 fun _ => bind u8 fun _ =>
          bind (toReg _) fun _ => bind (toReg _) fun _ => bind (toReg _) fun _ =>
            bind (toReg _) fun _ => bind (toReg _) fun _ => bind (toReg _) fun _ => pure _

/-- A decoder stops with an error of decoding only. -/
theorem error {α : Type} {d : Decoder α} (h : Built program d) {pc : ℕ} {e : Status}
    (he : (d pc).1 = .error e) : e.isDecodeError := by
  induction h generalizing pc with
  | pure a => cases he
  | stop h =>
      cases he
      exact h
  | u8 =>
      simp only [MiniBeam.u8] at he
      split at he
      · cases he
      · cases he
        rfl
  | @bind _ _ d k _ _ ihd ihk =>
      change (match d pc with
        | (.error e, pc) => (.error e, pc)
        | (.ok a, pc) => k a pc : Except Status _ × ℕ).1 = _ at he
      rcases hfirst : d pc with ⟨e' | a, pc'⟩
      · rw [hfirst] at he
        cases he
        exact ihd (congrArg Prod.fst hfirst)
      · rw [hfirst] at he
        exact ihk a he

/-- A decoder moves the pc forward, and not past the end of the program. -/
theorem bound {α : Type} {d : Decoder α} (h : Built program d) (pc : ℕ) :
    pc ≤ (d pc).2 ∧ (pc ≤ program.length → (d pc).2 ≤ program.length) := by
  induction h generalizing pc with
  | pure a => exact ⟨Nat.le_refl pc, id⟩
  | stop h => exact ⟨Nat.le_refl pc, id⟩
  | u8 =>
      simp only [MiniBeam.u8]
      split
      · rename_i hb
        obtain ⟨hlt, -⟩ := List.getElem?_eq_some_iff.mp hb
        exact ⟨Nat.le_succ pc, fun _ => hlt⟩
      · exact ⟨Nat.le_refl pc, id⟩
  | @bind _ _ d k _ _ ihd ihk =>
      obtain ⟨hle, hin⟩ := ihd pc
      change pc ≤ (match d pc with
        | (.error e, pc) => (.error e, pc)
        | (.ok a, pc) => k a pc : Except Status _ × ℕ).2 ∧ (_ → (match d pc with
        | (.error e, pc) => (.error e, pc)
        | (.ok a, pc) => k a pc : Except Status _ × ℕ).2 ≤ _)
      rcases hfirst : d pc with ⟨e' | a, pc'⟩
      · rw [hfirst] at hle hin
        exact ⟨hle, hin⟩
      · rw [hfirst] at hle hin
        obtain ⟨hle', hin'⟩ := ihk a pc'
        exact ⟨Nat.le_trans hle hle', fun hpc => hin' (hin hpc)⟩

end Decoder.Built

theorem decode_built (program : List Byte) : Decoder.Built program (decode program) :=
  .bind .u8 fun _ => .operands _

theorem decode_proper (program : List Byte) : (decode program).Proper :=
  fun _ _ h => Status.isDecodeError_isError ((decode_built program).error h)

end MiniBeam
