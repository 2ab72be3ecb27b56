import MiniBeam.Verification.Step.Exec

/-! Computation rules for interpreter code, and the equation of `mb_proc_step`: a step
is a decoding followed by the effect of the instruction. No step reads a program byte,
a register or a buffer entry out of bounds. -/

namespace MiniBeam

/-! ### Computation rules -/

namespace Vm

variable {α β : Type}

theorem pure_apply (a : α) (m : Machine) : (pure a : Vm α) m = .ok (.ok a, m) := rfl

theorem throw_apply (e : Status) (m : Machine) : (throw e : Vm α) m = .ok (.error e, m) := rfl

theorem bind_apply (x : Vm α) (k : α → Vm β) (m : Machine) :
    (x >>= k) m = match x m with
      | .error f => .error f
      | .ok (.error e, m) => .ok (.error e, m)
      | .ok (.ok a, m) => k a m := by
  show (ExceptT.bind x k) m = _
  simp only [ExceptT.bind, ExceptT.mk, bind, StateT.bind, Except.bind, ExceptT.bindCont]
  cases x m with
  | error f => rfl
  | ok r => rcases r with ⟨_ | _, _⟩ <;> rfl

theorem get_apply (m : Machine) : (get : Vm Machine) m = .ok (.ok m, m) := rfl

theorem modify_apply (f : Machine → Machine) (m : Machine) :
    (modify f : Vm Unit) m = .ok (.ok (), f m) := rfl

theorem getProc_apply (m : Machine) : getProc m = .ok (.ok m.proc, m) := rfl

theorem modifyProc_apply (f : Process → Process) (m : Machine) :
    modifyProc f m = .ok (.ok (), m.setProc (f m.proc)) := rfl

theorem emit_apply (e : Event) (m : Machine) :
    emit e m = .ok (.ok (), m.emit [e]) := rfl

theorem require_apply (b : Bool) (e : Status) (m : Machine) :
    require b e m = if b then .ok (.ok (), m) else .ok (.error e, m) := by
  cases b <;> rfl

theorem mbFetchU8_apply (m : Machine) :
    mbFetchU8 m = match m.proc.program[m.proc.pc]? with
      | some b => .ok (.ok b, m.setProc (m.proc.setPc (m.proc.pc + 1)))
      | none => .ok (.error .eof, m) := by
  simp only [mbFetchU8, bind_apply, getProc_apply]
  split
  · rename_i h
    rw [List.getElem?_eq_none h]
    rfl
  · rename_i h
    cases hb : m.proc.program[m.proc.pc]? with
    | none =>
        have := List.getElem?_eq_none_iff.mp hb
        omega
    | some b => rfl

theorem readReg_apply (r : Byte) (h : r.toNat < regCount) (m : Machine) :
    readReg r m = .ok (.ok (m.proc.reg ⟨r.toNat, h⟩), m) := by
  simp only [readReg, bind_apply, getProc_apply, Process.reg]
  rw [Vector.getElem?_eq_getElem h]
  rfl

theorem writeReg_apply (r : Byte) (t : Term) (h : r.toNat < regCount) (m : Machine) :
    writeReg r t m = .ok (.ok (), m.setProc (m.proc.setReg ⟨r.toNat, h⟩ t)) := by
  simp only [writeReg, h, dite_true]
  rfl

end Vm

namespace Decoder

variable {α β : Type}

theorem pure_apply (a : α) (pc : ℕ) : (pure a : Decoder α) pc = (.ok a, pc) := rfl

theorem stop_apply (e : Status) (pc : ℕ) : (stop e : Decoder α) pc = (.error e, pc) := rfl

theorem bind_apply (x : Decoder α) (k : α → Decoder β) (pc : ℕ) :
    (x >>= k) pc = match x pc with
      | (.error e, pc) => (.error e, pc)
      | (.ok a, pc) => k a pc := rfl

theorem u8_apply (program : List Byte) (pc : ℕ) :
    u8 program pc = match program[pc]? with
      | some b => (.ok b, pc + 1)
      | none => (.error .eof, pc) := rfl

theorem toReg_apply (b : Byte) (pc : ℕ) :
    toReg b pc =
      if h : b.toNat < regCount then (.ok ⟨b.toNat, h⟩, pc) else (.error .badReg, pc) := by
  unfold toReg
  split <;> rfl

end Decoder

open Vm Decoder

/-! ### Decoding inside the interpreter -/

/-- The interpreter code that decodes: it moves the pc and changes nothing else. -/
def decoding {α : Type} (d : List Byte → Decoder α) : Vm α := fun m =>
  .ok ((d m.proc.program m.proc.pc).1, m.setProc (m.proc.setPc (d m.proc.program m.proc.pc).2))

theorem mbFetchU8_eq : mbFetchU8 = decoding u8 := by
  funext m
  rw [mbFetchU8_apply]
  simp only [decoding, u8_apply]
  cases m.proc.program[m.proc.pc]? <;> simp

theorem decoding_pure {α : Type} (a : α) : decoding (fun _ => pure a) = (pure a : Vm α) := by
  funext m
  simp [decoding, Decoder.pure_apply, Vm.pure_apply]

theorem decoding_bind {α β : Type} (d : List Byte → Decoder α)
    (k : α → List Byte → Decoder β) :
    decoding (fun program => d program >>= fun a => k a program) =
      decoding d >>= fun a => decoding (k a) := by
  funext m
  simp only [decoding, Vm.bind_apply, Decoder.bind_apply]
  rcases d m.proc.program m.proc.pc with ⟨_ | _, _⟩ <;> simp

theorem mbFetchI32_eq : mbFetchI32 = decoding i32 := by
  unfold i32
  simp only [decoding_bind, decoding_pure, ← mbFetchU8_eq]
  rfl

theorem decoding_apply {α : Type} (d : List Byte → Decoder α) (m : Machine) :
    decoding d m = match d m.proc.program m.proc.pc with
      | (.error e, pc) => .ok (.error e, m.setProc (m.proc.setPc pc))
      | (.ok a, pc) => .ok (.ok a, m.setProc (m.proc.setPc pc)) := by
  unfold decoding
  rcases d m.proc.program m.proc.pc with ⟨_ | _, _⟩ <;> rfl


/-! ### Register operands -/

/-- The operand byte of a register. -/
def regByte (r : Reg) : Byte := BitVec.ofNat 8 r.val

@[simp] theorem regByte_toNat (r : Reg) : (regByte r).toNat = r.val := by
  have h : r.val < 2 ^ 8 := lt_of_lt_of_le r.isLt (by decide)
  simp only [regByte, BitVec.toNat_ofNat, Nat.mod_eq_of_lt h]

theorem eq_regByte {b : Byte} (h : b.toNat < regCount) : b = regByte ⟨b.toNat, h⟩ :=
  BitVec.eq_of_toNat_eq (by simp)

@[simp] theorem readReg_regByte (r : Reg) (m : Machine) :
    readReg (regByte r) m = .ok (.ok (m.proc.reg r), m) := by
  rw [Vm.readReg_apply _ (by simp)]
  simp only [regByte_toNat]

@[simp] theorem writeReg_regByte (r : Reg) (t : Term) (m : Machine) :
    writeReg (regByte r) t m = .ok (.ok (), m.setProc (m.proc.setReg r t)) := by
  rw [Vm.writeReg_apply _ _ (by simp)]
  simp only [regByte_toNat]

/-! ### The equation of each opcode -/

/-- The end of `mb_proc_step`: a thrown status is stored and returned. -/
def finish : Except Fault (Except Status Unit × Machine) → Except Fault (Status × Machine)
  | .error f => .error f
  | .ok (.ok _, m) => .ok (.ok, m)
  | .ok (.error rc, m) => .ok (rc, m.setProc (m.proc.fail rc))

variable (hal : Hal) (preOpPc : ℕ)

/-- A step from its decoder: the effect of the instruction, or the decoding error. -/
def afterDecode (d : Decoder Instr) (m : Machine) : Except Fault (Status × Machine) :=
  match d m.proc.pc with
  | (.error e, pc) => .ok (e, m.setProc ((m.proc.setPc pc).fail e))
  | (.ok i, pc) => execInstr hal preOpPc (m.setProc (m.proc.setPc pc)) i

/-- Interpreter code and an instruction agree once the operands are known. -/
def Implements (x : Vm Unit) (i : Instr) : Prop :=
  ∀ m, finish (x m) = execInstr hal preOpPc m i

variable {hal preOpPc}

theorem fetch1_step {k : Byte → Vm Unit} {mk : Reg → Instr}
    (h : ∀ a, Implements hal preOpPc (k (regByte a)) (mk a)) (m : Machine) :
    finish ((do
      let a ← mbFetchU8
      require (mbVmValidReg a) .badReg
      k a) m) = afterDecode hal preOpPc (reg1 m.proc.program mk) m := by
  simp only [reg1, afterDecode, mbFetchU8_eq, decoding_apply, Decoder.bind_apply,
    Decoder.toReg_apply, Vm.bind_apply, Vm.require_apply, mbVmValidReg]
  rcases u8 m.proc.program m.proc.pc with ⟨_ | a, pc⟩
  · simp [finish]
  by_cases ha : a.toNat < regCount
  · simp [ha, Decoder.pure_apply, ← h _ _, ← eq_regByte]
  · simp [ha, finish]

theorem fetch2_step {k : Byte → Byte → Vm Unit} {mk : Reg → Reg → Instr}
    (h : ∀ a b, Implements hal preOpPc (k (regByte a) (regByte b)) (mk a b)) (m : Machine) :
    finish ((do
      let a ← mbFetchU8
      let b ← mbFetchU8
      require (mbVmValidReg a && mbVmValidReg b) .badReg
      k a b) m) = afterDecode hal preOpPc (reg2 m.proc.program mk) m := by
  simp only [reg2, afterDecode, mbFetchU8_eq, decoding_apply, Decoder.bind_apply,
    Decoder.toReg_apply, Vm.bind_apply, Vm.require_apply, mbVmValidReg]
  rcases u8 m.proc.program m.proc.pc with ⟨_ | a, pc⟩
  · simp [finish]
  simp only [Machine.proc_setProc, Process.setPc_program, Process.setPc_pc]
  rcases u8 m.proc.program pc with ⟨_ | b, pc⟩
  · simp [finish]
  by_cases ha : a.toNat < regCount <;> by_cases hb : b.toNat < regCount <;>
    simp [ha, hb, finish, Decoder.pure_apply, ← h _ _ _, ← eq_regByte]

theorem fetch3_step {k : Byte → Byte → Byte → Vm Unit} {mk : Reg → Reg → Reg → Instr}
    (h : ∀ a b c, Implements hal preOpPc (k (regByte a) (regByte b) (regByte c)) (mk a b c))
    (m : Machine) :
    finish ((do
      let a ← mbFetchU8
      let b ← mbFetchU8
      let c ← mbFetchU8
      require (mbVmValidReg a && mbVmValidReg b && mbVmValidReg c) .badReg
      k a b c) m) = afterDecode hal preOpPc (reg3 m.proc.program mk) m := by
  simp only [reg3, afterDecode, mbFetchU8_eq, decoding_apply, Decoder.bind_apply,
    Decoder.toReg_apply, Vm.bind_apply, Vm.require_apply, mbVmValidReg]
  rcases u8 m.proc.program m.proc.pc with ⟨_ | a, pc⟩
  · simp [finish]
  simp only [Machine.proc_setProc, Process.setPc_program, Process.setPc_pc]
  rcases u8 m.proc.program pc with ⟨_ | b, pc⟩
  · simp [finish]
  simp only [Machine.proc_setProc, Process.setPc_program, Process.setPc_pc, Machine.setProc_setProc,
    Process.setPc_setPc]
  rcases u8 m.proc.program pc with ⟨_ | c, pc⟩
  · simp [finish]
  by_cases ha : a.toNat < regCount <;> by_cases hb : b.toNat < regCount <;>
    by_cases hc : c.toNat < regCount <;>
    simp [ha, hb, hc, finish, Decoder.pure_apply, ← h _ _ _ _, ← eq_regByte]


theorem fetch5_step {k : Byte → Byte → Byte → Byte → Byte → Vm Unit}
    (h : ∀ a b c d e, Implements hal preOpPc
      (k (regByte a) (regByte b) (regByte c) (regByte d) (regByte e)) (.recvCmd a b c d e))
    (m : Machine) :
    finish ((do
      let a ← mbFetchU8
      let b ← mbFetchU8
      let c ← mbFetchU8
      let d ← mbFetchU8
      let e ← mbFetchU8
      require (mbVmValidReg a && mbVmValidReg b && mbVmValidReg c && mbVmValidReg d &&
        mbVmValidReg e) .badReg
      k a b c d e) m) = afterDecode hal preOpPc (operands m.proc.program (some .recvCmd)) m := by
  simp only [operands, afterDecode, mbFetchU8_eq, decoding_apply, Decoder.bind_apply,
    Decoder.toReg_apply, Vm.bind_apply, Vm.require_apply, mbVmValidReg]
  rcases u8 m.proc.program m.proc.pc with ⟨_ | a, pc⟩
  · simp [finish]
  simp only [Machine.proc_setProc, Process.setPc_program, Process.setPc_pc]
  rcases u8 m.proc.program pc with ⟨_ | b, pc⟩
  · simp [finish]
  simp only [Machine.proc_setProc, Process.setPc_program, Process.setPc_pc,
    Machine.setProc_setProc, Process.setPc_setPc]
  rcases u8 m.proc.program pc with ⟨_ | c, pc⟩
  · simp [finish]
  simp only [Machine.proc_setProc, Process.setPc_program, Process.setPc_pc,
    Machine.setProc_setProc, Process.setPc_setPc]
  rcases u8 m.proc.program pc with ⟨_ | d, pc⟩
  · simp [finish]
  simp only [Machine.proc_setProc, Process.setPc_program, Process.setPc_pc,
    Machine.setProc_setProc, Process.setPc_setPc]
  rcases u8 m.proc.program pc with ⟨_ | e, pc⟩
  · simp [finish]
  by_cases ha : a.toNat < regCount
  · by_cases hb : b.toNat < regCount
    · by_cases hc : c.toNat < regCount
      · by_cases hd : d.toNat < regCount <;> by_cases he : e.toNat < regCount <;>
          simp [ha, hb, hc, hd, he, finish, Decoder.pure_apply, ← h _ _ _ _ _ _, ← eq_regByte]
      · simp [ha, hb, hc, finish]
    · simp [ha, hb, finish]
  · simp [ha, finish]

theorem fetch6_step {k : Byte → Byte → Byte → Byte → Byte → Byte → Vm Unit}
    (h : ∀ a b c d e f, Implements hal preOpPc
      (k (regByte a) (regByte b) (regByte c) (regByte d) (regByte e) (regByte f))
      (.send a b c d e f))
    (m : Machine) :
    finish ((do
      let a ← mbFetchU8
      let b ← mbFetchU8
      let c ← mbFetchU8
      let d ← mbFetchU8
      let e ← mbFetchU8
      let f ← mbFetchU8
      require (mbVmValidReg a && mbVmValidReg b && mbVmValidReg c && mbVmValidReg d &&
        mbVmValidReg e && mbVmValidReg f) .badReg
      k a b c d e f) m) = afterDecode hal preOpPc (operands m.proc.program (some .send)) m := by
  simp only [operands, afterDecode, mbFetchU8_eq, decoding_apply, Decoder.bind_apply,
    Decoder.toReg_apply, Vm.bind_apply, Vm.require_apply, mbVmValidReg]
  rcases u8 m.proc.program m.proc.pc with ⟨_ | a, pc⟩
  · simp [finish]
  simp only [Machine.proc_setProc, Process.setPc_program, Process.setPc_pc]
  rcases u8 m.proc.program pc with ⟨_ | b, pc⟩
  · simp [finish]
  simp only [Machine.proc_setProc, Process.setPc_program, Process.setPc_pc,
    Machine.setProc_setProc, Process.setPc_setPc]
  rcases u8 m.proc.program pc with ⟨_ | c, pc⟩
  · simp [finish]
  simp only [Machine.proc_setProc, Process.setPc_program, Process.setPc_pc,
    Machine.setProc_setProc, Process.setPc_setPc]
  rcases u8 m.proc.program pc with ⟨_ | d, pc⟩
  · simp [finish]
  simp only [Machine.proc_setProc, Process.setPc_program, Process.setPc_pc,
    Machine.setProc_setProc, Process.setPc_setPc]
  rcases u8 m.proc.program pc with ⟨_ | e, pc⟩
  · simp [finish]
  simp only [Machine.proc_setProc, Process.setPc_program, Process.setPc_pc,
    Machine.setProc_setProc, Process.setPc_setPc]
  rcases u8 m.proc.program pc with ⟨_ | f, pc⟩
  · simp [finish]
  by_cases ha : a.toNat < regCount
  · by_cases hb : b.toNat < regCount
    · by_cases hc : c.toNat < regCount
      · by_cases hd : d.toNat < regCount
        · by_cases he : e.toNat < regCount <;> by_cases hf : f.toNat < regCount <;>
            simp [ha, hb, hc, hd, he, hf, finish, Decoder.pure_apply, ← h _ _ _ _ _ _ _,
              ← eq_regByte]
        · simp [ha, hb, hc, hd, finish]
      · simp [ha, hb, hc, finish]
    · simp [ha, hb, finish]
  · simp [ha, finish]

theorem opConstI32_step (m : Machine) :
    finish (opConstI32 m) =
      afterDecode hal preOpPc (operands m.proc.program (some .constI32)) m := by
  simp only [opConstI32, operands, afterDecode, mbFetchU8_eq, mbFetchI32_eq,
    decoding_apply, Decoder.bind_apply, Decoder.toReg_apply, Vm.bind_apply,
    Vm.require_apply, mbVmValidReg]
  rcases u8 m.proc.program m.proc.pc with ⟨_ | dst, pc⟩
  · simp [finish]
  simp only [Machine.proc_setProc, Process.setPc_program, Process.setPc_pc]
  rcases i32 m.proc.program pc with ⟨_ | v, pc⟩
  · simp [finish]
  by_cases h : dst.toNat < regCount
  · simp [h, Vm.writeReg_apply, finish, Decoder.pure_apply, execInstr, Instr.run]
  · simp [h, finish]

theorem opArith_implements (f : Term → Term → Term) (mk : Reg → Reg → Reg → Instr)
    (h : ∀ d a b m, execInstr hal preOpPc m (mk d a b) =
      .ok (.ok, m.setProc (m.proc.setReg d (f (m.proc.reg a) (m.proc.reg b))))) (m : Machine) :
    finish (opArith f m) = afterDecode hal preOpPc (reg3 m.proc.program mk) m := by
  unfold opArith
  refine fetch3_step (fun a b c m => ?_) m
  rw [h]
  simp [Vm.bind_apply, finish]

theorem opMove_step (m : Machine) :
    finish (opMove m) = afterDecode hal preOpPc (operands m.proc.program (some .move)) m :=
  opArith_implements _ _ (fun d a b m => by simp [execInstr, Instr.run]) m

theorem opAdd_step (m : Machine) :
    finish (opAdd m) = afterDecode hal preOpPc (operands m.proc.program (some .add)) m :=
  opArith_implements _ _ (fun d a b m => by simp [execInstr, Instr.run, Process.int]) m

theorem opSub_step (m : Machine) :
    finish (opSub m) = afterDecode hal preOpPc (operands m.proc.program (some .sub)) m :=
  opArith_implements _ _ (fun d a b m => by simp [execInstr, Instr.run, Process.int]) m

theorem opSelf_step (m : Machine) :
    finish (opSelf m) = afterDecode hal preOpPc (operands m.proc.program (some .self)) m := by
  refine fetch1_step (fun a m => ?_) m
  simp [Vm.bind_apply, Vm.getProc_apply, finish, execInstr, Instr.run]


theorem popMailbox_apply (m : Machine) :
    popMailbox m = match mbMailboxPopRaw m.proc.mailbox with
      | .error f => .error f
      | .ok none => .ok (.ok none, m)
      | .ok (some (cmd, mb)) =>
        .ok (.ok (some cmd), (m.setProc (m.proc.setMailbox mb)).emit [.pop m.proc.pid cmd]) := by
  simp only [popMailbox, Vm.bind_apply, Vm.getProc_apply]
  cases mbMailboxPopRaw m.proc.mailbox with
  | error f => rfl
  | ok r => rcases r with _ | ⟨cmd, mb⟩ <;> rfl

@[simp] theorem writeCommand_regByte (t a b c d : Reg) (cmd : Command) (m : Machine) :
    writeCommand (regByte t) (regByte a) (regByte b) (regByte c) (regByte d) cmd m =
      .ok (.ok (), m.setProc (m.proc.loadCommand t a b c d cmd)) := by
  simp [writeCommand, Vm.bind_apply, Process.loadCommand]

theorem opRecvCmd_step (m : Machine) :
    finish (opRecvCmd preOpPc m) =
      afterDecode hal preOpPc (operands m.proc.program (some .recvCmd)) m := by
  refine fetch5_step (fun t a b c d m => ?_) m
  simp only [Vm.bind_apply, popMailbox_apply, execInstr, Instr.run]
  cases mbMailboxPopRaw m.proc.mailbox with
  | error f => rfl
  | ok r =>
      rcases r with _ | ⟨cmd, mb⟩
      · cases hs : m.ctx.scheduled <;>
          simp [hs, Vm.get_apply, Vm.modifyProc_apply, Vm.bind_apply, finish, Process.fail]
      · by_cases hv : mbValidateCommand cmd = .ok <;>
          simp [hv, Vm.modifyProc_apply, Vm.bind_apply, finish, Process.fail]

theorem opYield_step (m : Machine) :
    finish (opYield m) = afterDecode hal preOpPc (operands m.proc.program (some .yield)) m := by
  simp [opYield, Vm.modifyProc_apply, finish, afterDecode, operands, Decoder.pure_apply, execInstr,
    Instr.run]

theorem opHalt_step (m : Machine) :
    finish (opHalt m) = afterDecode hal preOpPc (operands m.proc.program (some .halt)) m := by
  simp [opHalt, Vm.modifyProc_apply, finish, afterDecode, operands, Decoder.pure_apply, execInstr,
    Instr.run]

theorem finish_jump (offset : I32) (m : Machine) :
    finish (jump offset m) =
      .ok ((jumpTo m.proc offset).1, m.setProc
        (if (jumpTo m.proc offset).1 = .ok then (jumpTo m.proc offset).2
          else (jumpTo m.proc offset).2.fail (jumpTo m.proc offset).1)) := by
  simp only [jump, jumpTo, Vm.bind_apply, Vm.getProc_apply]
  split
  · simp [Vm.throw_apply, finish]
  · simp only [Vm.bind_apply, Vm.modifyProc_apply, Vm.getProc_apply, Vm.require_apply,
      Machine.proc_setProc, decide_eq_true_eq]
    by_cases h : ((m.proc.pc : ℤ) + offset.toInt).toNat ≤ m.proc.program.length <;>
      simp [h, finish, Process.setPc]

theorem opJmp_step (m : Machine) :
    finish (opJmp m) = afterDecode hal preOpPc (operands m.proc.program (some .jmp)) m := by
  simp only [opJmp, operands, afterDecode, mbFetchI32_eq, decoding_apply, Decoder.bind_apply,
    Vm.bind_apply]
  rcases i32 m.proc.program m.proc.pc with ⟨_ | offset, pc⟩
  · simp [finish]
  · simp [finish_jump, Decoder.pure_apply, execInstr, Instr.run]

theorem opJmpIfZero_step (m : Machine) :
    finish (opJmpIfZero m) =
      afterDecode hal preOpPc (operands m.proc.program (some .jmpIfZero)) m := by
  simp only [opJmpIfZero, operands, afterDecode, mbFetchU8_eq, mbFetchI32_eq, decoding_apply,
    Decoder.bind_apply, Decoder.toReg_apply, Vm.bind_apply, Vm.require_apply, mbVmValidReg]
  rcases u8 m.proc.program m.proc.pc with ⟨_ | r, pc⟩
  · simp [finish]
  simp only [Machine.proc_setProc, Process.setPc_program, Process.setPc_pc]
  rcases i32 m.proc.program pc with ⟨_ | offset, pc⟩
  · simp [finish]
  by_cases h : r.toNat < regCount
  · by_cases hz : m.proc.reg ⟨r.toNat, h⟩ = makeSmallint 0#32
    · simp [h, hz, Vm.readReg_apply, Decoder.pure_apply, finish_jump, execInstr, Instr.run]
    · simp [h, hz, Vm.readReg_apply, Vm.pure_apply, Decoder.pure_apply, finish, execInstr,
        Instr.run]
  · simp [h, finish]

theorem callHal_apply (call : HalCall) (m : Machine) :
    callHal hal call m =
      .ok (.ok (hal m.trace call), m.emit [.hal m.proc.pid call (hal m.trace call)]) := rfl

theorem opSleepMs_step (m : Machine) :
    finish (opSleepMs hal m) =
      afterDecode hal preOpPc (operands m.proc.program (some .sleepMs)) m := by
  refine fetch1_step (fun a m => ?_) m
  simp only [Vm.bind_apply, Vm.get_apply]
  cases hs : m.ctx.scheduled
  · simp [hs, Vm.bind_apply, callHal_apply, finish, execInstr, Instr.run, Process.int,
      Vm.pure_apply, -bind_pure_comp]
  · simp [hs, Vm.bind_apply, callHal_apply, Vm.modifyProc_apply, finish, execInstr,
      Instr.run, Process.int]


theorem pushTarget_apply (sched : Scheduler) (self target : Slot) (cmd : Command) (m : Machine) :
    pushTarget sched self target cmd m = match deliver sched target cmd with
      | .error f => .error f
      | .ok (rc, after) => .ok (.ok rc,
          ⟨.sched after self, m.trace ++ [.push (sched.proc target).pid cmd rc]⟩) := by
  simp only [pushTarget, deliver, mbVmMailboxPushProc]
  cases mbMailboxPushRaw (sched.proc target).mailbox cmd with
  | error f => rfl
  | ok r =>
      simp only [ok_bind, pure_ok, Vm.bind_apply, Vm.modify_apply, Vm.emit_apply, Vm.pure_apply]
      congr 3
      split <;> rfl

theorem opSend_step (m : Machine) :
    finish (opSend m) = afterDecode hal preOpPc (operands m.proc.program (some .send)) m := by
  refine fetch6_step (fun p t a b c d m => ?_) m
  simp only [Vm.bind_apply, Vm.get_apply, execInstr]
  rcases m with ⟨proc | ⟨sched, self⟩, trace⟩
  · simp [finish, Machine.setProc, Context.setProc, Machine.proc, Context.proc]
  · have hp : (⟨.sched sched self, trace⟩ : Machine).proc = sched.proc self := rfl
    simp only [Vm.bind_apply, readReg_regByte, hp, sendFrom, Process.int]
    rcases mbSchedProc sched ((getSmallint ((sched.proc self).reg p)).setWidth 8)
      with f | _ | target
    · rfl
    · simp [finish, Machine.setProc, Context.setProc, hp, answer]
    · simp only [Vm.bind_apply, readReg_regByte, hp, pushTarget_apply, ok_bind, Process.command,
        Process.int]
      rcases deliver sched target _ with f | ⟨rc, after⟩
      · rfl
      · simp [finish, Machine.setProc, Context.setProc, Machine.proc, Context.proc, answer]

theorem regList_length (program : List Byte) (n : ℕ) {pc pc' : ℕ} {rs : List Reg}
    (h : regList program n pc = (.ok rs, pc')) : rs.length = n := by
  induction n generalizing pc pc' rs with
  | zero =>
      simp only [regList, Decoder.pure_apply, Prod.mk.injEq, Except.ok.injEq] at h
      rw [← h.1]
      rfl
  | succ n ih =>
      simp only [regList, Decoder.bind_apply, Decoder.toReg_apply] at h
      rcases hu : u8 program pc with ⟨_ | b, pc1⟩
      · simp [hu] at h
      by_cases hb : b.toNat < regCount
      · simp only [hu, hb, dite_true] at h
        rcases hr : regList program n pc1 with ⟨_ | rest, pc2⟩
        · simp [hr] at h
        · simp only [hr, Decoder.pure_apply, Prod.mk.injEq, Except.ok.injEq] at h
          rw [← h.1, List.length_cons, ih hr]
      · simp [hu, hb] at h

theorem fetchArgs_apply (n : ℕ) (rs : List Reg) (m : Machine) (hn : rs.length + n ≤ 8) :
    fetchArgs (rs.map regByte) n m = match regList m.proc.program n m.proc.pc with
      | (.error e, pc) => .ok (.error e, m.setProc (m.proc.setPc pc))
      | (.ok more, pc) => .ok (.ok ((rs ++ more).map regByte), m.setProc (m.proc.setPc pc)) := by
  induction n generalizing rs m with
  | zero => simp [fetchArgs, regList, Vm.pure_apply, Decoder.pure_apply]
  | succ n ih =>
      have hlen : rs.length < 8 := by omega
      simp only [fetchArgs, regList, mbFetchU8_eq, Vm.bind_apply, decoding_apply,
        Decoder.bind_apply, Decoder.toReg_apply, List.length_map, hlen, if_true,
        Vm.require_apply, mbVmValidReg]
      rcases u8 m.proc.program m.proc.pc with ⟨_ | b, pc⟩
      · simp
      by_cases hb : b.toNat < regCount
      · have happ : rs.map regByte ++ [b] = (rs ++ [(⟨b.toNat, hb⟩ : Reg)]).map regByte := by
          simp [← eq_regByte]
        simp only [hb, decide_true, if_true, dite_true, happ]
        rw [ih _ _ (by simp; omega)]
        simp only [Machine.proc_setProc, Process.setPc_program, Process.setPc_pc]
        rcases regList m.proc.program n pc with ⟨_ | more, pc⟩ <;> simp [Decoder.pure_apply]
      · simp [hb]

theorem regInt_apply (rs : List Reg) (i : ℕ) (r : Reg) (h : rs[i]? = some r) (m : Machine) :
    regInt (rs.map regByte) i m = .ok (.ok (m.proc.int r), m) := by
  simp [regInt, h, Vm.bind_apply, Vm.pure_apply, Process.int, -bind_pure_comp]


/-- A BIF call whose checks passed or failed, as the end of the interpreter code. -/
theorem callBif_end (ok : Bool) (call : HalCall) (load : HalReply → I32) (dst : Byte)
    (hd : dst.toNat < regCount) (m : Machine) :
    (do
      require ok .badArgument
      let reply ← callHal hal call
      writeReg dst (makeSmallint (load reply))) m =
      match checked ok .badArgument (call, load) with
      | .error e => .ok (.error e, m)
      | .ok (call, load) =>
        .ok (.ok (), (m.setProc (m.proc.setReg ⟨dst.toNat, hd⟩
          (makeSmallint (load (hal m.trace call))))).emit
            [.hal m.proc.pid call (hal m.trace call)]) := by
  cases ok <;> simp [checked, Vm.bind_apply, Vm.require_apply, callHal_apply, Vm.writeReg_apply, hd]

/-- The argument count of a BIF. -/
def Bif.arity : Bif → ℕ
  | .gpioWrite => 2
  | .pwmSetDuty => 2
  | .i2cReadReg => 3
  | .monotonicMs => 0
  | .gpioRead => 1
  | .i2cWriteReg => 4
  | .pwmConfig => 2

theorem Bif.request_of_ne {b : Bif} {args : List I32} (h : args.length ≠ b.arity) :
    b.request args = .error .badArgc := by
  rcases args with _ | ⟨_, _ | ⟨_, _ | ⟨_, _ | ⟨_, _ | ⟨_, _⟩⟩⟩⟩⟩ <;> cases b <;>
    first | rfl | exact absurd rfl h

theorem argc_pass {argc k : Byte} {n : ℕ} (h : argc.toNat = n) (hk : n = k.toNat) (x : Vm Unit)
    (m : Machine) :
    (do
      require (argc == k) .badArgc
      x) m = x m := by
  have he : argc = k := BitVec.eq_of_toNat_eq (h.trans hk)
  simp [Vm.bind_apply, Vm.require_apply, he]

theorem argc_fail {argc k : Byte} {n : ℕ} (h : argc.toNat = n) (hk : n ≠ k.toNat) (x : Vm Unit)
    (m : Machine) :
    (do
      require (argc == k) .badArgc
      x) m = .ok (.error .badArgc, m) := by
  have he : argc ≠ k := fun he => hk (by rw [← h, he])
  simp [Vm.bind_apply, Vm.require_apply, he]

theorem regInt_bind (rs : List Reg) (i : ℕ) (r : Reg) (h : rs[i]? = some r) (k : I32 → Vm Unit)
    (m : Machine) : (regInt (rs.map regByte) i >>= k) m = k (m.proc.int r) m := by
  rw [Vm.bind_apply, regInt_apply rs i r h]

theorem bifCase_apply (argc dst : Byte) (hd : dst.toNat < regCount) (rs : List Reg)
    (h : argc.toNat = rs.length) (b : Bif) (m : Machine) :
    bifCase hal argc (rs.map regByte) dst b m =
        match b.request (rs.map m.proc.int) with
        | .error e => .ok (.error e, m)
        | .ok (call, load) =>
          .ok (.ok (), (m.setProc (m.proc.setReg ⟨dst.toNat, hd⟩
            (makeSmallint (load (hal m.trace call))))).emit
              [.hal m.proc.pid call (hal m.trace call)]) := by
  by_cases hb : rs.length = b.arity
  · cases b with
    | gpioWrite =>
        obtain ⟨x, y, rfl⟩ := List.length_eq_two.mp hb
        simp only [bifCase]
        rw [argc_pass h rfl, regInt_bind _ 0 x rfl, regInt_bind _ 1 y rfl,
          callBif_end _ _ HalReply.rc _ hd]
        rfl
    | gpioRead =>
        obtain ⟨x, rfl⟩ := List.length_eq_one_iff.mp hb
        simp only [bifCase]
        rw [argc_pass h rfl, regInt_bind _ 0 x rfl]
        exact callBif_end _ _ readResult dst hd m
    | pwmSetDuty =>
        obtain ⟨x, y, rfl⟩ := List.length_eq_two.mp hb
        simp only [bifCase]
        rw [argc_pass h rfl, regInt_bind _ 0 x rfl, regInt_bind _ 1 y rfl,
          callBif_end _ _ HalReply.rc _ hd]
        rfl
    | pwmConfig =>
        obtain ⟨x, y, rfl⟩ := List.length_eq_two.mp hb
        simp only [bifCase]
        rw [argc_pass h rfl, regInt_bind _ 0 x rfl, regInt_bind _ 1 y rfl,
          callBif_end _ _ HalReply.rc _ hd]
        rfl
    | i2cReadReg =>
        obtain ⟨x, y, z, rfl⟩ := List.length_eq_three.mp hb
        simp only [bifCase]
        rw [argc_pass h rfl, regInt_bind _ 0 x rfl, regInt_bind _ 1 y rfl, regInt_bind _ 2 z rfl]
        exact callBif_end _ _ readResult dst hd m
    | i2cWriteReg =>
        obtain ⟨x, y, z, v, rfl⟩ : ∃ x y z v, rs = [x, y, z, v] := by
          rcases rs with _ | ⟨x, _ | ⟨y, _ | ⟨z, _ | ⟨v, _ | ⟨_, _⟩⟩⟩⟩⟩ <;>
            simp [Bif.arity] at hb ⊢
        simp only [bifCase]
        rw [argc_pass h rfl, regInt_bind _ 0 x rfl, regInt_bind _ 1 y rfl, regInt_bind _ 2 z rfl,
          regInt_bind _ 3 v rfl, callBif_end _ _ HalReply.rc _ hd]
        rfl
    | monotonicMs =>
        obtain rfl := List.length_eq_zero_iff.mp hb
        simp only [bifCase]
        rw [argc_pass h rfl, Vm.bind_apply, callHal_apply]
        simp only [Vm.writeReg_apply _ _ hd]
        rfl
  · rw [Bif.request_of_ne (by simpa using hb)]
    cases b <;> simp only [bifCase] <;> refine argc_fail h ?_ _ m <;> exact hb

theorem checked_ne_ok {α : Type} (ok : Bool) (a : α) : checked ok .badArgument a ≠ .error .ok := by
  cases ok <;> simp [checked]

theorem Bif.request_ne_ok (b : Bif) (args : List I32) : b.request args ≠ .error .ok := by
  rcases args with _ | ⟨_, _ | ⟨_, _ | ⟨_, _ | ⟨_, _ | ⟨_, _⟩⟩⟩⟩⟩ <;> cases b <;>
    first | exact checked_ne_ok _ _ | exact fun h => nomatch h

theorem opCallBif_step (m : Machine) :
    finish (opCallBif hal m) =
      afterDecode hal preOpPc (operands m.proc.program (some .callBif)) m := by
  simp only [opCallBif, operands, afterDecode, mbFetchU8_eq, decoding_apply, Decoder.bind_apply,
    Vm.bind_apply, Vm.require_apply]
  rcases u8 m.proc.program m.proc.pc with ⟨_ | bifId, pc⟩
  · simp [finish]
  simp only [Machine.proc_setProc, Process.setPc_program, Process.setPc_pc]
  rcases u8 m.proc.program pc with ⟨_ | argc, pc⟩
  · simp [finish]
  by_cases ha : argc.toNat ≤ 8
  · simp only [ha, decide_true, if_true, Decoder.bind_apply]
    rw [← List.map_nil (f := regByte), fetchArgs_apply _ [] _ (by simpa using ha)]
    simp only [Machine.proc_setProc, Process.setPc_program, Process.setPc_pc,
      Machine.setProc_setProc, Process.setPc_setPc, List.nil_append]
    rcases hr : regList m.proc.program argc.toNat pc with ⟨_ | rs, pc⟩
    · simp [finish]
    simp only [Machine.proc_setProc, Process.setPc_program, Process.setPc_pc,
      Machine.setProc_setProc, Process.setPc_setPc]
    rcases u8 m.proc.program pc with ⟨_ | dst, pc⟩
    · simp [finish]
    simp only [Decoder.pure_apply, execInstr, Instr.run, mbCallBif, Vm.bind_apply,
      Vm.require_apply, mbVmValidReg, bifRequest]
    by_cases hd : dst.toNat < regCount
    · simp only [hd, decide_true, if_true, dite_true]
      cases Bif.ofCode? bifId with
      | none => simp [Vm.throw_apply, finish]
      | some b =>
          simp only [bifCase_apply argc dst hd rs (regList_length _ _ hr).symm]
          simp only [Machine.proc_setProc, Machine.setProc_setProc]
          rcases hb : b.request (rs.map (m.proc.setPc pc).int) with e | ⟨call, load⟩
          · have he : e ≠ .ok := fun he => b.request_ne_ok _ (he ▸ hb)
            simp [finish, he]
          · simp [Vm.modifyProc_apply, finish, Process.fail]
    · simp [hd, finish]
  · simp [ha, Decoder.stop_apply, finish]

theorem heapCall_apply (f : Heap → Except Fault (Term × Heap)) (m : Machine) :
    heapCall f m = match f m.proc.heap with
      | .error e => .error e
      | .ok (t, heap) => .ok (.ok t, m.setProc (m.proc.setHeap heap)) := by
  simp only [heapCall, Vm.bind_apply, Vm.getProc_apply]
  cases f m.proc.heap <;> rfl

theorem collect_apply (m : Machine) :
    collect m = match gcRegs m.proc with
      | .error e => .error e
      | .ok p => .ok (.ok (), m.setProc p) := by
  simp only [collect, Vm.bind_apply, Vm.getProc_apply]
  cases gcRegs m.proc <;> rfl

/-- A read of the heap leaves the machine as it was. -/
theorem heapRead_apply (i : Heap → ℕ) (m : Machine) :
    heapCall (fun heap => do return (← readWord heap.fromSpace (i heap), heap)) m =
      match readWord m.proc.heap.fromSpace (i m.proc.heap) with
      | .error e => .error e
      | .ok t => .ok (.ok t, m) := by
  rw [heapCall_apply]
  cases readWord m.proc.heap.fromSpace (i m.proc.heap) with
  | error e => rfl
  | ok t =>
      have h : m.setProc (m.proc.setHeap m.proc.heap) = m := m.setProc_proc
      simp [h]

theorem opField_implements (i : ℕ) (mk : Reg → Reg → Instr)
    (h : ∀ dst cell m, execInstr hal preOpPc m (mk dst cell) = (do
      let p := m.proc
      if isCons (p.reg cell) then
        let w ← readWord p.heap.fromSpace (getCons (p.reg cell) + i)
        return (.ok, m.setProc (p.setReg dst w))
      else return (.badTerm, m.setProc (p.fail .badTerm)))) (m : Machine) :
    finish (opField i m) = afterDecode hal preOpPc (reg2 m.proc.program mk) m := by
  refine fetch2_step (fun dst cell m => ?_) m
  rw [h]
  simp only [Vm.bind_apply, readReg_regByte, Vm.require_apply, heapRead_apply]
  cases isCons (m.proc.reg cell)
  · rfl
  · simp only [if_true]
    cases readWord m.proc.heap.fromSpace (getCons (m.proc.reg cell) + i) with
    | error e => rfl
    | ok t => simp [finish]

theorem opHead_step (m : Machine) :
    finish (opHead m) = afterDecode hal preOpPc (operands m.proc.program (some .head)) m := by
  refine opField_implements 0 _ (fun dst cell m => ?_) m
  simp only [execInstr, Instr.run, Nat.add_zero]
  cases isCons (m.proc.reg cell)
  · simp
  · simp only [if_true]
    cases readWord m.proc.heap.fromSpace (getCons (m.proc.reg cell)) <;> simp

theorem opTail_step (m : Machine) :
    finish (opTail m) = afterDecode hal preOpPc (operands m.proc.program (some .tail)) m := by
  refine opField_implements 1 _ (fun dst cell m => ?_) m
  simp only [execInstr, Instr.run]
  cases isCons (m.proc.reg cell)
  · simp
  · simp only [if_true]
    cases readWord m.proc.heap.fromSpace (getCons (m.proc.reg cell) + 1) <;> simp

theorem opTupleElem_step (m : Machine) :
    finish (opTupleElem m) =
      afterDecode hal preOpPc (operands m.proc.program (some .tupleElem)) m := by
  simp only [opTupleElem, operands, afterDecode, mbFetchU8_eq, decoding_apply, Decoder.bind_apply,
    Decoder.toReg_apply, Vm.bind_apply, Vm.require_apply, mbVmValidReg]
  rcases u8 m.proc.program m.proc.pc with ⟨_ | dst, pc⟩
  · simp [finish]
  simp only [Machine.proc_setProc, Process.setPc_program, Process.setPc_pc]
  rcases u8 m.proc.program pc with ⟨_ | tuple, pc⟩
  · simp [finish]
  simp only [Machine.proc_setProc, Process.setPc_program, Process.setPc_pc,
    Machine.setProc_setProc, Process.setPc_setPc]
  rcases u8 m.proc.program pc with ⟨_ | index, pc⟩
  · simp [finish]
  by_cases ha : dst.toNat < regCount
  swap
  · simp [ha, finish]
  by_cases hb : tuple.toNat < regCount
  swap
  · simp [ha, hb, finish]
  simp only [ha, hb, decide_true, Bool.and_true, if_true, dite_true, Decoder.pure_apply]
  generalize m.setProc (m.proc.setPc pc) = m
  simp only [Vm.readReg_apply _ hb, heapRead_apply, execInstr, Instr.run]
  cases isBoxed (m.proc.reg ⟨tuple.toNat, hb⟩)
  · simp [finish]
  simp only [if_true]
  rcases readWord m.proc.heap.fromSpace _ with e | hdr
  · rfl
  simp only [ok_bind]
  cases isTupleHdr hdr
  · simp [finish]
  by_cases hi : index.toNat < getTupleArity hdr
  · simp only [hi, decide_true, if_true]
    rcases readWord m.proc.heap.fromSpace _ with e | t
    · rfl
    · simp [Vm.writeReg_apply, ha, finish]
  · simp [hi, finish]

/-- A heap call on the fields of the process is a call on the process. -/
theorem heapCall_proc (alloc : Process → Except Fault (Term × Heap))
    (f : Heap → Except Fault (Term × Heap)) (m : Machine) (h : f m.proc.heap = alloc m.proc) :
    heapCall f m = match alloc m.proc with
      | .error e => .error e
      | .ok (t, heap) => .ok (.ok t, m.setProc (m.proc.setHeap heap)) := by
  rw [heapCall_apply, h]

/-- The retry after a collection, as both allocating instructions write it. -/
theorem retry_apply (alloc : Process → Except Fault (Term × Heap))
    (f : Heap → Except Fault (Term × Heap)) (dst : Reg) (m : Machine)
    (h : f m.proc.heap = alloc m.proc) :
    finish ((do
      let result ← heapCall f
      require (result != 0) .heapOom
      writeReg (regByte dst) result) m) = do
      let (t, heap) ← alloc m.proc
      let p := m.proc.setHeap heap
      if t ≠ 0 then return (.ok, m.setProc (p.setReg dst t))
      else return (.heapOom, m.setProc (p.fail .heapOom)) := by
  simp only [Vm.bind_apply, heapCall_proc alloc f m h]
  rcases alloc m.proc with e | ⟨t, heap⟩
  · rfl
  by_cases ht : t = 0#32
  · simp [ht, Vm.require_apply, finish]
  · simp [ht, Vm.require_apply, finish]

theorem finish_bind_ok {α : Type} (x : Vm α) (k : α → Vm Unit) (m m' : Machine) (a : α)
    (h : x m = .ok (.ok a, m')) : finish ((x >>= k) m) = finish (k a m') := by
  rw [Vm.bind_apply, h]

/-- An allocation and its retry, when the retry computes the allocation again. -/
theorem allocate_apply (alloc : Process → Except Fault (Term × Heap))
    (f : Heap → Except Fault (Term × Heap)) (retry : Vm Unit) (dst : Reg) (m : Machine)
    (h : f m.proc.heap = alloc m.proc)
    (hr : ∀ m, finish (retry m) = do
      let (t, heap) ← alloc m.proc
      let p := m.proc.setHeap heap
      if t ≠ 0 then return (.ok, m.setProc (p.setReg dst t))
      else return (.heapOom, m.setProc (p.fail .heapOom))) :
    finish ((do
      let result ← heapCall f
      if result ≠ 0 then writeReg (regByte dst) result
      else do
        collect
        retry) m) = do
      let (rc, p) ← allocate m.proc alloc dst
      return (rc, m.setProc (if rc = .ok then p else p.fail rc)) := by
  simp only [allocate, Vm.bind_apply, heapCall_proc alloc f m h]
  rcases alloc m.proc with e | ⟨t, heap⟩
  · rfl
  by_cases ht : t = 0#32
  · simp only [ht, BitVec.ofNat_eq_ofNat, ne_eq, not_true, if_false, ok_bind, Vm.bind_apply,
      collect_apply, Machine.proc_setProc, Machine.setProc_setProc]
    rcases gcRegs (m.proc.setHeap heap) with e | p
    · rfl
    · simp only [hr, Machine.proc_setProc, Machine.setProc_setProc, ok_bind]
      rcases alloc p with e | ⟨t, heap⟩
      · rfl
      · by_cases ht : t = 0#32 <;> simp [ht]
  · simp [ht, finish]

theorem opCons_step (m : Machine) :
    finish (opCons m) = afterDecode hal preOpPc (operands m.proc.program (some .cons)) m := by
  refine fetch3_step (fun dst hd tl m => ?_) m
  rw [finish_bind_ok _ _ m m _ (readReg_regByte hd m),
    finish_bind_ok _ _ m m _ (readReg_regByte tl m),
    allocate_apply (fun q => mbHeapCons q.heap (q.reg hd) (q.reg tl)) _ _ dst m rfl]
  · simp only [execInstr, Instr.run]
    rcases allocate m.proc _ dst with e | ⟨rc, p⟩ <;> simp
  · intro m
    rw [finish_bind_ok _ _ m m _ (readReg_regByte hd m),
      finish_bind_ok _ _ m m _ (readReg_regByte tl m)]
    exact retry_apply (fun q => mbHeapCons q.heap (q.reg hd) (q.reg tl)) _ dst m rfl

theorem fetchElems_apply (n : ℕ) (elems : List Term) (m : Machine) (hn : elems.length + n ≤ 16) :
    fetchElems elems n m = match regList m.proc.program n m.proc.pc with
      | (.error e, pc) => .ok (.error e, m.setProc (m.proc.setPc pc))
      | (.ok rs, pc) =>
        .ok (.ok (elems ++ rs.map m.proc.reg), m.setProc (m.proc.setPc pc)) := by
  induction n generalizing elems m with
  | zero => simp [fetchElems, regList, Vm.pure_apply, Decoder.pure_apply]
  | succ n ih =>
      have hlen : elems.length < maxTupleArity := by show elems.length < 16; omega
      simp only [fetchElems, regList, mbFetchU8_eq, Vm.bind_apply, decoding_apply,
        Decoder.bind_apply, Decoder.toReg_apply, hlen, if_true, Vm.require_apply, mbVmValidReg]
      rcases u8 m.proc.program m.proc.pc with ⟨_ | b, pc⟩
      · simp
      by_cases hb : b.toNat < regCount
      · simp only [hb, decide_true, if_true, dite_true, Vm.readReg_apply _ hb]
        rw [ih _ _ (by simp; omega)]
        simp only [Machine.proc_setProc, Process.setPc_program, Process.setPc_pc,
          Process.setPc_reg]
        rcases regList m.proc.program n pc with ⟨_ | rs, pc⟩ <;>
          simp [Decoder.pure_apply, funext (Process.setPc_reg m.proc _)]
      · simp [hb]

/-- `MAKE_TUPLE` behind its checks. -/
theorem makeTuple_end (dst : Reg) (rs : List Reg) (m : Machine) :
    finish ((do
      let result ← heapCall fun heap =>
        mbHeapMakeTuple heap (rs.map m.proc.reg) rs.length
      if result ≠ 0 then writeReg (regByte dst) result
      else
        collect
        let result ← heapCall fun heap =>
          mbHeapMakeTuple heap (rs.map m.proc.reg) rs.length
        require (result != 0) .heapOom
        writeReg (regByte dst) result) m) =
      execInstr hal preOpPc m (.makeTuple dst rs) := by
  rw [allocate_apply (fun q => mbHeapMakeTuple q.heap (rs.map m.proc.reg) rs.length) _ _ dst m rfl
    fun m' => retry_apply (fun q => mbHeapMakeTuple q.heap (rs.map m.proc.reg) rs.length) _ dst m'
      rfl]
  simp only [execInstr, Instr.run, List.length_map]
  rcases allocate m.proc _ dst with e | ⟨rc, p⟩ <;> simp

theorem opMakeTuple_step (m : Machine) :
    finish (opMakeTuple m) =
      afterDecode hal preOpPc (operands m.proc.program (some .makeTuple)) m := by
  simp only [opMakeTuple, operands, afterDecode, mbFetchU8_eq, decoding_apply, Decoder.bind_apply,
    Vm.bind_apply, Vm.require_apply, mbVmValidReg]
  rcases u8 m.proc.program m.proc.pc with ⟨_ | dst, pc⟩
  · simp [finish]
  simp only [Machine.proc_setProc, Process.setPc_program, Process.setPc_pc]
  rcases u8 m.proc.program pc with ⟨_ | arity, pc⟩
  · simp [finish]
  by_cases ha : arity.toNat ≤ maxTupleArity
  swap
  · simp [ha, Decoder.stop_apply, finish, Nat.lt_of_not_le ha]
  by_cases hd : dst.toNat < regCount
  swap
  · simp [ha, hd, Decoder.bind_apply, Decoder.toReg_apply, finish, Nat.not_lt_of_le ha]
  simp only [ha, hd, decide_true, Bool.and_self, if_true, dite_true, Decoder.bind_apply,
    Decoder.toReg_apply]
  rw [fetchElems_apply _ [] _ (by simpa using ha)]
  simp only [Machine.proc_setProc, Process.setPc_program, Process.setPc_pc,
    Machine.setProc_setProc, Process.setPc_setPc, List.nil_append]
  rcases hr : regList m.proc.program arity.toNat pc with ⟨_ | rs, pc'⟩
  · simp [finish]
  have hlen := regList_length _ _ hr
  simp only [Decoder.pure_apply, ← makeTuple_end, Machine.proc_setProc, ← hlen,
    funext (Process.setPc_reg m.proc _), ← eq_regByte]
  rw [Vm.bind_apply]

/-! ### The step -/

theorem dispatch_step (op : Option Opcode) (m : Machine) :
    finish (dispatch hal preOpPc op m) =
      afterDecode hal preOpPc (operands m.proc.program op) m := by
  rcases op with _ | op
  · simp [dispatch, Vm.throw_apply, operands, afterDecode, Decoder.stop_apply, finish]
  cases op with
  | nop =>
      simp [dispatch, Vm.pure_apply, operands, afterDecode, Decoder.pure_apply, finish, execInstr,
        Instr.run]
  | constI32 => exact opConstI32_step m
  | move => exact opMove_step m
  | add => exact opAdd_step m
  | sub => exact opSub_step m
  | callBif => exact opCallBif_step m
  | recvCmd => exact opRecvCmd_step m
  | send => exact opSend_step m
  | self => exact opSelf_step m
  | yield => exact opYield_step m
  | jmp => exact opJmp_step m
  | jmpIfZero => exact opJmpIfZero_step m
  | sleepMs => exact opSleepMs_step m
  | makeTuple => exact opMakeTuple_step m
  | tupleElem => exact opTupleElem_step m
  | cons => exact opCons_step m
  | head => exact opHead_step m
  | tail => exact opTail_step m
  | halt => exact opHalt_step m

theorem mbProcStep_finish (m : Machine) :
    mbProcStep hal m = if m.proc.halted then .ok (.ok, m) else finish (stepBody hal m) := by
  unfold mbProcStep
  split
  · rfl
  · rcases stepBody hal m with _ | ⟨_ | _, _⟩ <;> rfl

/-- One step of the interpreter, as a decoding followed by the effect of the
instruction on a process whose pc is past it. -/
theorem mbProcStep_eq (m : Machine) :
    mbProcStep hal m =
      if m.proc.halted then .ok (.ok, m)
      else match decode m.proc.program m.proc.pc with
        | (.error e, pc) => .ok (e, m.setProc ((m.proc.setPc pc).fail e))
        | (.ok i, pc) => execInstr hal m.proc.pc (m.setProc (m.proc.setPc pc)) i := by
  rw [mbProcStep_finish]
  split
  · rfl
  simp only [stepBody, decode, Vm.bind_apply, Vm.getProc_apply, mbFetchU8_eq, decoding_apply,
    Decoder.bind_apply]
  rcases u8 m.proc.program m.proc.pc with ⟨_ | op, pc⟩
  · simp [finish]
  · simp only [dispatch_step, afterDecode, Machine.proc_setProc, Process.setPc_program,
      Process.setPc_pc, Machine.setProc_setProc, Process.setPc_setPc]

/-- A step that decodes is the effect of its instruction. -/
theorem mbProcStep_exec (hal : Hal) {m : Machine} {i : Instr} {pc : ℕ} (hh : m.proc.halted = false)
    (hd : decode m.proc.program m.proc.pc = (.ok i, pc)) :
    mbProcStep hal m = execInstr hal m.proc.pc (m.setProc (m.proc.setPc pc)) i := by
  rw [mbProcStep_eq, if_neg (by simp [hh]), hd]

end MiniBeam
