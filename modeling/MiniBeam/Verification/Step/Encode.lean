import MiniBeam.Verification.Step.Equations

/-! Instructions as bytes: what a decoder that succeeds has read, the encoding of an
instruction, and the round trip between them. -/

namespace MiniBeam

open Decoder

/-! ### Decoders that succeed -/

theorem Decoder.u8_ok {program : List Byte} {pc pc' : ℕ} {b : Byte}
    (h : u8 program pc = (.ok b, pc')) : program[pc]? = some b ∧ pc' = pc + 1 := by
  rw [u8_apply] at h
  cases hb : program[pc]? with
  | none => simp [hb] at h
  | some c =>
      simp only [hb, Prod.mk.injEq, Except.ok.injEq] at h
      exact ⟨by rw [h.1], h.2.symm⟩

theorem Decoder.toReg_ok {b : Byte} {pc pc' : ℕ} {r : Reg} (h : toReg b pc = (.ok r, pc')) :
    b.toNat < regCount ∧ pc' = pc := by
  rw [toReg_apply] at h
  split at h
  · simp only [Prod.mk.injEq] at h
    exact ⟨by assumption, h.2.symm⟩
  · simp at h

theorem Decoder.bind_ok {α β : Type} {x : Decoder α} {k : α → Decoder β} {pc pc' : ℕ} {b : β}
    (h : (x >>= k) pc = (.ok b, pc')) : ∃ a pc₁, x pc = (.ok a, pc₁) ∧ k a pc₁ = (.ok b, pc') := by
  rw [bind_apply] at h
  rcases hx : x pc with ⟨_ | a, pc₁⟩
  · simp [hx] at h
  · simp only [hx] at h
    exact ⟨a, pc₁, rfl, h⟩

theorem Decoder.pure_ok {α : Type} {a b : α} {pc pc' : ℕ}
    (h : (pure a : Decoder α) pc = (.ok b, pc')) : a = b ∧ pc = pc' := by
  simpa [pure_apply] using h

/-- The operands of an opcode build an instruction of that opcode. -/
theorem operands_opcode {program : List Byte} {op : Option Opcode} {pc pc' : ℕ} {i : Instr}
    (h : operands program op pc = (.ok i, pc')) : op = some i.opcode := by
  rcases op with _ | op
  · simp [operands, Decoder.stop_apply] at h
  cases op <;> simp only [operands, reg1, reg2, reg3] at h
  all_goals
    repeat
      first
        | obtain ⟨rfl, -⟩ := Decoder.pure_ok h
        | obtain ⟨_, _, -, h⟩ := Decoder.bind_ok h
        | (split at h)
    all_goals first | rfl | simp [Decoder.stop_apply] at h

/-- An instruction decoded at `pc` starts with its opcode there. -/
theorem decode_opcode {program : List Byte} {pc pc' : ℕ} {i : Instr}
    (h : decode program pc = (.ok i, pc')) :
    ∃ op, program[pc]? = some op ∧ Opcode.ofCode? op = some i.opcode ∧
      operands program (some i.opcode) (pc + 1) = (.ok i, pc') := by
  obtain ⟨op, pc₁, hop, h⟩ := Decoder.bind_ok h
  obtain ⟨hbyte, rfl⟩ := Decoder.u8_ok hop
  have hopcode := operands_opcode h
  rw [hopcode] at h
  exact ⟨op, hbyte, hopcode, h⟩

/-! ### Bytes in a program -/

/-- `bytes` stand in the program at `pc`. -/
def BytesAt (program : List Byte) (pc : ℕ) (bytes : List Byte) : Prop :=
  bytes <+: program.drop pc

section BytesAt

variable {program : List Byte} {pc : ℕ}

@[simp] theorem bytesAt_nil : BytesAt program pc [] := List.nil_prefix

theorem bytesAt_cons {b : Byte} {bytes : List Byte} :
    BytesAt program pc (b :: bytes) ↔ program[pc]? = some b ∧ BytesAt program (pc + 1) bytes := by
  unfold BytesAt
  rw [← List.drop_drop, List.drop_one]
  cases h : program.drop pc with
  | nil =>
      have hpc : program[pc]? = none := by
        rw [List.getElem?_eq_none_iff]
        exact List.drop_eq_nil_iff.mp h
      simp [hpc]
  | cons c rest =>
      have hpc : program[pc]? = some c := by
        rw [← Nat.add_zero pc, ← List.getElem?_drop, h, List.getElem?_cons_zero]
      rw [List.cons_prefix_cons, hpc, Option.some.injEq, List.tail_cons, eq_comm (a := b)]

theorem bytesAt_append {xs ys : List Byte} :
    BytesAt program pc (xs ++ ys) ↔
      BytesAt program pc xs ∧ BytesAt program (pc + xs.length) ys := by
  induction xs generalizing pc with
  | nil => simp
  | cons b xs ih =>
      rw [List.cons_append, bytesAt_cons, ih, bytesAt_cons, and_assoc, List.length_cons,
        Nat.add_assoc, Nat.add_comm 1]

/-- The bytes behind a prefix of the program. -/
theorem bytesAt_middle (pre bytes post : List Byte) :
    BytesAt (pre ++ (bytes ++ post)) pre.length bytes := by
  unfold BytesAt
  rw [List.drop_left]
  exact List.prefix_append bytes post

end BytesAt

/-! ### Encoding -/

/-- The byte of an opcode. -/
def Opcode.code : Opcode → Byte
  | .nop => 0x00
  | .constI32 => 0x01
  | .move => 0x02
  | .add => 0x03
  | .sub => 0x04
  | .callBif => 0x10
  | .recvCmd => 0x20
  | .send => 0x21
  | .self => 0x22
  | .yield => 0x23
  | .jmp => 0x30
  | .jmpIfZero => 0x31
  | .sleepMs => 0x40
  | .makeTuple => 0x50
  | .tupleElem => 0x51
  | .cons => 0x52
  | .head => 0x53
  | .tail => 0x54
  | .halt => 0xFF

@[simp] theorem Opcode.ofCode?_code (op : Opcode) : Opcode.ofCode? op.code = some op := by
  cases op <;> rfl

/-- The four bytes of a word, the lowest first. -/
def wordBytes (v : I32) : List Byte :=
  [v.setWidth 8, (v >>> 8).setWidth 8, (v >>> 16).setWidth 8, (v >>> 24).setWidth 8]

theorem word_of_bytes (v : I32) :
    ((v.setWidth 8).setWidth 32 ||| (((v >>> 8).setWidth 8).setWidth 32 <<< 8) |||
      (((v >>> 16).setWidth 8).setWidth 32 <<< 16) |||
      (((v >>> 24).setWidth 8).setWidth 32 <<< 24) : I32) = v := by
  refine BitVec.eq_of_getLsbD_eq fun i hi => ?_
  simp only [BitVec.getLsbD_or, BitVec.getLsbD_shiftLeft, BitVec.getLsbD_setWidth,
    BitVec.getLsbD_ushiftRight]
  -- each bit stands in one of the four bytes
  by_cases h8 : i < 8
  · have h16 : i < 16 := by omega
    have h24 : i < 24 := by omega
    simp [h8, h16, h24, hi]
  by_cases h16 : i < 16
  · have h24 : i < 24 := by omega
    have hlow : i - 8 < 8 := by omega
    have hsub : i - 8 < 32 := by omega
    have hidx : 8 + (i - 8) = i := by omega
    simp [h8, h16, h24, hi, hlow, hsub, hidx]
  by_cases h24 : i < 24
  · have hlow : i - 16 < 8 := by omega
    have hlow8 : ¬ i - 8 < 8 := by omega
    have hsub : i - 16 < 32 := by omega
    have hidx : 16 + (i - 16) = i := by omega
    simp [h8, h16, h24, hi, hlow, hlow8, hsub, hidx]
  · have hlow : i - 24 < 8 := by omega
    have hlow8 : ¬ i - 8 < 8 := by omega
    have hlow16 : ¬ i - 16 < 8 := by omega
    have hsub : i - 24 < 32 := by omega
    have hidx : 24 + (i - 24) = i := by omega
    simp [h8, h16, h24, hi, hlow, hlow8, hlow16, hsub, hidx]

namespace Instr

/-- The operand bytes of an instruction. -/
def operandBytes : Instr → List Byte
  | .nop | .yield | .halt => []
  | .constI32 dst val => regByte dst :: wordBytes val
  | .move dst a b | .add dst a b | .sub dst a b | .cons dst a b =>
    [regByte dst, regByte a, regByte b]
  | .callBif bifId args dst => bifId :: BitVec.ofNat 8 args.length :: (args.map regByte ++ [dst])
  | .recvCmd t a b c d => [regByte t, regByte a, regByte b, regByte c, regByte d]
  | .send p t a b c d => [regByte p, regByte t, regByte a, regByte b, regByte c, regByte d]
  | .self dst => [regByte dst]
  | .jmp offset => wordBytes offset
  | .jmpIfZero reg offset => regByte reg :: wordBytes offset
  | .sleepMs reg => [regByte reg]
  | .makeTuple dst elems => regByte dst :: BitVec.ofNat 8 elems.length :: elems.map regByte
  | .tupleElem dst tuple index => [regByte dst, regByte tuple, index]
  | .head dst cell | .tail dst cell => [regByte dst, regByte cell]

def encode (i : Instr) : List Byte := i.opcode.code :: i.operandBytes

/-- The buffers of the interpreter hold the operands of the instruction. -/
def Encodable : Instr → Prop
  | .callBif _ args _ => args.length ≤ 8
  | .makeTuple _ elems => elems.length ≤ maxTupleArity
  | _ => True

end Instr

section RoundTrip

variable {program : List Byte} {pc : ℕ}

theorem u8_some {b : Byte} (h : program[pc]? = some b) : u8 program pc = (.ok b, pc + 1) := by
  rw [u8_apply, h]

@[simp] theorem toReg_regByte (r : Reg) (pc : ℕ) : toReg (regByte r) pc = (.ok r, pc) := by
  simp [toReg_apply]

theorem i32_bytes {v : I32} (h : BytesAt program pc (wordBytes v)) :
    i32 program pc = (.ok v, pc + 4) := by
  simp only [wordBytes, bytesAt_cons, Nat.add_assoc] at h
  obtain ⟨h0, h1, h2, h3, -⟩ := h
  simp only [i32, Decoder.bind_apply, u8_some h0, u8_some h1, u8_some h2, u8_some h3,
    Decoder.pure_apply, Nat.add_assoc, word_of_bytes]

theorem regList_bytes {rs : List Reg} (h : BytesAt program pc (rs.map regByte)) :
    regList program rs.length pc = (.ok rs, pc + rs.length) := by
  induction rs generalizing pc with
  | nil => rfl
  | cons r rs ih =>
      rw [List.map_cons, bytesAt_cons] at h
      have hrest := ih h.2
      simp only [List.length_cons, regList, Decoder.bind_apply, u8_some h.1, toReg_regByte, hrest,
        Decoder.pure_apply, Nat.add_assoc, Nat.add_comm 1]

theorem reg1_bytes {mk : Reg → Instr} {a : Reg} (h : BytesAt program pc [regByte a]) :
    reg1 program mk pc = (.ok (mk a), pc + 1) := by
  simp only [bytesAt_cons] at h
  simp only [reg1, Decoder.bind_apply, u8_some h.1, toReg_regByte, Decoder.pure_apply]

theorem reg2_bytes {mk : Reg → Reg → Instr} {a b : Reg}
    (h : BytesAt program pc [regByte a, regByte b]) :
    reg2 program mk pc = (.ok (mk a b), pc + 2) := by
  simp only [bytesAt_cons, Nat.add_assoc] at h
  obtain ⟨ha, hb, -⟩ := h
  simp only [reg2, Decoder.bind_apply, u8_some ha, u8_some hb, toReg_regByte, Decoder.pure_apply,
    Nat.add_assoc]

theorem reg3_bytes {mk : Reg → Reg → Reg → Instr} {a b c : Reg}
    (h : BytesAt program pc [regByte a, regByte b, regByte c]) :
    reg3 program mk pc = (.ok (mk a b c), pc + 3) := by
  simp only [bytesAt_cons, Nat.add_assoc] at h
  obtain ⟨ha, hb, hc, -⟩ := h
  simp only [reg3, Decoder.bind_apply, u8_some ha, u8_some hb, u8_some hc, toReg_regByte,
    Decoder.pure_apply, Nat.add_assoc]

theorem toNat_length {α : Type} {l : List α} {n : ℕ} (h : l.length ≤ n) (hn : n < 256) :
    (BitVec.ofNat 8 l.length).toNat = l.length := by
  rw [BitVec.toNat_ofNat, Nat.mod_eq_of_lt (lt_of_le_of_lt h hn)]

theorem callBif_bytes {bifId dst : Byte} {args : List Reg} (hlen : args.length ≤ 8)
    (h : BytesAt program pc (Instr.callBif bifId args dst).operandBytes) :
    operands program (some .callBif) pc =
      (.ok (.callBif bifId args dst), pc + (Instr.callBif bifId args dst).operandBytes.length) := by
  rw [Instr.operandBytes, bytesAt_cons, bytesAt_cons, bytesAt_append, bytesAt_cons,
    List.length_map] at h
  obtain ⟨hbif, hargc, hargs, hdst, -⟩ := h
  have hargc' := toNat_length hlen (by decide)
  have hregs := regList_bytes hargs
  simp only [operands, Decoder.bind_apply, u8_some hbif, u8_some hargc, hargc', if_pos hlen, hregs,
    u8_some hdst, Decoder.pure_apply]
  simp [Instr.operandBytes]
  omega

theorem makeTuple_bytes {dst : Reg} {elems : List Reg} (hlen : elems.length ≤ maxTupleArity)
    (h : BytesAt program pc (Instr.makeTuple dst elems).operandBytes) :
    operands program (some .makeTuple) pc =
      (.ok (.makeTuple dst elems), pc + (Instr.makeTuple dst elems).operandBytes.length) := by
  rw [Instr.operandBytes, bytesAt_cons, bytesAt_cons] at h
  obtain ⟨hdst, harity, helems⟩ := h
  have harity' := toNat_length hlen (by decide)
  have hregs := regList_bytes helems
  simp only [operands, Decoder.bind_apply, u8_some hdst, u8_some harity, harity', if_pos hlen,
    toReg_regByte, hregs, Decoder.pure_apply]
  simp [Instr.operandBytes]
  omega

theorem operands_bytes {i : Instr} (hi : i.Encodable) (h : BytesAt program pc i.operandBytes) :
    operands program (some i.opcode) pc = (.ok i, pc + i.operandBytes.length) := by
  cases i with
  | nop | yield | halt => rfl
  | move d a b | add d a b | sub d a b | cons d a b => exact reg3_bytes h
  | head d c | tail d c => exact reg2_bytes h
  | self d | sleepMs r => exact reg1_bytes h
  | callBif bifId args dst => exact callBif_bytes hi h
  | makeTuple dst elems => exact makeTuple_bytes hi h
  | constI32 dst val =>
      obtain ⟨hdst, hval⟩ := bytesAt_cons.mp h
      simp only [Instr.opcode, operands, Decoder.bind_apply, u8_some hdst, i32_bytes hval,
        toReg_regByte, Decoder.pure_apply]
      rfl
  | jmp offset =>
      simp only [Instr.opcode, operands, Decoder.bind_apply, i32_bytes h, Decoder.pure_apply]
      rfl
  | jmpIfZero reg offset =>
      obtain ⟨hreg, hoffset⟩ := bytesAt_cons.mp h
      simp only [Instr.opcode, operands, Decoder.bind_apply, u8_some hreg, i32_bytes hoffset,
        toReg_regByte, Decoder.pure_apply]
      rfl
  | tupleElem dst tuple index =>
      simp only [Instr.operandBytes, bytesAt_cons, Nat.add_assoc] at h
      obtain ⟨h0, h1, h2, -⟩ := h
      simp only [Instr.opcode, operands, Decoder.bind_apply, u8_some h0, u8_some h1, u8_some h2,
        toReg_regByte, Decoder.pure_apply, Nat.add_assoc]
      rfl
  | recvCmd t a b c d =>
      simp only [Instr.operandBytes, bytesAt_cons, Nat.add_assoc] at h
      obtain ⟨h0, h1, h2, h3, h4, -⟩ := h
      simp only [Instr.opcode, operands, Decoder.bind_apply, u8_some h0, u8_some h1, u8_some h2,
        u8_some h3, u8_some h4, toReg_regByte, Decoder.pure_apply, Nat.add_assoc]
      rfl
  | send p t a b c d =>
      simp only [Instr.operandBytes, bytesAt_cons, Nat.add_assoc] at h
      obtain ⟨h0, h1, h2, h3, h4, h5, -⟩ := h
      simp only [Instr.opcode, operands, Decoder.bind_apply, u8_some h0, u8_some h1, u8_some h2,
        u8_some h3, u8_some h4, u8_some h5, toReg_regByte, Decoder.pure_apply, Nat.add_assoc]
      rfl

/-- Decoding finds the instruction that was encoded, and stops behind it. -/
theorem decode_encode {i : Instr} (hi : i.Encodable) (h : BytesAt program pc i.encode) :
    decode program pc = (.ok i, pc + i.encode.length) := by
  obtain ⟨hop, h⟩ := bytesAt_cons.mp h
  simp only [decode, Decoder.bind_apply, u8_some hop, Opcode.ofCode?_code, operands_bytes hi h]
  rw [Instr.encode, List.length_cons, Nat.add_assoc, Nat.add_comm 1]

end RoundTrip

/-- A sequence of instructions as a program. -/
def assemble (is : List Instr) : List Byte := is.flatMap Instr.encode

/-- The instruction behind a prefix of a program. -/
theorem decode_middle (pre post : List Byte) {i : Instr} (hi : i.Encodable) :
    decode (pre ++ (i.encode ++ post)) pre.length = (.ok i, (pre ++ i.encode).length) := by
  rw [decode_encode hi (bytesAt_middle pre i.encode post), List.length_append]

end MiniBeam
