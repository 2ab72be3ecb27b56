import MiniBeam.Verification.Step.Encode

/-! The other half of the round trip: a decoder that succeeds has read the encoding of its
result and nothing else, so that an instruction has one bytecode. -/

namespace MiniBeam

open Decoder

section Codec

variable {program : List Byte} {pc pc' : ℕ} {β : Type} {b : β}

/-! ### Reads that a decoder has made -/

/-- A decoder that succeeds after a fetch has found the byte. -/
theorem Decoder.fetched {k : Byte → Decoder β} (h : (u8 program >>= k) pc = (.ok b, pc')) :
    ∃ c, program[pc]? = some c ∧ k c (pc + 1) = (.ok b, pc') := by
  obtain ⟨c, pc₁, hc, hk⟩ := bind_ok h
  obtain ⟨hbyte, rfl⟩ := u8_ok hc
  exact ⟨c, hbyte, hk⟩

/-- A byte that passed the check is the number of its register. -/
theorem Decoder.checkedReg {c : Byte} {k : Reg → Decoder β}
    (h : (toReg c >>= k) pc = (.ok b, pc')) : ∃ r, c = regByte r ∧ k r pc = (.ok b, pc') := by
  obtain ⟨r, pc₁, hr, hk⟩ := bind_ok h
  rw [toReg_apply] at hr
  split at hr
  · simp only [Prod.mk.injEq, Except.ok.injEq] at hr
    obtain ⟨rfl, rfl⟩ := hr
    exact ⟨_, by simp [regByte], hk⟩
  · simp at hr

/-- The bytes of a word that was put together from four. -/
theorem wordBytes_word (b₀ b₁ b₂ b₃ : Byte) :
    wordBytes (b₀.setWidth 32 ||| (b₁.setWidth 32 <<< 8) ||| (b₂.setWidth 32 <<< 16) |||
      (b₃.setWidth 32 <<< 24)) = [b₀, b₁, b₂, b₃] := by
  simp only [wordBytes, List.cons.injEq, and_true]
  refine ⟨?_, ?_, ?_, ?_⟩
  all_goals
    refine BitVec.eq_of_getLsbD_eq fun i hi => ?_
    simp only [BitVec.getLsbD_or, BitVec.getLsbD_shiftLeft, BitVec.getLsbD_setWidth,
      BitVec.getLsbD_ushiftRight]
    grind

theorem Decoder.fetchedWord {k : I32 → Decoder β} (h : (i32 program >>= k) pc = (.ok b, pc')) :
    ∃ v, BytesAt program pc (wordBytes v) ∧ k v (pc + 4) = (.ok b, pc') := by
  obtain ⟨v, pc₁, hv, hk⟩ := bind_ok h
  obtain ⟨b₀, h₀, hv⟩ := fetched hv
  obtain ⟨b₁, h₁, hv⟩ := fetched hv
  obtain ⟨b₂, h₂, hv⟩ := fetched hv
  obtain ⟨b₃, h₃, hv⟩ := fetched hv
  obtain ⟨rfl, rfl⟩ := Decoder.pure_ok hv
  refine ⟨_, ?_, hk⟩
  rw [wordBytes_word]
  simp only [bytesAt_cons, bytesAt_nil, and_true]
  exact ⟨h₀, h₁, h₂, h₃⟩

theorem regList_regs {n : ℕ} {rs : List Reg} (h : regList program n pc = (.ok rs, pc')) :
    rs.length = n ∧ BytesAt program pc (rs.map regByte) ∧ pc' = pc + n := by
  induction n generalizing pc rs with
  | zero =>
      obtain ⟨rfl, rfl⟩ := Decoder.pure_ok h
      exact ⟨rfl, bytesAt_nil, rfl⟩
  | succ n ih =>
      obtain ⟨c, hc, h⟩ := fetched h
      obtain ⟨r, hr1, h⟩ := checkedReg h
      obtain ⟨rest, _, hrest, h⟩ := bind_ok h
      obtain ⟨rfl, rfl⟩ := Decoder.pure_ok h
      subst hr1
      obtain ⟨hlen, hbytes, rfl⟩ := ih hrest
      refine ⟨by simp [hlen], ?_, by omega⟩
      rw [List.map_cons, bytesAt_cons]
      exact ⟨hc, hbytes⟩

theorem Decoder.fetchedRegs {n : ℕ} {k : List Reg → Decoder β}
    (h : (regList program n >>= k) pc = (.ok b, pc')) : ∃ rs, rs.length = n ∧
      BytesAt program pc (rs.map regByte) ∧ k rs (pc + n) = (.ok b, pc') := by
  obtain ⟨rs, pc₁, hrs, hk⟩ := bind_ok h
  obtain ⟨hlen, hbytes, rfl⟩ := regList_regs hrs
  exact ⟨rs, hlen, hbytes, hk⟩

/-! ### Operands -/

theorem reg1_regs {mk : Reg → Instr} {i : Instr} (h : reg1 program mk pc = (.ok i, pc')) :
    ∃ a, mk a = i ∧ BytesAt program pc [regByte a] ∧ pc' = pc + 1 := by
  obtain ⟨_, ha, h⟩ := fetched h
  obtain ⟨a, hr1, h⟩ := checkedReg h
  obtain ⟨heq, rfl⟩ := Decoder.pure_ok h
  subst hr1
  exact ⟨a, heq, by simpa [bytesAt_cons] using ha, rfl⟩

theorem reg2_regs {mk : Reg → Reg → Instr} {i : Instr} (h : reg2 program mk pc = (.ok i, pc')) :
    ∃ a b, mk a b = i ∧ BytesAt program pc [regByte a, regByte b] ∧ pc' = pc + 2 := by
  obtain ⟨_, ha, h⟩ := fetched h
  obtain ⟨_, hb, h⟩ := fetched h
  obtain ⟨a, hr1, h⟩ := checkedReg h
  obtain ⟨b, hr2, h⟩ := checkedReg h
  obtain ⟨heq, rfl⟩ := Decoder.pure_ok h
  subst hr1 hr2
  exact ⟨a, b, heq, by simpa [bytesAt_cons] using ⟨ha, hb⟩, rfl⟩

theorem reg3_regs {mk : Reg → Reg → Reg → Instr} {i : Instr}
    (h : reg3 program mk pc = (.ok i, pc')) : ∃ a b c, mk a b c = i ∧
      BytesAt program pc [regByte a, regByte b, regByte c] ∧ pc' = pc + 3 := by
  obtain ⟨_, ha, h⟩ := fetched h
  obtain ⟨_, hb, h⟩ := fetched h
  obtain ⟨_, hc, h⟩ := fetched h
  obtain ⟨a, hr1, h⟩ := checkedReg h
  obtain ⟨b, hr2, h⟩ := checkedReg h
  obtain ⟨c, hr3, h⟩ := checkedReg h
  obtain ⟨heq, rfl⟩ := Decoder.pure_ok h
  subst hr1 hr2 hr3
  exact ⟨a, b, c, heq, by simpa [bytesAt_cons] using ⟨ha, hb, hc⟩, rfl⟩

theorem length_byte {α : Type} {l : List α} {c : Byte} (h : l.length = c.toNat) :
    c = BitVec.ofNat 8 l.length := by
  rw [h, BitVec.ofNat_toNat, BitVec.setWidth_eq]

/-- The operands that were read are the operands of the instruction. -/
theorem operands_codec {i : Instr} (h : operands program (some i.opcode) pc = (.ok i, pc')) :
    i.Encodable ∧ BytesAt program pc i.operandBytes ∧ pc' = pc + i.operandBytes.length := by
  cases i with
  | nop | yield | halt =>
      obtain ⟨-, rfl⟩ := Decoder.pure_ok h
      exact ⟨trivial, bytesAt_nil, rfl⟩
  | move d a b | add d a b | sub d a b | cons d a b =>
      obtain ⟨_, _, _, heq, hbytes, hpc⟩ := reg3_regs h
      cases heq
      exact ⟨trivial, hbytes, hpc⟩
  | head d c | tail d c =>
      obtain ⟨_, _, heq, hbytes, hpc⟩ := reg2_regs h
      cases heq
      exact ⟨trivial, hbytes, hpc⟩
  | self d | sleepMs r =>
      obtain ⟨_, heq, hbytes, hpc⟩ := reg1_regs h
      cases heq
      exact ⟨trivial, hbytes, hpc⟩
  | constI32 dst val =>
      obtain ⟨_, hdst, h⟩ := fetched h
      obtain ⟨_, hval, h⟩ := fetchedWord h
      obtain ⟨_, hr1, h⟩ := checkedReg h
      obtain ⟨heq, rfl⟩ := Decoder.pure_ok h
      subst hr1
      cases heq
      exact ⟨trivial, bytesAt_cons.mpr ⟨hdst, hval⟩, rfl⟩
  | callBif bifId args dst =>
      obtain ⟨_, hbif, h⟩ := fetched h
      obtain ⟨argc, hargc, h⟩ := fetched h
      split at h
      · rename_i hle
        obtain ⟨_, hlen, hargs, h⟩ := fetchedRegs h
        obtain ⟨_, hdst, h⟩ := fetched h
        obtain ⟨heq, rfl⟩ := Decoder.pure_ok h
        cases heq
        rw [length_byte hlen] at hargc
        refine ⟨show args.length ≤ 8 from hlen ▸ hle, ?_, by simp [Instr.operandBytes]; omega⟩
        simp only [Instr.operandBytes, bytesAt_cons, bytesAt_append, bytesAt_nil, and_true,
          List.length_map, hlen]
        exact ⟨hbif, hlen ▸ hargc, hargs, hdst⟩
      · simp [stop_apply] at h
  | recvCmd t a b c d =>
      obtain ⟨_, ht, h⟩ := fetched h
      obtain ⟨_, ha, h⟩ := fetched h
      obtain ⟨_, hb, h⟩ := fetched h
      obtain ⟨_, hc, h⟩ := fetched h
      obtain ⟨_, hd, h⟩ := fetched h
      obtain ⟨_, hr1, h⟩ := checkedReg h
      obtain ⟨_, hr2, h⟩ := checkedReg h
      obtain ⟨_, hr3, h⟩ := checkedReg h
      obtain ⟨_, hr4, h⟩ := checkedReg h
      obtain ⟨_, hr5, h⟩ := checkedReg h
      obtain ⟨heq, rfl⟩ := Decoder.pure_ok h
      subst hr1 hr2 hr3 hr4 hr5
      cases heq
      exact ⟨trivial, by simpa [Instr.operandBytes, bytesAt_cons] using ⟨ht, ha, hb, hc, hd⟩, rfl⟩
  | send p t a b c d =>
      obtain ⟨_, hp, h⟩ := fetched h
      obtain ⟨_, ht, h⟩ := fetched h
      obtain ⟨_, ha, h⟩ := fetched h
      obtain ⟨_, hb, h⟩ := fetched h
      obtain ⟨_, hc, h⟩ := fetched h
      obtain ⟨_, hd, h⟩ := fetched h
      obtain ⟨_, hr1, h⟩ := checkedReg h
      obtain ⟨_, hr2, h⟩ := checkedReg h
      obtain ⟨_, hr3, h⟩ := checkedReg h
      obtain ⟨_, hr4, h⟩ := checkedReg h
      obtain ⟨_, hr5, h⟩ := checkedReg h
      obtain ⟨_, hr6, h⟩ := checkedReg h
      obtain ⟨heq, rfl⟩ := Decoder.pure_ok h
      subst hr1 hr2 hr3 hr4 hr5 hr6
      cases heq
      exact ⟨trivial, by simpa [Instr.operandBytes, bytesAt_cons] using ⟨hp, ht, ha, hb, hc, hd⟩,
        rfl⟩
  | jmp offset =>
      obtain ⟨_, hoffset, h⟩ := fetchedWord h
      obtain ⟨heq, rfl⟩ := Decoder.pure_ok h
      cases heq
      exact ⟨trivial, hoffset, rfl⟩
  | jmpIfZero reg offset =>
      obtain ⟨_, hreg, h⟩ := fetched h
      obtain ⟨_, hoffset, h⟩ := fetchedWord h
      obtain ⟨_, hr1, h⟩ := checkedReg h
      obtain ⟨heq, rfl⟩ := Decoder.pure_ok h
      subst hr1
      cases heq
      exact ⟨trivial, bytesAt_cons.mpr ⟨hreg, hoffset⟩, rfl⟩
  | makeTuple dst elems =>
      obtain ⟨_, hdst, h⟩ := fetched h
      obtain ⟨arity, harity, h⟩ := fetched h
      split at h
      · rename_i hle
        obtain ⟨_, hr1, h⟩ := checkedReg h
        obtain ⟨_, hlen, helems, h⟩ := fetchedRegs h
        obtain ⟨heq, rfl⟩ := Decoder.pure_ok h
        subst hr1
        cases heq
        rw [length_byte hlen] at harity
        refine ⟨show elems.length ≤ maxTupleArity from hlen ▸ hle, ?_,
          by simp [Instr.operandBytes]; omega⟩
        simp only [Instr.operandBytes, bytesAt_cons]
        exact ⟨hdst, harity, helems⟩
      · simp [stop_apply] at h
  | tupleElem dst tuple index =>
      obtain ⟨_, hdst, h⟩ := fetched h
      obtain ⟨_, htuple, h⟩ := fetched h
      obtain ⟨_, hindex, h⟩ := fetched h
      obtain ⟨_, hr1, h⟩ := checkedReg h
      obtain ⟨_, hr2, h⟩ := checkedReg h
      obtain ⟨heq, rfl⟩ := Decoder.pure_ok h
      subst hr1 hr2
      cases heq
      exact ⟨trivial, by simpa [Instr.operandBytes, bytesAt_cons] using ⟨hdst, htuple, hindex⟩, rfl⟩

theorem Opcode.code_of_ofCode? {c : Byte} {op : Opcode} (h : Opcode.ofCode? c = some op) :
    c = op.code := by
  apply BitVec.eq_of_toNat_eq
  unfold Opcode.ofCode? at h
  split at h <;> cases h <;> assumption

/-- Decoding inverts encoding: at an address there is an instruction, up to the next address,
exactly when its encoding stands there. -/
theorem decode_iff (program : List Byte) (pc next : ℕ) (i : Instr) :
    decode program pc = (.ok i, next) ↔
      i.Encodable ∧ BytesAt program pc i.encode ∧ next = pc + i.encode.length := by
  constructor
  · intro h
    obtain ⟨c, hc, hop, hoperands⟩ := decode_opcode h
    obtain ⟨hi, hbytes, rfl⟩ := operands_codec hoperands
    refine ⟨hi, ?_, by rw [Instr.encode, List.length_cons]; omega⟩
    rw [Opcode.code_of_ofCode? hop] at hc
    exact bytesAt_cons.mpr ⟨hc, hbytes⟩
  · rintro ⟨hi, hbytes, rfl⟩
    exact decode_encode hi hbytes

end Codec

end MiniBeam
