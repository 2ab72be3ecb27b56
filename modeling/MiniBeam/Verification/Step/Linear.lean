import MiniBeam.Verification.Step.Control
import MiniBeam.Verification.Step.Encode

/-! Linear decoding: a program read from its first byte as one instruction behind the other,
each with the operand bytes that its opcode declares. -/

namespace MiniBeam

/-- The operand bytes of an opcode, without those that a count byte announces. -/
def Opcode.operandCount : Opcode → ℕ
  | .nop | .yield | .halt => 0
  | .self | .sleepMs => 1
  | .head | .tail | .makeTuple => 2
  | .move | .add | .sub | .callBif | .tupleElem | .cons => 3
  | .jmp => 4
  | .constI32 | .recvCmd | .jmpIfZero => 5
  | .send => 6

/-- The instructions with a list of operands, counted by their second operand byte. -/
def Opcode.counted : Opcode → Bool
  | .callBif | .makeTuple => true
  | _ => false

/-- The length of the instruction at `pc`, whatever the values of its operands. -/
def instrSize (program : List Byte) (pc : ℕ) : Option ℕ := do
  let op ← Opcode.ofCode? (← program[pc]?)
  if op.counted then return 1 + op.operandCount + (← program[pc + 2]?).toNat
  else return 1 + op.operandCount

/-- The instruction starts of the linear decoding, the end of the program among them. -/
inductive Start (program : List Byte) : ℕ → Prop
  | zero : Start program 0
  | next {pc n : ℕ} (start : Start program pc) (size : instrSize program pc = some n) :
      Start program (pc + n)

/-- The offset of the jump at `pc`, if one stands there. -/
def jumpOffsetAt (program : List Byte) (pc : ℕ) : Option I32 :=
  match (program[pc]?).bind Opcode.ofCode? with
  | some .jmp => (i32 program (pc + 1)).1.toOption
  | some .jmpIfZero => (i32 program (pc + 2)).1.toOption
  | _ => none

/-- A program made of whole instructions whose jumps aim at instruction starts. -/
structure LinearlyDecodes (program : List Byte) : Prop where
  whole : ∀ pc, Start program pc → pc < program.length →
    ∃ n, instrSize program pc = some n ∧ pc + n ≤ program.length
  jumps : ∀ pc n offset, Start program pc → instrSize program pc = some n →
    jumpOffsetAt program pc = some offset →
      ∃ target, Start program target ∧ (target : ℤ) = pc + n + offset.toInt

/-- Register numbers stand in the `n` bytes from `pc`. -/
def RegsAt (program : List Byte) (pc n : ℕ) : Prop :=
  ∀ k < n, ∀ b, program[pc + k]? = some b → b.toNat < regCount

/-- The list of operands at `pc`, if one stands there, is taken whole: a `CALL_BIF` has at most
eight arguments and all of them are registers; a `MAKE_TUPLE` has no element, or a register as
its destination, at most sixteen elements, and registers as all of them but the last. -/
def OperandsFit (program : List Byte) (pc : ℕ) : Prop :=
  match (program[pc]?).bind Opcode.ofCode? with
  | some .callBif => ∀ argc, program[pc + 2]? = some argc →
      argc.toNat ≤ 8 ∧ RegsAt program (pc + 3) argc.toNat
  | some .makeTuple => ∀ dst arity, program[pc + 1]? = some dst → program[pc + 2]? = some arity →
      arity.toNat ≠ 0 → dst.toNat < regCount ∧ arity.toNat ≤ maxTupleArity ∧
        RegsAt program (pc + 3) (arity.toNat - 1)
  | _ => True

/-! ### Where a decoder stops -/

section Decoders

variable {program : List Byte}

/-- A decoder that reads `n` bytes if they are there. -/
def Decoder.Reads {α : Type} (program : List Byte) (d : Decoder α) (n : ℕ) : Prop :=
  ∀ pc, pc + n ≤ program.length → ∃ a, d pc = (.ok a, pc + n)

/-- A decoder that takes `n` bytes if they are there, whether it stops or not. -/
def Decoder.Takes {α : Type} (program : List Byte) (d : Decoder α) (n : ℕ) : Prop :=
  ∀ pc, pc + n ≤ program.length → (d pc).2 = pc + n

namespace Decoder

theorem bind_read {α β : Type} {d : Decoder α} {k : α → Decoder β} {pc pc' : ℕ} {a : α}
    (h : d pc = (.ok a, pc')) : (d >>= k) pc = k a pc' := by
  rw [bind_apply, h]

theorem bind_stop {α β : Type} {d : Decoder α} {k : α → Decoder β} {pc pc' : ℕ} {e : Status}
    (h : d pc = (.error e, pc')) : (d >>= k) pc = (.error e, pc') := by
  rw [bind_apply, h]

theorem toReg_valid {b : Byte} (h : b.toNat < regCount) (pc : ℕ) :
    toReg b pc = (.ok ⟨b.toNat, h⟩, pc) := by
  rw [toReg_apply, dif_pos h]

theorem toReg_invalid {b : Byte} (h : ¬ b.toNat < regCount) (pc : ℕ) :
    toReg b pc = (.error .badReg, pc) := by
  rw [toReg_apply, dif_neg h]

theorem reads_u8 : Reads program (u8 program) 1 := by
  intro pc hlen
  exact ⟨_, u8_some (List.getElem?_eq_getElem (by omega))⟩

theorem Reads.bind {α β : Type} {d : Decoder α} {k : α → Decoder β} {n m : ℕ}
    (hd : Reads program d n) (hk : ∀ a, Reads program (k a) m) :
    Reads program (d >>= k) (n + m) := by
  intro pc hlen
  obtain ⟨a, ha⟩ := hd pc (by omega)
  obtain ⟨b, hb⟩ := hk a (pc + n) (by omega)
  refine ⟨b, ?_⟩
  rw [bind_read ha, ← Nat.add_assoc]
  exact hb

theorem reads_pure {α : Type} (a : α) : Reads program (pure a) 0 := fun _ _ => ⟨a, rfl⟩

theorem reads_i32 : Reads program (i32 program) 4 :=
  reads_u8.bind fun _ => reads_u8.bind fun _ => reads_u8.bind fun _ => reads_u8.bind fun _ =>
    reads_pure _

theorem takes_pure {α : Type} (a : α) : Takes program (pure a) 0 := fun _ _ => rfl

theorem Takes.read {α β : Type} {d : Decoder α} {k : α → Decoder β} {n m : ℕ}
    (hd : Reads program d n) (hk : ∀ a, Takes program (k a) m) :
    Takes program (d >>= k) (n + m) := by
  intro pc hlen
  obtain ⟨a, ha⟩ := hd pc (by omega)
  rw [bind_read ha, ← Nat.add_assoc]
  exact hk a (pc + n) (by omega)

/-- A check of a register number takes no byte, and nothing is read after it. -/
theorem Takes.check {β : Type} {k : Reg → Decoder β} (b : Byte)
    (hk : ∀ r, Takes program (k r) 0) : Takes program (toReg b >>= k) 0 := by
  intro pc hlen
  by_cases hb : b.toNat < regCount
  · rw [bind_read (toReg_valid hb pc)]
    exact hk _ pc hlen
  · rw [bind_stop (toReg_invalid hb pc)]
    rfl

end Decoder

open Decoder

theorem takes_reg1 (mk : Reg → Instr) : Takes program (reg1 program mk) 1 :=
  .read reads_u8 fun _ => .check _ fun _ => takes_pure _

theorem takes_reg2 (mk : Reg → Reg → Instr) : Takes program (reg2 program mk) 2 :=
  .read reads_u8 fun _ => .read reads_u8 fun _ => .check _ fun _ => .check _ fun _ => takes_pure _

theorem takes_reg3 (mk : Reg → Reg → Reg → Instr) : Takes program (reg3 program mk) 3 :=
  .read reads_u8 fun _ => .read reads_u8 fun _ => .read reads_u8 fun _ => .check _ fun _ =>
    .check _ fun _ => .check _ fun _ => takes_pure _

/-- The operands of an instruction without a list are all fetched before one is checked. -/
theorem takes_operands {op : Opcode} (h : op.counted = false) :
    Takes program (operands program (some op)) op.operandCount := by
  cases op with
  | nop | yield | halt => exact takes_pure _
  | move | add | sub | cons => exact takes_reg3 _
  | head | tail => exact takes_reg2 _
  | self | sleepMs => exact takes_reg1 _
  | constI32 =>
      exact .read reads_u8 fun _ => .read reads_i32 fun _ => .check _ fun _ => takes_pure _
  | jmp => exact .read reads_i32 fun _ => takes_pure _
  | jmpIfZero =>
      exact .read reads_u8 fun _ => .read reads_i32 fun _ => .check _ fun _ => takes_pure _
  | tupleElem =>
      exact .read reads_u8 fun _ => .read reads_u8 fun _ => .read reads_u8 fun _ =>
        .check _ fun _ => .check _ fun _ => takes_pure _
  | recvCmd =>
      exact .read reads_u8 fun _ => .read reads_u8 fun _ => .read reads_u8 fun _ =>
        .read reads_u8 fun _ => .read reads_u8 fun _ => .check _ fun _ => .check _ fun _ =>
          .check _ fun _ => .check _ fun _ => .check _ fun _ => takes_pure _
  | send =>
      exact .read reads_u8 fun _ => .read reads_u8 fun _ => .read reads_u8 fun _ =>
        .read reads_u8 fun _ => .read reads_u8 fun _ => .read reads_u8 fun _ =>
          .check _ fun _ => .check _ fun _ => .check _ fun _ => .check _ fun _ =>
            .check _ fun _ => .check _ fun _ => takes_pure _
  | callBif | makeTuple => cases h

/-! ### The lists of operands -/

theorem regsAt_succ {pc n : ℕ} : RegsAt program pc (n + 1) ↔
    (∀ b, program[pc]? = some b → b.toNat < regCount) ∧ RegsAt program (pc + 1) n := by
  constructor
  · intro h
    refine ⟨h 0 (Nat.succ_pos n), fun k hk b hb => ?_⟩
    exact h (k + 1) (by omega) b (by rw [← hb]; congr 1; omega)
  · intro ⟨hfirst, hrest⟩ k hk b hb
    cases k with
    | zero => exact hfirst b hb
    | succ k => exact hrest k (by omega) b (by rw [← hb]; congr 1; omega)

theorem RegsAt.mono {pc n m : ℕ} (h : RegsAt program pc n) (hle : m ≤ n) : RegsAt program pc m :=
  fun k hk => h k (Nat.lt_of_lt_of_le hk hle)

/-- A list of registers is taken whole, or up to the first byte that is none. -/
theorem regList_cases (pc n : ℕ) (hlen : pc + n ≤ program.length) :
    (RegsAt program pc n ∧ ∃ rs, regList program n pc = (.ok rs, pc + n)) ∨
    ∃ k < n, RegsAt program pc k ∧ ¬ RegsAt program pc (k + 1) ∧
      regList program n pc = (.error .badReg, pc + k + 1) := by
  induction n generalizing pc with
  | zero => exact .inl ⟨fun k hk => absurd hk (Nat.not_lt_zero k), [], rfl⟩
  | succ n ih =>
      obtain ⟨b, hb⟩ : ∃ b, program[pc]? = some b :=
        ⟨_, List.getElem?_eq_getElem (by omega)⟩
      have hfirst : (∀ c, program[pc]? = some c → c.toNat < regCount) ↔ b.toNat < regCount := by
        simp [hb]
      simp only [regList]
      rw [bind_read (u8_some hb)]
      by_cases hreg : b.toNat < regCount
      · rw [bind_read (toReg_valid hreg _)]
        rcases ih (pc + 1) (by omega) with ⟨hregs, rs, hrs⟩ | ⟨k, hk, hgood, hbad, hrs⟩
        · refine .inl ⟨regsAt_succ.mpr ⟨hfirst.mpr hreg, hregs⟩, ⟨b.toNat, hreg⟩ :: rs, ?_⟩
          rw [bind_read hrs, Nat.add_right_comm]
          rfl
        · refine .inr ⟨k + 1, by omega, regsAt_succ.mpr ⟨hfirst.mpr hreg, hgood⟩,
            fun h => hbad (regsAt_succ.mp h).2, ?_⟩
          rw [bind_stop hrs]
          congr 1
          omega
      · rw [bind_stop (toReg_invalid hreg _)]
        refine .inr ⟨0, Nat.succ_pos n, fun k hk => absurd hk (Nat.not_lt_zero k), fun h => ?_, rfl⟩
        exact hreg (hfirst.mp (regsAt_succ.mp h).1)

section Lists

variable {pc : ℕ} {first count : Byte} (hfirst : program[pc + 1]? = some first)
  (hcount : program[pc + 2]? = some count)
include hfirst hcount

theorem callBif_whole (hlen : pc + (4 + count.toNat) ≤ program.length) :
    ((count.toNat ≤ 8 ∧ RegsAt program (pc + 3) count.toNat) ∧
      (operands program (some .callBif) (pc + 1)).2 = pc + (4 + count.toNat)) ∨
    (¬ (count.toNat ≤ 8 ∧ RegsAt program (pc + 3) count.toNat) ∧
      ∃ e pc', operands program (some .callBif) (pc + 1) = (.error e, pc') ∧
        pc < pc' ∧ pc' < pc + (4 + count.toNat)) := by
  simp only [operands]
  rw [bind_read (u8_some hfirst), bind_read (u8_some hcount)]
  have hregion : pc + 3 + count.toNat ≤ program.length := by omega
  have hlast : pc + 3 + count.toNat + 1 ≤ program.length := by omega
  by_cases hargc : count.toNat ≤ 8
  · rw [if_pos hargc]
    rcases regList_cases (pc + 3) count.toNat hregion with
      ⟨hregs, rs, hrs⟩ | ⟨k, hk, -, hbad, hrs⟩
    · obtain ⟨dst, hdst⟩ := reads_u8 (pc + 3 + count.toNat) hlast
      refine .inl ⟨⟨hargc, hregs⟩, ?_⟩
      rw [bind_read hrs, bind_read hdst, pure_apply]
      omega
    · refine .inr ⟨fun h => hbad (h.2.mono hk), .badReg, pc + 3 + k + 1, ?_, by omega, by omega⟩
      rw [bind_stop hrs]
  · rw [if_neg hargc]
    exact .inr ⟨fun h => hargc h.1, .badArgc, pc + 3, rfl, by omega, by omega⟩

theorem makeTuple_whole (hlen : pc + (3 + count.toNat) ≤ program.length) :
    ((count.toNat ≠ 0 → first.toNat < regCount ∧ count.toNat ≤ maxTupleArity ∧
        RegsAt program (pc + 3) (count.toNat - 1)) ∧
      (operands program (some .makeTuple) (pc + 1)).2 = pc + (3 + count.toNat)) ∨
    (¬ (count.toNat ≠ 0 → first.toNat < regCount ∧ count.toNat ≤ maxTupleArity ∧
        RegsAt program (pc + 3) (count.toNat - 1)) ∧
      ∃ e pc', operands program (some .makeTuple) (pc + 1) = (.error e, pc') ∧
        pc < pc' ∧ pc' < pc + (3 + count.toNat)) := by
  simp only [operands]
  rw [bind_read (u8_some hfirst), bind_read (u8_some hcount)]
  have hregion : pc + 3 + count.toNat ≤ program.length := by omega
  by_cases harity : count.toNat ≤ maxTupleArity
  · rw [if_pos harity]
    by_cases hdst : first.toNat < regCount
    · rw [bind_read (toReg_valid hdst _)]
      rcases regList_cases (pc + 3) count.toNat hregion with
        ⟨hregs, rs, hrs⟩ | ⟨k, hk, hgood, hbad, hrs⟩
      · refine .inl ⟨fun _ => ⟨hdst, harity, hregs.mono (Nat.sub_le _ _)⟩, ?_⟩
        rw [bind_read hrs, pure_apply]
        omega
      · rw [bind_stop hrs]
        by_cases hlast : k + 1 = count.toNat
        -- the bad register is the last element, and nothing is left to take
        · refine .inl ⟨fun _ => ⟨hdst, harity, ?_⟩, ?_⟩
          · rwa [← hlast, Nat.add_sub_cancel]
          · dsimp only
            omega
        · refine .inr ⟨fun h => ?_, .badReg, pc + 3 + k + 1, rfl, by omega, by omega⟩
          exact hbad ((h (by omega)).2.2.mono (by omega))
    · rw [bind_stop (toReg_invalid hdst _)]
      by_cases hzero : count.toNat = 0
      · exact .inl ⟨fun h => absurd hzero h, by dsimp only; omega⟩
      · exact .inr ⟨fun h => hdst (h hzero).1, .badReg, pc + 3, rfl, by omega, by omega⟩
  · rw [if_neg harity]
    exact .inr ⟨fun h => harity (h (by omega)).2.1, .badArity, pc + 3, rfl, by omega, by omega⟩

end Lists

/-- The decoding of an instruction that stands whole in the program ends behind it, or it stops
inside it: the latter where its list of operands does not fit. -/
theorem decode_whole {pc n : ℕ} (hsize : instrSize program pc = some n)
    (hlen : pc + n ≤ program.length) :
    (OperandsFit program pc ∧ (decode program pc).2 = pc + n) ∨
    (¬ OperandsFit program pc ∧ ∃ e pc', decode program pc = (.error e, pc') ∧
      pc < pc' ∧ pc' < pc + n) := by
  obtain ⟨b, hb, hsize⟩ := Option.bind_eq_some_iff.mp hsize
  obtain ⟨op, hop, hsize⟩ := Option.bind_eq_some_iff.mp hsize
  have hdecode : decode program pc = operands program (some op) (pc + 1) := by
    rw [decode, bind_read (u8_some hb), hop]
  have hat : (program[pc]?).bind Opcode.ofCode? = some op := by
    rw [hb]
    exact hop
  by_cases hcounted : op.counted = true
  · rw [if_pos hcounted] at hsize
    obtain ⟨count, hcount, hsize⟩ := Option.bind_eq_some_iff.mp hsize
    cases hsize
    obtain ⟨hlt, -⟩ := List.getElem?_eq_some_iff.mp hcount
    obtain ⟨first, hfirst⟩ : ∃ first, program[pc + 1]? = some first :=
      ⟨_, List.getElem?_eq_getElem (by omega)⟩
    cases op with
    | callBif =>
        have hfit : OperandsFit program pc ↔
            count.toNat ≤ 8 ∧ RegsAt program (pc + 3) count.toNat := by
          simp only [OperandsFit, hat, hcount, Option.some.injEq, forall_eq']
        rw [hfit, hdecode]
        exact callBif_whole hfirst hcount hlen
    | makeTuple =>
        have hfit : OperandsFit program pc ↔ (count.toNat ≠ 0 → first.toNat < regCount ∧
            count.toNat ≤ maxTupleArity ∧ RegsAt program (pc + 3) (count.toNat - 1)) := by
          simp only [OperandsFit, hat, hfirst, hcount, Option.some.injEq]
          exact ⟨fun h => h first count rfl rfl, fun h _ _ hd hc => hd ▸ hc ▸ h⟩
        rw [hfit, hdecode]
        exact makeTuple_whole hfirst hcount hlen
    | _ => cases hcounted
  · rw [if_neg hcounted] at hsize
    cases hsize
    have hcounted : op.counted = false := Bool.not_eq_true _ ▸ hcounted
    refine .inl ⟨?_, ?_⟩
    · rw [OperandsFit, hat]
      cases op <;> trivial
    · rw [hdecode, takes_operands hcounted (pc + 1) (by omega)]
      omega

/-! ### Instruction starts -/

theorem instrSize_pos {pc n : ℕ} (h : instrSize program pc = some n) :
    pc < program.length ∧ 0 < n := by
  obtain ⟨b, hb, h⟩ := Option.bind_eq_some_iff.mp h
  obtain ⟨op, -, h⟩ := Option.bind_eq_some_iff.mp h
  obtain ⟨hlt, -⟩ := List.getElem?_eq_some_iff.mp hb
  refine ⟨hlt, ?_⟩
  split at h
  · obtain ⟨count, -, h⟩ := Option.bind_eq_some_iff.mp h
    cases h
    omega
  · cases h
    omega

/-- The instructions of the linear decoding do not overlap. -/
theorem Start.add_size_le {pc pc' n : ℕ} (h : Start program pc)
    (hsize : instrSize program pc = some n) (h' : Start program pc') (hlt : pc < pc') :
    pc + n ≤ pc' := by
  induction pc' using Nat.strong_induction_on generalizing pc n with
  | _ pc' ih =>
      cases h' with
      | zero => exact absurd hlt (Nat.not_lt_zero pc)
      | @next last size hlast hlastSize =>
          obtain ⟨-, hpos⟩ := instrSize_pos hlastSize
          rcases Nat.lt_trichotomy pc last with hbefore | rfl | hinside
          · have hle := ih last (by omega) h hsize hlast hbefore
            omega
          · rw [hsize] at hlastSize
            cases hlastSize
            exact Nat.le_refl _
          · have hle := ih pc (by omega) hlast hlastSize h hinside
            omega

/-- A jump that is decoded is the jump that stands there. -/
theorem jumpOffsetAt_of_decode {p : Process} {pc next : ℕ} {i : Instr} {offset : I32}
    (hd : decode program pc = (.ok i, next)) (hjump : i.jumpOffset p = some offset) :
    jumpOffsetAt program pc = some offset := by
  obtain ⟨b, hb, hop, hrest⟩ := decode_opcode hd
  have hat : (program[pc]?).bind Opcode.ofCode? = some i.opcode := by
    rw [hb]
    exact hop
  rw [jumpOffsetAt, hat]
  cases i with
  | jmp o =>
      cases hjump
      obtain ⟨o', pc₁, ho, hpure⟩ := Decoder.bind_ok hrest
      cases hpure
      simp only [Instr.opcode, ho, Except.toOption]
  | jmpIfZero r o =>
      simp only [Instr.jumpOffset] at hjump
      split at hjump
      · cases hjump
        obtain ⟨reg, pc₁, hreg, hrest⟩ := Decoder.bind_ok hrest
        obtain ⟨-, rfl⟩ := Decoder.u8_ok hreg
        obtain ⟨o', pc₂, ho, hrest⟩ := Decoder.bind_ok hrest
        obtain ⟨r', pc₃, -, hpure⟩ := Decoder.bind_ok hrest
        cases hpure
        simp only [Instr.opcode, ho, Except.toOption]
      · cases hjump
  | _ => cases hjump

/-- A jump leaves the pc where it is or at its target. -/
theorem jumpTo_pc (p : Process) (offset : I32) : (jumpTo p offset).2.pc = p.pc ∨
    (jumpTo p offset).2.pc = ((p.pc : ℤ) + offset.toInt).toNat := by
  unfold jumpTo
  split
  · exact .inl rfl
  · exact .inr rfl

end Decoders

section Step

variable {hal : Hal} {m m' : Machine} {rc : Status}

/-- From an instruction start whose operands fit, a step leads to an instruction start. -/
theorem mbProcStep_start (hp : LinearlyDecodes m.proc.program)
    (hstart : Start m.proc.program m.proc.pc) (hfit : OperandsFit m.proc.program m.proc.pc)
    (h : mbProcStep hal m = .ok (rc, m')) : Start m'.proc.program m'.proc.pc := by
  have hend : Start m.proc.program (decode m.proc.program m.proc.pc).2 := by
    by_cases hlt : m.proc.pc < m.proc.program.length
    · obtain ⟨n, hsize, hlen⟩ := hp.whole _ hstart hlt
      rcases decode_whole hsize hlen with ⟨-, hnext⟩ | ⟨hunfit, -⟩
      · rw [hnext]
        exact hstart.next hsize
      · exact absurd hfit hunfit
    · have hstop : u8 m.proc.program m.proc.pc = (.error .eof, m.proc.pc) := by
        rw [Decoder.u8_apply, List.getElem?_eq_none (Nat.not_lt.mp hlt)]
      rw [decode, Decoder.bind_stop hstop]
      exact hstart
  cases mbProcStep_advance h with
  | stopped _ same => exact same ▸ hstart
  | refused e pc _ hd _ hprogram hmoved =>
      rw [hd] at hend
      rw [hprogram, hmoved]
      exact hend
  | ran i next _ hd hproceeds =>
      rw [hd] at hend
      cases hproceeds with
      | next hprogram hpc =>
          rw [hprogram, hpc]
          exact hend
      | again hprogram hpc =>
          rw [hprogram, hpc]
          exact hstart
      | jump offset htaken _ hprogram hpc =>
          rw [hprogram, hpc]
          rcases jumpTo_pc (m.proc.setPc next) offset with hstay | hgo
          · rw [hstay]
            exact hend
          · rw [hgo]
            obtain ⟨b, hb, -⟩ := decode_opcode hd
            obtain ⟨hlt, -⟩ := List.getElem?_eq_some_iff.mp hb
            obtain ⟨n, hsize, hlen⟩ := hp.whole _ hstart hlt
            have hnext : next = m.proc.pc + n := by
              rcases decode_whole hsize hlen with ⟨-, hnext⟩ | ⟨hunfit, -⟩
              · rw [← hnext, hd]
              · exact absurd hfit hunfit
            obtain ⟨target, htarget, heq⟩ :=
              hp.jumps _ n offset hstart hsize (jumpOffsetAt_of_decode hd htaken)
            have hpc' : ((m.proc.setPc next).pc + offset.toInt).toNat = target := by
              simp only [Process.setPc_pc]
              omega
            rw [hpc']
            exact htarget

/-- From an instruction start whose operands do not fit, a step leads into the instruction. -/
theorem mbProcStep_inside (hp : LinearlyDecodes m.proc.program)
    (hstart : Start m.proc.program m.proc.pc) (hfit : ¬ OperandsFit m.proc.program m.proc.pc)
    (hh : m.proc.halted = false) (h : mbProcStep hal m = .ok (rc, m')) :
    ¬ Start m'.proc.program m'.proc.pc := by
  have hlt : m.proc.pc < m.proc.program.length := by
    apply Nat.lt_of_not_le
    intro hle
    apply hfit
    rw [OperandsFit, List.getElem?_eq_none hle]
    trivial
  obtain ⟨n, hsize, hlen⟩ := hp.whole _ hstart hlt
  rcases decode_whole hsize hlen with ⟨hfit', -⟩ | ⟨-, e, pc', hd, hgt, hbelow⟩
  · exact absurd hfit' hfit
  · cases mbProcStep_advance h with
    | stopped hhalted _ => exact absurd (hh.symm.trans hhalted) (by decide)
    | ran i next _ hd' _ =>
        rw [hd] at hd'
        cases hd'
    | refused e' pc'' _ hd' _ hprogram hmoved =>
        rw [hd] at hd'
        cases hd'
        rw [hprogram, hmoved]
        intro hinside
        have hle := hstart.add_size_le hsize hinside hgt
        omega

end Step

end MiniBeam
