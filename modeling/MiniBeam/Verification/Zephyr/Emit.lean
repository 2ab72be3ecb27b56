import MiniBeam.Model.Zephyr
import MiniBeam.Verification.Flow.Code
import MiniBeam.Verification.Step.Codec
import MiniBeam.Verification.Step.Control
import Mathlib.Algebra.GroupWithZero.Nat

/-! What the builder of the Zephyr application writes: rules for emission and back-patching,
the code of the cyclic program, and the jumps that were patched. -/

namespace MiniBeam

theorem regCount_neZero : NeZero regCount := ⟨by decide⟩

attribute [local instance] regCount_neZero

/-! ### The bytes written so far -/

/-- The first bytes of the buffer. -/
structure DemoProgram.Holds (v : DemoProgram) (bytes : List Byte) : Prop where
  fits : bytes.length ≤ 128
  same : ∀ i < bytes.length, v.toList[i]? = bytes[i]?

/-- Emitting code that finds `bytes` in the buffer returns `a` and leaves `bytes'`. -/
def Emits {α : Type} (bytes : List Byte) (x : Emit α) (a : α) (bytes' : List Byte) : Prop :=
  ∀ v : DemoProgram, v.Holds bytes → ∃ v', x v = .ok (a, v') ∧ v'.Holds bytes'

section Rules

variable {α β : Type} {bytes bytes' bytes'' : List Byte}

theorem DemoProgram.Holds.take {v : DemoProgram} (h : v.Holds bytes) :
    v.toList.take bytes.length = bytes := by
  apply List.ext_getElem?
  intro i
  rw [List.getElem?_take]
  split
  · rename_i hi
    exact h.same i hi
  · rename_i hi
    exact (List.getElem?_eq_none (Nat.le_of_not_lt hi)).symm

theorem emits_pure {a a' : α} (ha : a = a') (hbytes : bytes = bytes') :
    Emits bytes (pure a) a' bytes' := by
  subst ha hbytes
  exact fun v h => ⟨v, rfl, h⟩

theorem Emits.bind {x : Emit α} {k : α → Emit β} {a : α} {b : β} (hx : Emits bytes x a bytes')
    (hk : Emits bytes' (k a) b bytes'') : Emits bytes (x >>= k) b bytes'' := by
  intro v hv
  obtain ⟨v', hrun, hv'⟩ := hx v hv
  obtain ⟨v'', hrest, hv''⟩ := hk v' hv'
  refine ⟨v'', ?_, hv''⟩
  show (x v >>= fun p => k p.1 p.2) = _
  rw [hrun]
  exact hrest

/-- A byte behind the others. -/
theorem emits_u8 (value : Byte) (hroom : bytes.length < 128) :
    Emits bytes (os2EmitU8 bytes.length value) (bytes.length + 1) (bytes ++ [value]) := by
  intro v hv
  refine ⟨v.set bytes.length value hroom, ?_, by simp; omega, fun i hi => ?_⟩
  · show (setByte bytes.length value v >>= _) = _
    rw [setByte, dif_pos hroom]
    rfl
  · rw [List.length_append, List.length_singleton] at hi
    rw [Vector.toList_set, List.getElem?_set]
    by_cases he : bytes.length = i
    · subst he
      simp [hroom]
    · rw [if_neg he, List.getElem?_append_left (by omega)]
      exact hv.same i (by omega)

theorem emits_bytes (values : List Byte) (hroom : bytes.length + values.length ≤ 128) :
    Emits bytes (os2EmitBytes bytes.length values) (bytes.length + values.length)
      (bytes ++ values) := by
  induction values generalizing bytes with
  | nil =>
      rw [List.append_nil]
      exact emits_pure rfl rfl
  | cons value values ih =>
      rw [List.length_cons] at hroom ⊢
      have hlen : (bytes ++ [value]).length = bytes.length + 1 := by simp
      have hrest := @ih (bytes ++ [value]) (by omega)
      rw [hlen, List.append_assoc, List.singleton_append] at hrest
      rw [Nat.add_comm values.length, ← Nat.add_assoc]
      exact (emits_u8 value (by omega)).bind hrest

theorem os2EmitI32_eq (pc : ℕ) (value : I32) :
    os2EmitI32 pc value = os2EmitBytes pc (i32Le value) := by
  simp [os2EmitI32, os2EmitBytes, i32Le, List.foldlM]

theorem emits_i32 (value : I32) (hroom : bytes.length + 4 ≤ 128) :
    Emits bytes (os2EmitI32 bytes.length value) (bytes.length + 4) (bytes ++ i32Le value) := by
  rw [os2EmitI32_eq]
  exact emits_bytes (i32Le value) hroom

/-- A write over a byte that is already there. -/
theorem emits_set (i : ℕ) (value : Byte) (hi : i < bytes.length) :
    Emits bytes (setByte i value) ⟨⟩ (bytes.set i value) := by
  intro v hv
  have hroom : i < 128 := Nat.lt_of_lt_of_le hi hv.fits
  refine ⟨v.set i value hroom, ?_, by simpa using hv.fits, fun j hj => ?_⟩
  · rw [setByte, dif_pos hroom]
  · rw [List.length_set] at hj
    rw [Vector.toList_set, List.getElem?_set, List.getElem?_set]
    by_cases he : i = j
    · subst he
      simp [hroom, hi]
    · rw [if_neg he, if_neg he]
      exact hv.same j hj

/-- Four writes in a row. -/
theorem set_row (bytes : List Byte) (pos : ℕ) (a b c d : Byte) (hpos : pos + 4 ≤ bytes.length) :
    (((bytes.set (pos + 0) a).set (pos + 1) b).set (pos + 2) c).set (pos + 3) d =
      bytes.take pos ++ [a, b, c, d] ++ bytes.drop (pos + 4) := by
  have hlen : (bytes.take pos).length = pos := by simp; omega
  obtain ⟨w, x, y, z, post, hdrop⟩ : ∃ w x y z post, bytes.drop pos = w :: x :: y :: z :: post := by
    have hfour : 4 ≤ (bytes.drop pos).length := by simp; omega
    match hd : bytes.drop pos, hfour with
    | w :: x :: y :: z :: post, _ => exact ⟨w, x, y, z, post, rfl⟩
  have hsplit : bytes = bytes.take pos ++ w :: x :: y :: z :: post := by
    rw [← hdrop, List.take_append_drop]
  have hrest : bytes.drop (pos + 4) = post := by
    rw [← List.drop_drop, hdrop]
    rfl
  rw [hrest]
  conv => lhs; rw [hsplit]
  generalize bytes.take pos = pre at hlen
  subst hlen
  simp

/-- `os2_patch_rel_i32` writes the distance from behind the operand over the operand. -/
def patched (bytes : List Byte) (pos target : ℕ) : List Byte :=
  bytes.take pos ++ i32Le (BitVec.ofNat 32 target - BitVec.ofNat 32 (pos + 4)) ++
    bytes.drop (pos + 4)

theorem emits_patch (pos target : ℕ) (hpos : pos + 4 ≤ bytes.length) :
    Emits bytes (os2PatchRelI32 pos target) ⟨⟩ (patched bytes pos target) := by
  rw [patched, i32Le, ← set_row bytes pos _ _ _ _ hpos]
  refine (emits_set _ _ ?_).bind ((emits_set _ _ ?_).bind ((emits_set _ _ ?_).bind
    (emits_set _ _ ?_)))
  · omega
  all_goals
    simp only [List.length_set]
    omega

variable {n : ℕ} {b : β}

theorem emits_bytes_then {k : ℕ → Emit β} {values : List Byte} (hn : bytes.length = n)
    (hroom : n + values.length ≤ 128)
    (hk : (bytes ++ values).length = n + values.length →
      Emits (bytes ++ values) (k (n + values.length)) b bytes'') :
    Emits bytes (os2EmitBytes n values >>= k) b bytes'' := by
  subst hn
  exact (emits_bytes values hroom).bind (hk List.length_append)

theorem emits_i32_then {k : ℕ → Emit β} {value : I32} (hn : bytes.length = n)
    (hroom : n + 4 ≤ 128)
    (hk : (bytes ++ i32Le value).length = n + 4 →
      Emits (bytes ++ i32Le value) (k (n + 4)) b bytes'') :
    Emits bytes (os2EmitI32 n value >>= k) b bytes'' := by
  subst hn
  exact (emits_i32 value hroom).bind (hk List.length_append)

theorem patched_length {pos target : ℕ} (hpos : pos + 4 ≤ bytes.length) :
    (patched bytes pos target).length = bytes.length := by
  simp [patched, i32Le]
  omega

theorem emits_patch_then {k : PUnit → Emit β} {pos target : ℕ} (hn : bytes.length = n)
    (hpos : pos + 4 ≤ n)
    (hk : (patched bytes pos target).length = n →
      Emits (patched bytes pos target) (k ⟨⟩) b bytes'') :
    Emits bytes (os2PatchRelI32 pos target >>= k) b bytes'' := by
  subst hn
  exact (emits_patch pos target hpos).bind (hk (patched_length hpos))

end Rules

/-! ### Patched jumps -/

section Patched

variable {bytes : List Byte} {pos target : ℕ}

theorem low_byte (v : I32) : (v &&& 0xff).setWidth 8 = v.setWidth 8 := by
  have hmask : BitVec.setWidth 8 (0xff : I32) = BitVec.allOnes 8 := by decide
  rw [BitVec.setWidth_and, hmask, BitVec.and_allOnes]

/-- The bits that an arithmetic shift fills in are above the byte. -/
theorem shifted_byte (v : I32) {n : ℕ} (hn : n ≤ 24) :
    (v.sshiftRight n).setWidth 8 = (v >>> n).setWidth 8 := by
  refine BitVec.eq_of_getLsbD_eq fun i hi => ?_
  have hin : n + i < 32 := by omega
  have hout : ¬ 32 ≤ i := by omega
  simp only [BitVec.getLsbD_setWidth, BitVec.getLsbD_sshiftRight, BitVec.getLsbD_ushiftRight, hin,
    hout, if_true, decide_false, Bool.not_false, Bool.true_and]

theorem i32Le_eq (v : I32) : i32Le v = wordBytes v := by
  simp only [i32Le, wordBytes, low_byte, shifted_byte v (show 8 ≤ 24 by decide),
    shifted_byte v (show 16 ≤ 24 by decide), shifted_byte v (le_refl 24)]

theorem wordBytes_inj {v w : I32} (h : wordBytes v = wordBytes w) : v = w := by
  simp only [wordBytes, List.cons.injEq, and_true] at h
  obtain ⟨h₀, h₁, h₂, h₃⟩ := h
  rw [← word_of_bytes v, h₀, h₁, h₂, h₃, word_of_bytes]

/-- What stands at an address is unique. -/
theorem BytesAt.unique {program xs ys : List Byte} {pc : ℕ} (hx : BytesAt program pc xs)
    (hy : BytesAt program pc ys) (hlen : xs.length = ys.length) : xs = ys := by
  rw [List.prefix_iff_eq_take.mp hx, List.prefix_iff_eq_take.mp hy, hlen]

theorem patched_operand (hpos : pos + 4 ≤ bytes.length) :
    BytesAt (patched bytes pos target) pos
      (wordBytes (BitVec.ofNat 32 target - BitVec.ofNat 32 (pos + 4))) := by
  have hlen : (bytes.take pos).length = pos := by simp; omega
  have h := bytesAt_middle (bytes.take pos)
    (i32Le (BitVec.ofNat 32 target - BitVec.ofNat 32 (pos + 4))) (bytes.drop (pos + 4))
  rwa [hlen, ← List.append_assoc, ← patched, i32Le_eq] at h

theorem bytesAt_iff {program xs : List Byte} {pc : ℕ} :
    BytesAt program pc xs ↔ ∀ j < xs.length, program[pc + j]? = xs[j]? := by
  induction xs generalizing pc with
  | nil => simp
  | cons x xs ih =>
      rw [bytesAt_cons, ih, List.length_cons]
      constructor
      · rintro ⟨hx, hxs⟩ j hj
        cases j with
        | zero => exact hx
        | succ j =>
            rw [List.getElem?_cons_succ, ← hxs j (by omega), Nat.add_right_comm, Nat.add_assoc]
      · intro h
        refine ⟨h 0 (by omega), fun j hj => ?_⟩
        rw [Nat.add_assoc, Nat.add_comm 1, h (j + 1) (by omega), List.getElem?_cons_succ]

theorem patched_other {j : ℕ} (hpos : pos + 4 ≤ bytes.length) (hj : j < pos ∨ pos + 4 ≤ j) :
    (patched bytes pos target)[j]? = bytes[j]? := by
  have hword : ∀ v : I32, (i32Le v).length = 4 := fun _ => rfl
  rw [patched, List.append_assoc]
  rcases hj with hlt | hge
  · rw [List.getElem?_append_left (by simp; omega), List.getElem?_take, if_pos hlt]
  · rw [List.getElem?_append_right (by simp; omega), List.getElem?_append_right (by
      rw [hword, List.length_take]; omega), hword, List.getElem?_drop, List.length_take,
      Nat.min_eq_left (by omega)]
    congr 1
    omega

/-- A patch leaves what stands before and behind its operand alone. -/
theorem patched_frame {pc : ℕ} {xs : List Byte} (hpos : pos + 4 ≤ bytes.length)
    (hout : pc + xs.length ≤ pos ∨ pos + 4 ≤ pc) :
    BytesAt (patched bytes pos target) pc xs ↔ BytesAt bytes pc xs := by
  rw [bytesAt_iff, bytesAt_iff]
  refine forall₂_congr fun j hj => ?_
  rw [patched_other hpos (by omega)]

/-- The distance that a patch writes leads from behind the operand to the target. -/
theorem patched_distance (hpos : pos + 4 ≤ 128) (htarget : target ≤ 128) :
    (BitVec.ofNat 32 target - BitVec.ofNat 32 (pos + 4) : I32).toInt = target - (pos + 4 : ℕ) := by
  have hint : ∀ n ≤ 128, (BitVec.ofNat 32 n).toInt = n := fun n hn => by
    rw [BitVec.toInt_eq_toNat_of_lt (by rw [BitVec.toNat_ofNat]; omega), BitVec.toNat_ofNat,
      Nat.mod_eq_of_lt (by omega)]
  rw [BitVec.toInt_sub, hint target htarget, hint (pos + 4) hpos]
  exact Int.bmod_eq_of_le (by omega) (by omega)

/-- The operand of a jump is its last four bytes. -/
theorem jump_operand {program : List Byte} {p : Process} {pc : ℕ} {i : Instr} {offset : I32}
    (hbytes : BytesAt program pc i.encode) (hend : pos + 4 = pc + i.encode.length)
    (hjump : i.jumpOffset p = some offset) : BytesAt program pos (wordBytes offset) := by
  have hword : ∀ v : I32, (wordBytes v).length = 4 := fun _ => rfl
  cases i with
  | jmp distance =>
      cases hjump
      rw [Instr.encode, List.length_cons, Instr.operandBytes, hword] at hend
      obtain rfl : pos = pc + 1 := by omega
      exact (bytesAt_cons.mp hbytes).2
  | jmpIfZero reg distance =>
      simp only [Instr.jumpOffset] at hjump
      split at hjump
      · cases hjump
        rw [Instr.encode, List.length_cons, Instr.operandBytes, List.length_cons, hword] at hend
        obtain rfl : pos = pc + 1 + 1 := by omega
        exact (bytesAt_cons.mp (bytesAt_cons.mp hbytes).2).2
      · cases hjump
  | _ => cases hjump

/-- A jump whose operand was patched goes to the target, wherever it stands and whatever else the
program holds. -/
theorem patched_jump (hal : Hal) {m : Machine} {i : Instr} {offset : I32}
    (hprogram : m.proc.program = patched bytes pos target) (hpos : pos + 4 ≤ bytes.length)
    (hsize : bytes.length ≤ 128) (htarget : target ≤ bytes.length) (hh : m.proc.halted = false)
    (hi : decode m.proc.program m.proc.pc = (.ok i, pos + 4))
    (hjump : i.jumpOffset m.proc = some offset) :
    mbProcStep hal m = .ok (.ok, m.setProc (m.proc.setPc target)) := by
  obtain ⟨-, hbytes, hend⟩ := (decode_iff _ _ _ _).mp hi
  have hoperand := jump_operand hbytes hend hjump
  rw [hprogram] at hoperand
  have hoffset := wordBytes_inj (hoperand.unique (patched_operand hpos) rfl)
  have hdistance : offset.toInt = target - (pos + 4 : ℕ) := by
    rw [hoffset, patched_distance (by omega) (by omega)]
  have hgoto : jumpTo (m.proc.setPc (pos + 4)) offset = (.ok, m.proc.setPc target) := by
    rw [jumpTo_eq (by omega), Process.setPc_pc, Process.setPc_program, hprogram,
      patched_length hpos, hdistance, if_neg (by omega), if_pos (by omega)]
    have hto : ((pos + 4 : ℕ) + ((target : ℤ) - (pos + 4 : ℕ))).toNat = target := by omega
    rw [hto]
    rfl
  have hsame : i.jumpOffset (m.proc.setPc (pos + 4)) = some offset := by
    rw [← hjump]
    cases i <;> rfl
  rw [mbProcStep_exec hal hh hi, execInstr_run hal _ (Instr.not_isSend_of_jump hjump),
    Machine.proc_setProc, Instr.run_jump hal _ _ _ hsame, hgoto]
  simp

/-- `os2_patch_rel_i32` turns the jump that ends with its operand towards the target, and changes
no other instruction. -/
theorem os2PatchRelI32_retargets (hal : Hal) {v : DemoProgram} (hv : v.Holds bytes)
    (hpos : pos + 4 ≤ bytes.length) (htarget : target ≤ bytes.length) :
    ∃ v' bytes', os2PatchRelI32 pos target v = .ok (⟨⟩, v') ∧ v'.Holds bytes' ∧
      bytes'.length = bytes.length ∧
      (∀ (m : Machine) i offset, m.proc.program = bytes' → m.proc.halted = false →
        decode bytes' m.proc.pc = (.ok i, pos + 4) → i.jumpOffset m.proc = some offset →
          mbProcStep hal m = .ok (.ok, m.setProc (m.proc.setPc target))) ∧
      ∀ pc i next, next ≤ pos ∨ pos + 4 ≤ pc →
        (decode bytes' pc = (.ok i, next) ↔ decode bytes pc = (.ok i, next)) := by
  obtain ⟨v', hrun, hv'⟩ := emits_patch pos target hpos v hv
  refine ⟨v', _, hrun, hv', patched_length hpos, ?_, ?_⟩
  · intro m i offset hprogram hh hi hjump
    exact patched_jump hal hprogram hpos hv.fits htarget hh (hprogram ▸ hi) hjump
  · intro pc i next hout
    rw [decode_iff, decode_iff]
    refine and_congr_right fun _ => and_congr_left fun hnext => ?_
    exact patched_frame hpos (hout.imp_left fun h => hnext ▸ h)

theorem os2PatchRelI32_retargets_loop : ∃ v : DemoProgram, v.Holds [0x30, 0, 0, 0, 0] ∧
    ∃ v' bytes', os2PatchRelI32 1 0 v = .ok (⟨⟩, v') ∧ v'.Holds bytes' ∧ bytes'.length = 5 ∧
      (∀ (m : Machine) i offset, m.proc.program = bytes' → m.proc.halted = false →
        decode bytes' m.proc.pc = (.ok i, 5) → i.jumpOffset m.proc = some offset →
          mbProcStep (fun _ _ => ⟨0, 0, 0⟩) m = .ok (.ok, m.setProc (m.proc.setPc 0))) ∧
      ∀ pc i next, next ≤ 1 ∨ 5 ≤ pc → (decode bytes' pc = (.ok i, next) ↔
        decode [0x30, 0, 0, 0, 0] pc = (.ok i, next)) := by
  have hv : DemoProgram.Holds ((Vector.replicate 128 0).set 0 0x30) [0x30, 0, 0, 0, 0] :=
    ⟨by decide, by decide⟩
  exact ⟨_, hv, os2PatchRelI32_retargets _ hv (by decide) (by decide)⟩

end Patched

/-! ### The cyclic program -/

/-- The code that `os2_build_cyclic_program` writes: the loop starts at its fourth instruction,
the PWM path at the sixteenth, and the sleep path at the last but one. -/
def cyclicCode : List Instr :=
  [.constI32 6 20, .constI32 10 0, .constI32 14 2,
    .recvCmd 0 1 2 3 4, .jmpIfZero 0 83, .sub 15 0 14, .jmpIfZero 15 36,
    .callBif 3 [1, 2, 3] 7, .callBif 4 [] 8,
    .move 11 1 0, .move 12 2 0, .move 13 3 0, .move 9 4 0, .move 10 0 0, .jmp (-58),
    .callBif 2 [1, 2] 7, .callBif 4 [] 8,
    .move 11 1 0, .move 12 2 0, .constI32 13 0, .move 9 3 0, .move 10 0 0, .jmp (-95),
    .sleepMs 6, .jmp (-102)]

theorem cyclic_emits : Emits [] os2BuildCyclicProgram 120 (assemble cyclicCode) := by
  have h : ([] : List Byte).length = 0 := rfl
  unfold os2BuildCyclicProgram
  repeat
    first
      | with_reducible refine emits_bytes_then h ?_ fun h => ?_
      | with_reducible refine emits_i32_then h ?_ fun h => ?_
      | with_reducible refine emits_patch_then h ?_ fun h => ?_
    · decide
  exact emits_pure (by decide) (by decide +kernel)

end MiniBeam
