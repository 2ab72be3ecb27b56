import MiniBeam.Model.Term
import Mathlib.Data.Nat.Bitwise

/-! The tags of terms, read as arithmetic on 32-bit words. -/

namespace MiniBeam

theorem and_low_toNat (t : Term) (k : ℕ) (hk : k ≤ 31) :
    (t &&& BitVec.ofNat 32 (2 ^ k - 1)).toNat = t.toNat % 2 ^ k := by
  have hlt : 2 ^ k - 1 < 2 ^ 32 :=
    lt_of_le_of_lt (Nat.sub_le _ _) (Nat.pow_lt_pow_right (by omega) (by omega))
  rw [BitVec.toNat_and, BitVec.toNat_ofNat, Nat.mod_eq_of_lt hlt, Nat.and_two_pow_sub_one_eq_mod]

theorem tag_eq (t tag : Term) : (t &&& tagMask == tag) = decide (t.toNat % 16 = tag.toNat) := by
  have h := and_low_toNat t 4 (by omega)
  rw [Bool.eq_iff_iff, beq_iff_eq, decide_eq_true_eq]
  constructor
  · intro he
    rw [← he]
    exact h.symm
  · intro he
    exact BitVec.eq_of_toNat_eq (h.trans he)

theorem isCons_iff {t : Term} : isCons t = true ↔ t.toNat % 16 = 1 := by
  simp [isCons, tag_eq, tagCons]

theorem isBoxed_iff {t : Term} : isBoxed t = true ↔ t.toNat % 16 = 2 := by
  simp [isBoxed, tag_eq, tagBoxed]

theorem isImmediate_iff {t : Term} :
    isImmediate t = true ↔ t.toNat % 16 = 15 ∨ t.toNat % 16 = 11 ∨ t.toNat % 16 = 3 := by
  simp [isImmediate, isSmallint, isAtom, isPid, tag_eq, tagSmallint, tagAtom, tagPid, or_assoc]

theorem isTupleHdr_iff {w : Term} : isTupleHdr w = true ↔ w.toNat % 64 = 0 := by
  have h := and_low_toNat w 6 (by omega)
  simp only [isTupleHdr, beq_iff_eq]
  constructor
  · intro he
    exact h.symm.trans (congrArg BitVec.toNat he)
  · intro he
    exact BitVec.eq_of_toNat_eq (h.trans he)

theorem getBoxed_eq (t : Term) : getBoxed t = t.toNat / 16 := by
  simp [getBoxed, Nat.shiftRight_eq_div_pow]

theorem getCons_eq (t : Term) : getCons t = t.toNat / 16 := by
  simp [getCons, Nat.shiftRight_eq_div_pow]

theorem getTupleArity_eq (w : Term) : getTupleArity w = w.toNat / 64 := by
  simp [getTupleArity, Nat.shiftRight_eq_div_pow]

/-- Offsets that fit into a term. -/
abbrev maxOffset : ℕ := 2 ^ 28

theorem tagged_toNat {off : ℕ} (h : off < maxOffset) (tag : Term) (ht : tag.toNat < 16) :
    ((BitVec.ofNat 32 off <<< 4) ||| tag).toNat = off * 16 + tag.toNat := by
  have h28 : off < 2 ^ 28 := h
  have hoff : off % 2 ^ 32 = off := Nat.mod_eq_of_lt (by omega)
  have hshift : off <<< 4 % 2 ^ 32 = off <<< 4 := by
    rw [Nat.shiftLeft_eq]
    exact Nat.mod_eq_of_lt (by omega)
  rw [BitVec.toNat_or, BitVec.toNat_shiftLeft, BitVec.toNat_ofNat, hoff, hshift,
    ← Nat.shiftLeft_add_eq_or_of_lt (by simpa using ht), Nat.shiftLeft_eq]

theorem makeBoxed_toNat {off : ℕ} (h : off < maxOffset) : (makeBoxed off).toNat = off * 16 + 2 :=
  tagged_toNat h _ (by decide)

theorem makeCons_toNat {off : ℕ} (h : off < maxOffset) : (makeCons off).toNat = off * 16 + 1 :=
  tagged_toNat h _ (by decide)

theorem getBoxed_makeBoxed {off : ℕ} (h : off < maxOffset) : getBoxed (makeBoxed off) = off := by
  rw [getBoxed_eq, makeBoxed_toNat h]
  omega

theorem getCons_makeCons {off : ℕ} (h : off < maxOffset) : getCons (makeCons off) = off := by
  rw [getCons_eq, makeCons_toNat h]
  omega

theorem isBoxed_makeBoxed {off : ℕ} (h : off < maxOffset) : isBoxed (makeBoxed off) = true := by
  rw [isBoxed_iff, makeBoxed_toNat h]
  omega

theorem isCons_makeCons {off : ℕ} (h : off < maxOffset) : isCons (makeCons off) = true := by
  rw [isCons_iff, makeCons_toNat h]
  omega

theorem not_isBoxed_makeCons {off : ℕ} (h : off < maxOffset) : isBoxed (makeCons off) = false := by
  rw [← Bool.not_eq_true, isBoxed_iff, makeCons_toNat h]
  omega

theorem getBoxed_lt (t : Term) : getBoxed t < maxOffset := by
  rw [getBoxed_eq]
  have := t.isLt
  show _ < 2 ^ 28
  omega

theorem getCons_lt (t : Term) : getCons t < maxOffset := by
  rw [getCons_eq]
  have := t.isLt
  show _ < 2 ^ 28
  omega

theorem makeBoxed_getBoxed {t : Term} (h : isBoxed t = true) : makeBoxed (getBoxed t) = t := by
  rw [isBoxed_iff] at h
  refine BitVec.eq_of_toNat_eq ?_
  rw [makeBoxed_toNat (getBoxed_lt t), getBoxed_eq]
  omega

theorem makeCons_getCons {t : Term} (h : isCons t = true) : makeCons (getCons t) = t := by
  rw [isCons_iff] at h
  refine BitVec.eq_of_toNat_eq ?_
  rw [makeCons_toNat (getCons_lt t), getCons_eq]
  omega

theorem makeBoxed_ne_zero (off : ℕ) : makeBoxed off ≠ 0 := by
  intro h
  have hbit := congrArg (fun t : Term => t.getLsbD 1) h
  simp [makeBoxed, tagBoxed] at hbit

theorem makeCons_ne_zero (off : ℕ) : makeCons off ≠ 0 := by
  intro h
  have hbit := congrArg (fun t : Term => t.getLsbD 0) h
  simp [makeCons, tagCons] at hbit

theorem makeTupleHdr_toNat {arity : ℕ} (h : arity ≤ 16) :
    (makeTupleHdr arity).toNat = arity * 64 := by
  rw [makeTupleHdr, BitVec.toNat_shiftLeft, BitVec.toNat_ofNat, Nat.shiftLeft_eq,
    Nat.mod_eq_of_lt (a := arity) (by omega)]
  omega

theorem getTupleArity_makeTupleHdr {arity : ℕ} (h : arity ≤ 16) :
    getTupleArity (makeTupleHdr arity) = arity := by
  rw [getTupleArity_eq, makeTupleHdr_toNat h]
  omega

theorem isTupleHdr_makeTupleHdr {arity : ℕ} (h : arity ≤ 16) :
    isTupleHdr (makeTupleHdr arity) = true := by
  rw [isTupleHdr_iff, makeTupleHdr_toNat h]
  omega

/-! ### Small integers -/

/-- What a register gives back of an integer stored in it. -/
def held (v : I32) : I32 := getSmallint (makeSmallint v)

theorem held_eq (v : I32) : held v = (v.setWidth 28).signExtend 32 := by
  refine BitVec.eq_of_getLsbD_eq fun i hi => ?_
  simp only [held, getSmallint, makeSmallint, tagSmallint, BitVec.getLsbD_sshiftRight,
    BitVec.getLsbD_or, BitVec.getLsbD_shiftLeft, BitVec.getLsbD_signExtend,
    BitVec.getLsbD_setWidth, BitVec.msb_eq_getLsbD_last]
  have h32 : ¬ 32 ≤ i := by omega
  by_cases h : i < 28
  · have h4 : 4 + i < 32 := by omega
    have hlow : ¬ 4 + i < 4 := by omega
    have htag : (0xF : I32).getLsbD (4 + i) = false := by
      rw [← BitVec.getLsbD_ushiftRight]
      exact BitVec.getLsbD_zero
    rw [htag]
    simp [h, h4, hi, h32, hlow]
  · have h4 : ¬ 4 + i < 32 := by omega
    simp [h, h4, hi]

/-- A register holds 28 bits of an integer. -/
theorem held_toInt (v : I32) : (held v).toInt = v.toInt.bmod (2 ^ 28) := by
  rw [held_eq, BitVec.toInt_signExtend_of_le (by decide), BitVec.toInt_setWidth,
    BitVec.toInt_eq_toNat_bmod]
  exact (Int.bmod_bmod_of_dvd (by decide)).symm

theorem held_of_range {v : I32} (hlo : -2 ^ 27 ≤ v.toInt) (hhi : v.toInt < 2 ^ 27) :
    held v = v := by
  apply BitVec.eq_of_toInt_eq
  rw [held_toInt]
  exact Int.bmod_eq_of_le (by omega) (by omega)

theorem held_ofInt {z : ℤ} (hlo : -2 ^ 27 ≤ z) (hhi : z < 2 ^ 27) :
    held (BitVec.ofInt 32 z) = BitVec.ofInt 32 z := by
  have hz : (BitVec.ofInt 32 z).toInt = z := by
    rw [BitVec.toInt_ofInt]
    exact Int.bmod_eq_of_le (by omega) (by omega)
  exact held_of_range (by omega) (by omega)

end MiniBeam
