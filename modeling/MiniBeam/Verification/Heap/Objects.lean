import MiniBeam.Library.Layout
import MiniBeam.Library.Similarity
import MiniBeam.Model.Heap
import MiniBeam.Verification.Heap.Terms

/-! The objects on a heap as a graph: cons cells and tuples, what a term refers to, and
what a well-formed heap is. -/

namespace MiniBeam

open Layout (slice)
open RootedGraph

/-- A heap object: its kind and the offset of its first word. -/
inductive Obj where
  | cell (off : ℕ)
  | tuple (off : ℕ)
  deriving DecidableEq

namespace Obj

def off : Obj → ℕ
  | cell off => off
  | tuple off => off

/-- An object of the same kind at another offset. -/
def moveTo : Obj → ℕ → Obj
  | cell _, off => cell off
  | tuple _, off => tuple off

/-- The term that refers to an object. -/
def term : Obj → Term
  | cell off => makeCons off
  | tuple off => makeBoxed off

@[simp] theorem off_moveTo (o : Obj) (n : ℕ) : (o.moveTo n).off = n := by
  cases o <;> rfl

@[simp] theorem moveTo_off (o : Obj) : o.moveTo o.off = o := by
  cases o <;> rfl

end Obj

/-- The object a term refers to. -/
def target (t : Term) : Option Obj :=
  if isBoxed t then some (.tuple (getBoxed t))
  else if isCons t then some (.cell (getCons t))
  else none

theorem target_term {o : Obj} (h : o.off < maxOffset) : target o.term = some o := by
  cases o with
  | cell off =>
      have h : off < maxOffset := h
      simp [target, Obj.term, not_isBoxed_makeCons h, isCons_makeCons h, getCons_makeCons h]
  | tuple off =>
      have h : off < maxOffset := h
      simp [target, Obj.term, isBoxed_makeBoxed h, getBoxed_makeBoxed h]

theorem target_some {t : Term} {o : Obj} (h : target t = some o) :
    o.term = t ∧ o.off < maxOffset := by
  unfold target at h
  split at h
  · rename_i hb
    simp only [Option.some.injEq] at h
    subst h
    exact ⟨makeBoxed_getBoxed hb, getBoxed_lt t⟩
  · split at h
    · rename_i hc
      simp only [Option.some.injEq] at h
      subst h
      exact ⟨makeCons_getCons hc, getCons_lt t⟩
    · cases h

theorem target_tuple {t : Term} {off : ℕ} (h : target t = some (.tuple off)) :
    isBoxed t = true ∧ getBoxed t = off := by
  unfold target at h
  split at h
  · simp only [Option.some.injEq, Obj.tuple.injEq] at h
    exact ⟨by assumption, h⟩
  · split at h <;> simp at h

theorem target_cell {t : Term} {off : ℕ} (h : target t = some (.cell off)) :
    isBoxed t = false ∧ isCons t = true ∧ getCons t = off := by
  unfold target at h
  split at h
  · simp at h
  · rename_i hb
    split at h
    · simp only [Option.some.injEq, Obj.cell.injEq] at h
      exact ⟨by simpa using hb, by assumption, h⟩
    · cases h

theorem target_none {t : Term} (h : target t = none) : isBoxed t = false ∧ isCons t = false := by
  unfold target at h
  split at h
  · cases h
  · split at h
    · cases h
    · simp_all

/-- A term that refers to an object is no immediate and not zero. -/
theorem not_immediate_of_target {t : Term} {o : Obj} (h : target t = some o) :
    (isImmediate t || t == 0) = false := by
  have hmod : t.toNat % 16 = 1 ∨ t.toNat % 16 = 2 := by
    cases o with
    | cell off => exact .inl (isCons_iff.mp (target_cell h).2.1)
    | tuple off => exact .inr (isBoxed_iff.mp (target_tuple h).1)
  rw [Bool.or_eq_false_iff]
  constructor
  · rw [← Bool.not_eq_true, isImmediate_iff]
    omega
  · rw [beq_eq_false_iff_ne]
    rintro rfl
    simp at hmod

theorem target_of_immediate {t : Term} (h : t = 0 ∨ isImmediate t = true) : target t = none := by
  cases ht : target t with
  | none => rfl
  | some o =>
      have := not_immediate_of_target ht
      simp only [Bool.or_eq_false_iff, beq_eq_false_iff_ne] at this
      rcases h with h | h
      · exact absurd h this.2
      · rw [h] at this
        exact absurd this.1 (by decide)

theorem target_hdr {w : Term} (h : isTupleHdr w = true) : target w = none := by
  rw [isTupleHdr_iff] at h
  have hb : isBoxed w = false := by
    rw [← Bool.not_eq_true, isBoxed_iff]
    omega
  have hc : isCons w = false := by
    rw [← Bool.not_eq_true, isCons_iff]
    omega
  simp [target, hb, hc]

/-- A term as a value of the object graph. -/
def value (t : Term) : Term ⊕ Obj :=
  match target t with
  | some o => .inr o
  | none => .inl t

theorem value_inr {t : Term} {o : Obj} : value t = .inr o ↔ target t = some o := by
  unfold value
  cases target t <;> simp

theorem value_injective {t u : Term} (h : value t = value u) : t = u := by
  cases ht : target t with
  | none =>
      cases hu : target u with
      | none => simpa [value, ht, hu] using h
      | some o => simp [value, ht, hu] at h
  | some o =>
      have hu : target u = some o := value_inr.mp (h ▸ value_inr.mpr ht)
      exact (target_some ht).1.symm.trans (target_some hu).1

/-- The values of a list of terms refer to the targets of these terms. -/
theorem mem_map_value {l : List Term} {o : Obj} :
    Sum.inr o ∈ l.map value ↔ ∃ t ∈ l, target t = some o := by
  simp only [List.mem_map, value_inr]

/-- A term with its reference moved. -/
def relocate (addr : Obj → ℕ) (t : Term) : Term :=
  match target t with
  | some o => (o.moveTo (addr o)).term
  | none => t

theorem relocate_none {addr : Obj → ℕ} {t : Term} (h : target t = none) : relocate addr t = t := by
  simp [relocate, h]

theorem relocate_some {addr : Obj → ℕ} {t : Term} {o : Obj} (h : target t = some o) :
    relocate addr t = (o.moveTo (addr o)).term := by
  simp [relocate, h]

theorem relocate_congr {addr addr' : Obj → ℕ} {t : Term}
    (h : ∀ o, target t = some o → addr' o = addr o) : relocate addr' t = relocate addr t := by
  cases ht : target t with
  | none => rw [relocate_none ht, relocate_none ht]
  | some o => rw [relocate_some ht, relocate_some ht, h o ht]

theorem target_relocate (addr : Obj → ℕ) (t : Term)
    (h : ∀ o, target t = some o → addr o < maxOffset) :
    target (relocate addr t) = (target t).map fun o => o.moveTo (addr o) := by
  cases ht : target t with
  | none => rw [relocate_none ht, ht]; rfl
  | some o =>
      rw [relocate_some ht, Option.map_some]
      exact target_term (by simpa using h o ht)

theorem relocate_eq_self {addr : Obj → ℕ} {t : Term}
    (hlt : ∀ o, target t = some o → addr o < maxOffset) :
    relocate addr t = t ↔ ∀ o, target t = some o → addr o = o.off := by
  cases ht : target t with
  | none => simp [relocate_none ht]
  | some o =>
      have hmoved := target_relocate addr t hlt
      rw [ht, Option.map_some] at hmoved
      constructor
      · intro heq a ha
        rw [heq, ht, Option.some.injEq] at hmoved
        rw [← Option.some.inj ha]
        simpa using (congrArg Obj.off hmoved).symm
      · intro h
        rw [relocate_some ht, h o rfl, Obj.moveTo_off]
        exact (target_some ht).1

theorem value_relocate {addr : Obj → ℕ} {t : Term}
    (h : ∀ o, target t = some o → addr o < maxOffset) :
    value (relocate addr t) = mapRef (fun o => o.moveTo (addr o)) (value t) := by
  simp only [value, target_relocate addr t h]
  cases ht : target t with
  | none => simp [relocate_none ht]
  | some o => rfl

/-! ### Objects in a space -/

namespace Obj

variable (space : List Term)

/-- The elements of the tuple whose header stands at `off`. -/
def arity (off : ℕ) : ℕ := getTupleArity (space.getD off 0)

/-- How many words an object has. -/
def size : Obj → ℕ
  | cell _ => 2
  | tuple off => 1 + arity space off

/-- All words of an object. -/
def words (o : Obj) : List Term := slice space o.off (o.size space)

/-- The words of an object that are terms. -/
def fields : Obj → List Term
  | cell off => slice space off 2
  | tuple off => slice space (off + 1) (arity space off)

/-- The kind of an object, with the arity of a tuple. -/
def label : Obj → Option ℕ
  | cell _ => none
  | tuple off => some (arity space off)

theorem size_pos (o : Obj) : 0 < o.size space := by
  cases o with
  | cell off => exact Nat.zero_lt_two
  | tuple off =>
      simp only [size]
      omega

end Obj

/-- The objects of a space as a graph. -/
def graph (space : List Term) : Graph Obj Term (Option ℕ) where
  label o := o.label space
  fields o := (o.fields space).map value

/-- The objects that `roots` reach in a space. -/
abbrev Live (space : List Term) (roots : List Term) : Obj → Prop :=
  Reach (graph space) (roots.map value)

/-- A breadth-first walk over the words of `queue` and of the objects it finds. -/
abbrev Finds (space : List Term) (found : List Obj) (queue : List Term) (all : List Obj) : Prop :=
  Walk target (Obj.words space) found queue all

/-- A word that may stand in a register or in a field: zero, an immediate, or a reference
to an object that lies below `hp`. Tuples have `lo` to 16 elements. -/
inductive WordOk (space : List Term) (hp lo : ℕ) (t : Term) : Prop
  | zero (h : t = 0)
  | immediate (h : isImmediate t = true)
  | cons (h : isCons t = true) (below : getCons t + 2 ≤ hp)
  | boxed (hdr : Term) (h : isBoxed t = true) (header : space[getBoxed t]? = some hdr)
      (isHdr : isTupleHdr hdr = true) (least : lo ≤ getTupleArity hdr)
      (most : getTupleArity hdr ≤ maxTupleArity) (below : getBoxed t + 1 + getTupleArity hdr ≤ hp)

/-- Two objects share no word. -/
def Apart (space : List Term) (o o' : Obj) : Prop :=
  o.off + o.size space ≤ o'.off ∨ o'.off + o'.size space ≤ o.off

/-- What the roots see of a space is sound: every word is a legal word, and distinct
objects do not overlap. -/
structure Sound (space : List Term) (hp lo : ℕ) (roots : List Term) : Prop where
  rootsOk : ∀ t ∈ roots, WordOk space hp lo t
  fieldsOk : ∀ o, Live space roots o → ∀ t ∈ o.fields space, WordOk space hp lo t
  apart : ∀ o o', Live space roots o → Live space roots o' → o ≠ o' → Apart space o o'

/-- A well-formed heap for `roots`: two spaces of `capacity` words, filled up to `hp`. -/
structure Heap.WellFormed (heap : Heap) (lo : ℕ) (roots : List Term) : Prop where
  fromLength : heap.fromSpace.length = heap.capacity
  toLength : heap.toSpace.length = heap.capacity
  capacity_le : heap.capacity ≤ heapWords
  hp_le : heap.hp ≤ heap.capacity
  sound : Sound heap.fromSpace heap.hp lo roots

/-! ### Objects of a sound heap -/

/-- An object that lies below `hp`, with a proper header when it is a tuple. -/
structure Obj.Fits (space : List Term) (hp lo : ℕ) (o : Obj) : Prop where
  below : o.off + o.size space ≤ hp
  header : ∀ off, o = .tuple off → ∃ hdr, space[off]? = some hdr ∧ isTupleHdr hdr = true ∧
    lo ≤ getTupleArity hdr ∧ getTupleArity hdr ≤ maxTupleArity

theorem Obj.arity_eq {space : List Term} {off : ℕ} {hdr : Term} (h : space[off]? = some hdr) :
    Obj.arity space off = getTupleArity hdr := by
  rw [Obj.arity, List.getD_eq_getElem?_getD, h, Option.getD_some]

theorem Obj.words_tuple {space : List Term} {off : ℕ} {hdr : Term} (h : space[off]? = some hdr) :
    words space (.tuple off) = hdr :: fields space (.tuple off) := by
  rw [words, Obj.off, size, Nat.add_comm 1, Layout.slice_succ h, fields]

theorem Obj.Fits.length_words {space : List Term} {hp lo : ℕ} {o : Obj} (h : o.Fits space hp lo)
    (hle : hp ≤ space.length) : (o.words space).length = o.size space :=
  Layout.length_slice (h.below.trans hle)

theorem WordOk.fits {space : List Term} {hp lo : ℕ} {t : Term} {o : Obj} (h : WordOk space hp lo t)
    (ht : target t = some o) : o.Fits space hp lo := by
  cases h with
  | zero h => rw [target_of_immediate (.inl h)] at ht; cases ht
  | immediate h => rw [target_of_immediate (.inr h)] at ht; cases ht
  | cons h below =>
      cases o with
      | cell off =>
          obtain ⟨-, -, rfl⟩ := target_cell ht
          exact ⟨below, fun off h => by cases h⟩
      | tuple off =>
          have h1 := isBoxed_iff.mp (target_tuple ht).1
          have h2 := isCons_iff.mp h
          omega
  | boxed hdr h header isHdr least most below =>
      cases o with
      | cell off =>
          rw [(target_cell ht).1] at h
          cases h
      | tuple off =>
          obtain ⟨-, rfl⟩ := target_tuple ht
          refine ⟨?_, fun off h => ?_⟩
          · simp only [Obj.off, Obj.size, Obj.arity_eq header]
            omega
          · cases h
            exact ⟨hdr, header, isHdr, least, most⟩

/-- A word without a target is data. -/
theorem WordOk.data {space : List Term} {hp lo : ℕ} {t : Term} (h : WordOk space hp lo t)
    (ht : target t = none) : t = 0 ∨ isImmediate t = true := by
  obtain ⟨hb, hc⟩ := target_none ht
  cases h with
  | zero h => exact .inl h
  | immediate h => exact .inr h
  | cons h => rw [hc] at h; cases h
  | boxed hdr h => rw [hb] at h; cases h

/-- A word with a fitting target, or data, is legal. -/
theorem WordOk.of_target {space : List Term} {hp lo : ℕ} {t : Term}
    (hnone : target t = none → t = 0 ∨ isImmediate t = true)
    (hsome : ∀ o, target t = some o → o.Fits space hp lo) : WordOk space hp lo t := by
  cases ht : target t with
  | none =>
      rcases hnone ht with h | h
      · exact .zero h
      · exact .immediate h
  | some o =>
      have hf := hsome o ht
      cases o with
      | cell off =>
          obtain ⟨-, hc, rfl⟩ := target_cell ht
          exact .cons hc hf.below
      | tuple off =>
          obtain ⟨hb, rfl⟩ := target_tuple ht
          obtain ⟨hdr, header, isHdr, least, most⟩ := hf.header _ rfl
          have hbelow := hf.below
          simp only [Obj.off, Obj.size, Obj.arity_eq header] at hbelow
          exact .boxed hdr hb header isHdr least most (by omega)

theorem Sound.fits {space : List Term} {hp lo : ℕ} {roots : List Term}
    (h : Sound space hp lo roots) {o : Obj} (ho : Live space roots o) : o.Fits space hp lo := by
  cases ho with
  | root hr =>
      obtain ⟨t, ht, htarget⟩ := mem_map_value.mp hr
      exact (h.rootsOk t ht).fits htarget
  | field hu hf =>
      obtain ⟨t, ht, htarget⟩ := mem_map_value.mp hf
      exact (h.fieldsOk _ hu t ht).fits htarget

end MiniBeam
