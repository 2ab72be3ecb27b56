import Mathlib.Algebra.BigOperators.Group.Finset.Basic
import Mathlib.Algebra.Order.BigOperators.Group.Finset
import Mathlib.Order.Interval.Finset.Nat
import Mathlib.Algebra.GroupWithZero.Nat

/-! Blocks of words in a list: slices, blocks stored one after another, and the room that
disjoint blocks need. -/

namespace Layout

section Slice

variable {β : Type}

/-- The `n` words of `l` from index `i` on. -/
def slice (l : List β) (i n : ℕ) : List β := (l.drop i).take n

theorem length_slice {l : List β} {i n : ℕ} (h : i + n ≤ l.length) : (slice l i n).length = n := by
  simp only [slice, List.length_take, List.length_drop]
  omega

theorem getElem?_slice {l : List β} {i n k : ℕ} (hk : k < n) : (slice l i n)[k]? = l[i + k]? := by
  simp [slice, hk]

theorem slice_map {γ : Type} (f : β → γ) (l : List β) (i n : ℕ) :
    slice (l.map f) i n = (slice l i n).map f := by
  simp only [slice, List.map_take, List.map_drop]

/-- Lists with the same words in a range have the same slice there. -/
theorem slice_congr {l l' : List β} {i n : ℕ} (h : ∀ k, k < n → l'[i + k]? = l[i + k]?) :
    slice l' i n = slice l i n := by
  refine List.ext_getElem? fun k => ?_
  by_cases hk : k < n
  · rw [getElem?_slice hk, getElem?_slice hk, h k hk]
  · simp only [slice, List.getElem?_take, if_neg hk]

theorem slice_set {l : List β} {i n j : ℕ} (w : β) (h : j < i ∨ i + n ≤ j) :
    slice (l.set j w) i n = slice l i n := by
  refine slice_congr fun k hk => ?_
  rw [List.getElem?_set_ne (by omega)]

theorem slice_take {l : List β} {i n m : ℕ} (h : i + n ≤ m) :
    slice (l.take m) i n = slice l i n := by
  refine slice_congr fun k hk => ?_
  rw [List.getElem?_take, if_pos (by omega)]

/-- A slice is its first word and the slice behind it. -/
theorem slice_succ {l : List β} {i n : ℕ} {w : β} (h : l[i]? = some w) :
    slice l i (n + 1) = w :: slice l (i + 1) n := by
  obtain ⟨hi, hw⟩ := List.getElem?_eq_some_iff.mp h
  rw [slice, List.drop_eq_getElem_cons hi, List.take_succ_cons, hw, slice]

end Slice

section Blocks

variable {α β : Type} [DecidableEq α] (words : α → List β)

/-- Where the block of `x` starts when the blocks of `xs` are stored in order. -/
def addr : List α → α → ℕ
  | [], _ => 0
  | y :: xs, x => if y = x then 0 else (words y).length + addr xs x

variable {words}

theorem addr_append_of_mem {xs : List α} {x : α} (h : x ∈ xs) (ys : List α) :
    addr words (xs ++ ys) x = addr words xs x := by
  induction xs with
  | nil => cases h
  | cons y xs ih =>
      simp only [List.cons_append, addr]
      split
      · rfl
      · rename_i hne
        have hx : x ∈ xs := (List.mem_cons.mp h).resolve_left fun he => hne he.symm
        rw [ih hx]

/-- A new block starts behind all the others. -/
theorem addr_append_new {xs : List α} {x : α} (h : x ∉ xs) :
    addr words (xs ++ [x]) x = (xs.flatMap words).length := by
  induction xs with
  | nil => simp [addr]
  | cons y xs ih =>
      obtain ⟨hne, hx⟩ : ¬ x = y ∧ x ∉ xs := by simpa using h
      rw [List.cons_append, addr, if_neg (Ne.symm hne), ih hx, List.flatMap_cons,
        List.length_append]

/-- Only the lengths of the blocks matter. -/
theorem addr_congr {words' : α → List β} {xs : List α}
    (h : ∀ y ∈ xs, (words' y).length = (words y).length) (x : α) :
    addr words' xs x = addr words xs x := by
  induction xs with
  | nil => rfl
  | cons y xs ih =>
      rw [addr, addr, h y List.mem_cons_self, ih fun z hz => h z (List.mem_cons_of_mem y hz)]

theorem addr_add_length_le (words : α → List β) {xs : List α} {x : α} (h : x ∈ xs) :
    addr words xs x + (words x).length ≤ (xs.flatMap words).length := by
  induction xs with
  | nil => cases h
  | cons y xs ih =>
      simp only [addr, List.flatMap_cons, List.length_append]
      split
      · rename_i heq
        subst heq
        omega
      · rename_i hne
        have hx : x ∈ xs := (List.mem_cons.mp h).resolve_left fun he => hne he.symm
        have := ih hx
        omega

theorem addr_disjoint (words : α → List β) {xs : List α} {x y : α} (hx : x ∈ xs) (hy : y ∈ xs)
    (hne : x ≠ y) :
    addr words xs x + (words x).length ≤ addr words xs y ∨
      addr words xs y + (words y).length ≤ addr words xs x := by
  induction xs with
  | nil => cases hx
  | cons z xs ih =>
      simp only [addr]
      by_cases hzx : z = x
      · subst hzx
        rw [if_pos rfl, if_neg hne]
        exact .inl (by omega)
      · by_cases hzy : z = y
        · subst hzy
          rw [if_neg hzx, if_pos rfl]
          exact .inr (by omega)
        · rw [if_neg hzx, if_neg hzy]
          have hx' := (List.mem_cons.mp hx).resolve_left fun he => hzx he.symm
          have hy' := (List.mem_cons.mp hy).resolve_left fun he => hzy he.symm
          have := ih hx' hy'
          omega

/-- Each block is where its address says. -/
theorem slice_addr {xs : List α} {x : α} (h : x ∈ xs) :
    slice (xs.flatMap words) (addr words xs x) (words x).length = words x := by
  induction xs with
  | nil => cases h
  | cons y xs ih =>
      simp only [addr, List.flatMap_cons]
      split
      · rename_i heq
        subst heq
        simp [slice]
      · rename_i hne
        have hx : x ∈ xs := (List.mem_cons.mp h).resolve_left fun he => hne he.symm
        have := ih hx
        rw [slice] at this ⊢
        rw [List.drop_length_add_append, this]

end Blocks

/-- Disjoint intervals below `n` have at most `n` points together. -/
theorem sum_le_of_disjoint {ι : Type} {off size : ι → ℕ} {n : ℕ} {xs : List ι} (hnodup : xs.Nodup)
    (hbound : ∀ x ∈ xs, off x + size x ≤ n)
    (hdisj : ∀ x ∈ xs, ∀ y ∈ xs, x ≠ y → off x + size x ≤ off y ∨ off y + size y ≤ off x) :
    (xs.map size).sum ≤ n := by
  classical
  have hcard : ∀ x, (Finset.Ico (off x) (off x + size x)).card = size x := by simp
  have hpair : Set.PairwiseDisjoint (xs.toFinset : Set ι)
      fun x => Finset.Ico (off x) (off x + size x) := by
    intro x hx y hy hne
    rw [Function.onFun, Finset.disjoint_left]
    intro k hkx hky
    have hsep := hdisj x (by simpa using hx) y (by simpa using hy) hne
    rw [Finset.mem_Ico] at hkx hky
    omega
  calc (xs.map size).sum = ∑ x ∈ xs.toFinset, size x := (List.sum_toFinset size hnodup).symm
    _ = ∑ x ∈ xs.toFinset, (Finset.Ico (off x) (off x + size x)).card := by simp only [hcard]
    _ = (xs.toFinset.biUnion fun x => Finset.Ico (off x) (off x + size x)).card :=
        (Finset.card_biUnion hpair).symm
    _ ≤ (Finset.range n).card := by
        refine Finset.card_le_card fun k hk => ?_
        obtain ⟨x, hx, hkx⟩ := Finset.mem_biUnion.mp hk
        have := hbound x (List.mem_toFinset.mp hx)
        rw [Finset.mem_Ico] at hkx
        exact Finset.mem_range.mpr (by omega)
    _ = n := Finset.card_range n

end Layout
