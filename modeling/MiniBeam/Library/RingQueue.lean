import Mathlib.Data.List.Basic
import Mathlib.Data.Nat.ModEq

/-! A bounded queue kept in a ring of cells: a head index, a tail index and a count,
read as the list of queued values, oldest first. -/

namespace RingQueue

variable {α : Type} {n : ℕ}

/-- The indices of a ring of `n` cells that holds `count` values from `head` on. -/
structure Valid (n head tail count : ℕ) : Prop where
  head_lt : head < n
  count_le : count ≤ n
  tail_eq : tail = (head + count) % n

theorem Valid.empty (hn : 0 < n) : Valid n 0 0 0 :=
  ⟨hn, Nat.zero_le n, (Nat.zero_mod n).symm⟩

section Indices

variable {head tail count : ℕ} (h : Valid n head tail count)
include h

theorem Valid.pos : 0 < n := Nat.zero_lt_of_lt h.head_lt

theorem Valid.tail_lt : tail < n := by
  rw [h.tail_eq]
  exact Nat.mod_lt _ h.pos

theorem Valid.push (hc : count < n) : Valid n head ((tail + 1) % n) (count + 1) := by
  refine ⟨h.head_lt, hc, ?_⟩
  rw [h.tail_eq, Nat.mod_add_mod, Nat.add_assoc]

theorem Valid.pop (hc : 0 < count) : Valid n ((head + 1) % n) tail (count - 1) := by
  refine ⟨Nat.mod_lt _ h.pos, (Nat.sub_le _ _).trans h.count_le, ?_⟩
  rw [h.tail_eq, Nat.mod_add_mod]
  congr 1
  omega

end Indices

/-- The cell at an index taken around the end of the ring. -/
def cell (items : Vector α n) (i : ℕ) : Option α := items[i % n]?

/-- The `count` values from `head` on, oldest first. -/
def contents (items : Vector α n) (head count : ℕ) : List α :=
  (List.range count).filterMap fun i => cell items (head + i)

theorem cell_eq_some (items : Vector α n) (hn : 0 < n) (i : ℕ) : ∃ a, cell items i = some a :=
  ⟨items.get ⟨i % n, Nat.mod_lt _ hn⟩, Vector.getElem?_eq_getElem (Nat.mod_lt _ hn)⟩

theorem length_contents (items : Vector α n) (hn : 0 < n) (head count : ℕ) :
    (contents items head count).length = count := by
  induction count with
  | zero => rfl
  | succ count ih =>
      obtain ⟨a, ha⟩ := cell_eq_some items hn (head + count)
      rw [contents] at ih
      simp [contents, List.range_succ, ha, ih]

/-- Two different places of the queue are different cells. -/
theorem mod_ne {head i j : ℕ} (hij : i < j) (hj : j < n) : (head + i) % n ≠ (head + j) % n := by
  intro he
  have hd : n ∣ head + j - (head + i) := (Nat.modEq_iff_dvd' (by omega)).mp he
  have hle := Nat.le_of_dvd (by omega) hd
  omega

theorem cell_set_ne (items : Vector α n) {i t : ℕ} (ht : t < n) (a : α) (h : i % n ≠ t) :
    cell (items.set t a ht) i = cell items i := by
  simp only [cell, Vector.getElem?_set]
  rw [if_neg (Ne.symm h)]

/-- A value stored at the tail comes last. -/
theorem contents_push {items : Vector α n} {head tail count : ℕ} (h : Valid n head tail count)
    (hc : count < n) (a : α) (ht : tail < n) :
    contents (items.set tail a ht) head (count + 1) = contents items head count ++ [a] := by
  have hlast : cell (items.set tail a ht) (head + count) = some a := by
    simp only [cell, ← h.tail_eq]
    exact Vector.getElem?_set_self ht
  have hrest : ∀ i ∈ List.range count,
      cell (items.set tail a ht) (head + i) = cell items (head + i) := by
    intro i hi
    have hlt := List.mem_range.mp hi
    refine cell_set_ne items ht a ?_
    rw [h.tail_eq]
    exact mod_ne hlt hc
  rw [contents, List.range_succ, List.filterMap_append, List.filterMap_congr hrest]
  simp [contents, hlast]

/-- The value at the head comes first, and the queue behind it stays. -/
theorem contents_pop (items : Vector α n) {head tail count : ℕ} (h : Valid n head tail count)
    (hc : 0 < count) :
    ∃ a, items[head]? = some a ∧
      contents items head count = a :: contents items ((head + 1) % n) (count - 1) := by
  obtain ⟨a, ha⟩ := cell_eq_some items h.pos head
  have hfirst : items[head]? = some a := by
    rwa [cell, Nat.mod_eq_of_lt h.head_lt] at ha
  refine ⟨a, hfirst, ?_⟩
  obtain ⟨k, rfl⟩ : ∃ k, count = k + 1 := ⟨count - 1, by omega⟩
  rw [contents, List.range_succ_eq_map, List.filterMap_cons]
  simp only [Nat.add_zero, ha, Nat.add_sub_cancel, List.filterMap_map, contents]
  congr 1
  refine List.filterMap_congr fun i _ => ?_
  simp only [Function.comp, cell, Nat.mod_add_mod]
  congr 2
  omega

end RingQueue
