import Mathlib.Data.Nat.Notation

/-! A clock that starts again from zero after each period: what the comparison of two of its
readings says about the times at which it was read. -/

namespace LapClock

variable {period s t : ℕ}

def reading (period t : ℕ) : ℕ := t % period

/-- How often the clock has started again. -/
def lap (period t : ℕ) : ℕ := t / period

theorem reading_add (period t d : ℕ) :
    reading period (reading period t + d) = reading period (t + d) := Nat.mod_add_mod t period d

theorem eq_lap_add_reading (period t : ℕ) : t = period * lap period t + reading period t :=
  (Nat.div_add_mod t period).symm

/-- Within a lap the readings are in the order of the times. -/
theorem reading_le_iff_of_lap_eq (h : lap period s = lap period t) :
    reading period s ≤ reading period t ↔ s ≤ t := by
  have hs := eq_lap_add_reading period s
  have ht := eq_lap_add_reading period t
  rw [h] at hs
  omega

/-- Between two laps the readings of close times are in the opposite order. -/
theorem reading_lt_of_lap_lt (h : lap period s < lap period t) (hclose : t < s + period) :
    reading period t < reading period s := by
  have hs := eq_lap_add_reading period s
  have ht := eq_lap_add_reading period t
  have hlaps : period * lap period s + period ≤ period * lap period t := by
    rw [← Nat.mul_succ]
    exact Nat.mul_le_mul_left period h
  omega

/-- Two readings of close times compare as the times do exactly when they fall in one lap. -/
theorem reading_le_iff_iff (hs : s < t + period) (ht : t < s + period) :
    (reading period s ≤ reading period t ↔ s ≤ t) ↔ lap period s = lap period t := by
  constructor
  · intro h
    rcases Nat.lt_trichotomy (lap period s) (lap period t) with hlt | heq | hgt
    · have hread := reading_lt_of_lap_lt hlt ht
      have hle : s ≤ t := by
        apply Nat.le_of_not_lt
        intro hts
        exact absurd (Nat.div_le_div_right (Nat.le_of_lt hts)) (Nat.not_le.mpr hlt)
      exact absurd (h.mpr hle) (Nat.not_le.mpr hread)
    · exact heq
    · have hread := reading_lt_of_lap_lt hgt hs
      have hle := h.mp (Nat.le_of_lt hread)
      exact absurd (Nat.div_le_div_right hle) (Nat.not_le.mpr hgt)
  · exact reading_le_iff_of_lap_eq

end LapClock
