import Mathlib

/-!
# Wrapping numbers of unbounded positions

Position `k` of an unbounded stream carries the 32-bit number `base + k`. Two
positions share a number exactly when they are congruent modulo `2^32`. A ring
of `C` cells stores the number `s` in cell `s % C`. When `C` is a power of two
the cells visited by consecutive positions repeat with period `min C 2^32`,
also where the numbers wrap to zero.
-/

namespace SequentialExchange.WrapNumbering

/-- The number carried by position `k` of a stream that starts at `base`. -/
def number (base : UInt32) (k : ℕ) : UInt32 := base + UInt32.ofNat k

/-- The cell of a ring of `C` cells in which the number `s` is kept. -/
def cell (C : ℕ) [NeZero C] (s : UInt32) : Fin C := Fin.ofNat C s.toNat

/-- How many consecutive positions have pairwise distinct cells. -/
def period (C : ℕ) : ℕ := min C (2 ^ 32)

/-- The position modulo the number space. -/
theorem number_toNat (base : UInt32) (k : ℕ) :
    (number base k).toNat = (base.toNat + k) % 2 ^ 32 := by
  simp [number, UInt32.toNat_add, UInt32.toNat_ofNat']

/-- The first position has the initial number. -/
theorem number_zero (base : UInt32) : number base 0 = base := by
  simp [number]

/-- Positions add up. -/
theorem number_add (base : UInt32) (j k : ℕ) :
    number (number base j) k = number base (j + k) := by
  apply UInt32.toNat_inj.mp
  simp only [number_toNat]
  omega

/-- The next position has the next number. -/
theorem number_succ (base : UInt32) (k : ℕ) : number base k + 1 = number base (k + 1) := by
  apply UInt32.toNat_inj.mp
  simp only [UInt32.toNat_add, number_toNat, UInt32.toNat_one]
  omega

/-- Two positions share a number exactly when they agree modulo `2^32`. -/
theorem number_eq_iff (base : UInt32) (j k : ℕ) :
    number base j = number base k ↔ j ≡ k [MOD 2 ^ 32] := by
  rw [← UInt32.toNat_inj, number_toNat, number_toNat, Nat.ModEq]
  omega

/-- Below `2^32` positions are determined by their number. -/
theorem number_inj {base : UInt32} {j k : ℕ} (hj : j < 2 ^ 32) (hk : k < 2 ^ 32) :
    number base j = number base k ↔ j = k := by
  rw [number_eq_iff, Nat.ModEq, Nat.mod_eq_of_lt hj, Nat.mod_eq_of_lt hk]

/-- The wrapping distance from an earlier position to a later one. -/
theorem number_sub_of_le {base : UInt32} {j k : ℕ} (hjk : j ≤ k) (hd : k - j < 2 ^ 32) :
    (number base k - number base j).toNat = k - j := by
  rw [UInt32.toNat_sub, number_toNat, number_toNat]
  omega

/-- The wrapping distance from a later position back to an earlier one. -/
theorem number_sub_of_lt {base : UInt32} {j k : ℕ} (hkj : k < j) (hd : j - k < 2 ^ 32) :
    (number base k - number base j).toNat = 2 ^ 32 - (j - k) := by
  rw [UInt32.toNat_sub, number_toNat, number_toNat]
  omega

/-- The remainder of the number. -/
theorem cell_val (C : ℕ) [NeZero C] (s : UInt32) : (cell C s).val = s.toNat % C := rfl

/-- There is at least one position. -/
theorem period_pos {C : ℕ} (hC : 0 < C) : 0 < period C := by
  simp only [period]
  omega

/-- There are no more positions than cells. -/
theorem period_le (C : ℕ) : period C ≤ C := Nat.min_le_left _ _

/-- A ring no larger than the number space repeats with its own size. -/
theorem period_eq {C : ℕ} (hC : C ≤ 2 ^ 32) : period C = C := Nat.min_eq_left hC

/-- A power of two is a multiple of `2^32` from there on. -/
theorem mod_eq_zero_of_le {C : ℕ} (hC : ∃ e, C = 2 ^ e) (h : 2 ^ 32 ≤ C) : C % 2 ^ 32 = 0 := by
  obtain ⟨e, rfl⟩ := hC
  have he : 32 ≤ e := (Nat.pow_le_pow_iff_right (by decide)).mp h
  exact Nat.mod_eq_zero_of_dvd (Nat.pow_dvd_pow 2 he)

/-- The cells of a power-of-two ring repeat with the period of the ring, also
across the wrap of the numbers. -/
theorem cell_number_eq_iff {C : ℕ} [NeZero C] (hC : ∃ e, C = 2 ^ e) (base : UInt32) (j k : ℕ) :
    cell C (number base j) = cell C (number base k) ↔ j ≡ k [MOD period C] := by
  rw [← Fin.val_inj, cell_val, cell_val, number_toNat, number_toNat]
  obtain ⟨e, rfl⟩ := hC
  rcases Nat.le_total e 32 with he | he
  · -- the ring divides the number space, so the outer remainder absorbs the inner one
    have hdvd : 2 ^ e ∣ 2 ^ 32 := Nat.pow_dvd_pow 2 he
    rw [Nat.mod_mod_of_dvd _ hdvd, Nat.mod_mod_of_dvd _ hdvd,
      period_eq (Nat.pow_le_pow_right (by decide) he)]
    exact ⟨Nat.ModEq.add_left_cancel' base.toNat, Nat.ModEq.add_left base.toNat⟩
  · -- the ring is at least as large as the number space, so a cell is a number
    have hle : 2 ^ 32 ≤ 2 ^ e := Nat.pow_le_pow_right (by decide) he
    have hlt (x : ℕ) : x % 2 ^ 32 < 2 ^ e := lt_of_lt_of_le (Nat.mod_lt _ (by decide)) hle
    rw [Nat.mod_eq_of_lt (hlt _), Nat.mod_eq_of_lt (hlt _), period, Nat.min_eq_right hle]
    exact ⟨Nat.ModEq.add_left_cancel' base.toNat, Nat.ModEq.add_left base.toNat⟩

/-- Positions less than one period apart are congruent only when equal. -/
theorem eq_of_modEq_of_lt {P j k : ℕ} (h : j ≡ k [MOD P]) (hjk : j ≤ k) (hk : k < j + P) :
    j = k := by
  obtain ⟨c, hc⟩ := (Nat.modEq_iff_dvd' hjk).mp h
  rcases Nat.eq_zero_or_pos c with rfl | hpos
  · omega
  · have hP : P ≤ P * c := Nat.le_mul_of_pos_right P hpos
    omega

end SequentialExchange.WrapNumbering
