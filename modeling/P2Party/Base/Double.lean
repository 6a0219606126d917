import Mathlib.Algebra.Order.Field.Power
import Mathlib.Algebra.Order.Round
import Mathlib.Data.Int.Log
import Mathlib.Data.Nat.Cast.Order.Field
import Mathlib.Data.Rat.Floor
import Mathlib.Tactic.FieldSimp
import Mathlib.Tactic.Linarith
import Mathlib.Tactic.NormNum
import Mathlib.Tactic.Positivity
import Mathlib.Tactic.Ring

/-!
# Numbers of 53 bits

Where every number has 53 significant bits, an operation gives the number nearest to the exact
result, and of two the one whose last bit is zero. Exact results are rationals here; nothing is said
about results so large or so small that the exponent does not fit.

- `roundEven`: the nearest whole number;
- `nearest`: the nearest number, `nearest_intCast`: whole numbers up to `2 ^ 53` are numbers;
- `floor_nearest_div`: a quotient of whole numbers keeps its whole part;
- `number`: what becomes of a whole number.
-/

namespace Base

namespace Double

/-- The nearest whole number, of two the even one. -/
def roundEven (q : ℚ) : ℤ :=
  if Int.fract q < 1 / 2 ∨ (Int.fract q = 1 / 2 ∧ Even ⌊q⌋) then ⌊q⌋ else ⌊q⌋ + 1

/-- The weight of the last bit. -/
def ulp (q : ℚ) : ℚ := 2 ^ (Int.log 2 |q| - 52)

/-- The nearest number. -/
def nearest (q : ℚ) : ℚ := roundEven (q / ulp q) * ulp q

/-- The number nearest to a whole number. -/
def number (z : ℤ) : ℤ := ⌊nearest z⌋

/-! ## Whole numbers -/

@[simp] theorem roundEven_intCast (z : ℤ) : roundEven z = z := by
  rw [roundEven, Int.fract_intCast, Int.floor_intCast, if_pos (Or.inl (by norm_num))]

theorem roundEven_sub_le (q : ℚ) : roundEven q - q ≤ 1 / 2 := by
  have hfract := Int.self_sub_floor q
  rw [roundEven]
  split_ifs with h
  · linarith [Int.fract_nonneg q]
  · push Not at h
    push_cast
    linarith [h.1]

/-- Rounding passes no whole number. -/
theorem le_roundEven {z : ℤ} {q : ℚ} (h : (z : ℚ) ≤ q) : z ≤ roundEven q := by
  have hfloor : z ≤ ⌊q⌋ := Int.le_floor.mpr h
  rw [roundEven]
  split_ifs
  · exact hfloor
  · exact hfloor.trans (Int.le_add_one le_rfl)

/-! ## The last bit -/

theorem ulp_pos (q : ℚ) : 0 < ulp q := zpow_pos two_pos _

/-- The first of the 53 bits is there. -/
theorem ulp_le {q : ℚ} (hq : 0 < q) : ulp q * 2 ^ 52 ≤ q := by
  have hlog : ((2 : ℕ) : ℚ) ^ Int.log 2 q ≤ q := Int.zpow_log_le_self one_lt_two hq
  have hsplit : ulp q * 2 ^ 52 = 2 ^ Int.log 2 q := by
    rw [ulp, abs_of_pos hq, ← zpow_natCast, ← zpow_add₀ two_ne_zero]
    norm_num
  rw [hsplit]
  exact_mod_cast hlog

/-- Below `2 ^ 53` the last bit divides whole numbers. -/
theorem exists_ulp_inv {q : ℚ} (hq : |q| < 2 ^ 53) : ∃ k : ℕ, ulp q = (2 ^ k : ℚ)⁻¹ := by
  have hlog : Int.log 2 |q| ≤ 52 := by
    rcases (abs_nonneg q).eq_or_lt with h0 | hpos
    · rw [← h0, Int.log_zero_right]
      norm_num
    · have hlt := (Int.lt_zpow_iff_log_lt one_lt_two hpos (x := 53)).mp (by exact_mod_cast hq)
      omega
  refine ⟨(52 - Int.log 2 |q|).toNat, ?_⟩
  rw [ulp, ← zpow_natCast, ← zpow_neg, Int.toNat_of_nonneg (by omega), neg_sub]

theorem nearest_of_multiple {q : ℚ} {m : ℤ} (h : q = m * ulp q) : nearest q = q := by
  have hdiv : q / ulp q = m := by
    rw [div_eq_iff (ulp_pos q).ne']
    exact h
  rw [nearest, hdiv, roundEven_intCast]
  exact h.symm

theorem nearest_neg_of_multiple {q : ℚ} {m : ℤ} (h : q = m * ulp q) : nearest (-q) = -q := by
  refine nearest_of_multiple (m := -m) ?_
  have hulp : ulp (-q) = ulp q := by rw [ulp, ulp, abs_neg]
  rw [hulp]
  push_cast
  linarith [h]

/-- Whole numbers up to `2 ^ 53` are numbers. -/
theorem nearest_intCast {z : ℤ} (hz : |z| ≤ 2 ^ 53) : nearest z = z := by
  rcases hz.eq_or_lt with hmax | hlt
  · -- the only ones with 54 digits end in zeros
    have hulp : ulp ((2 : ℚ) ^ 53) = 2 := by
      have hlog : Int.log 2 ((2 : ℚ) ^ 53) = 53 := by
        exact_mod_cast Int.log_zpow (R := ℚ) one_lt_two 53
      rw [ulp, abs_of_pos (by positivity), hlog]
      norm_num
    have hmultiple : (2 : ℚ) ^ 53 = ((2 ^ 52 : ℤ) : ℚ) * ulp ((2 : ℚ) ^ 53) := by
      rw [hulp]
      norm_num
    rcases abs_choice z with h | h
    · have hz' : (z : ℚ) = 2 ^ 53 := by exact_mod_cast h.symm.trans hmax
      rw [hz']
      exact nearest_of_multiple hmultiple
    · have hz' : (z : ℚ) = -2 ^ 53 := by
        have : z = -2 ^ 53 := by omega
        exact_mod_cast this
      rw [hz']
      exact nearest_neg_of_multiple hmultiple
  · obtain ⟨k, hk⟩ := exists_ulp_inv (q := z) (by exact_mod_cast hlt)
    refine nearest_of_multiple (m := z * 2 ^ k) ?_
    rw [hk]
    push_cast
    field_simp

theorem number_of_le {z : ℤ} (hz : |z| ≤ 2 ^ 53) : number z = z := by
  rw [number, nearest_intCast hz, Int.floor_intCast]

/-! ## Quotients -/

theorem intCast_le_nearest {z : ℤ} {q : ℚ} (hq : |q| < 2 ^ 53) (h : (z : ℚ) ≤ q) :
    (z : ℚ) ≤ nearest q := by
  obtain ⟨k, hk⟩ := exists_ulp_inv hq
  have hpow : (0 : ℚ) < 2 ^ k := by positivity
  have hle : ((z * 2 ^ k : ℤ) : ℚ) ≤ q / ulp q := by
    rw [hk, div_inv_eq_mul]
    push_cast
    exact mul_le_mul_of_nonneg_right h hpow.le
  have hround : ((z * 2 ^ k : ℤ) : ℚ) ≤ roundEven (q / ulp q) := by exact_mod_cast le_roundEven hle
  calc (z : ℚ) = ((z * 2 ^ k : ℤ) : ℚ) * ulp q := by
        rw [hk]
        push_cast
        field_simp
    _ ≤ roundEven (q / ulp q) * ulp q := mul_le_mul_of_nonneg_right hround (ulp_pos q).le

theorem nearest_le {q : ℚ} (hq : 0 < q) : nearest q ≤ q + q / 2 ^ 53 := by
  have hulp := ulp_le hq
  have hpos := ulp_pos q
  have hround := roundEven_sub_le (q / ulp q)
  calc nearest q ≤ (q / ulp q + 1 / 2) * ulp q := by
        refine mul_le_mul_of_nonneg_right ?_ hpos.le
        linarith
    _ = q + ulp q / 2 := by field_simp
    _ ≤ q + q / 2 ^ 53 := by
        rw [div_eq_mul_inv q]
        norm_num at hulp ⊢
        linarith

/-- **A quotient of whole numbers keeps its whole part**: its distance to the next whole number is
more than rounding adds. -/
theorem floor_nearest_div {a b : ℕ} (ha : a < 2 ^ 53) (hb : 0 < b) :
    ⌊nearest ((a : ℚ) / b)⌋ = ((a / b : ℕ) : ℤ) := by
  rcases Nat.eq_zero_or_pos a with rfl | hapos
  · have h0 : nearest (0 : ℚ) = 0 := by exact_mod_cast nearest_intCast (z := 0) (by norm_num)
    rw [Nat.cast_zero, zero_div, h0, Nat.zero_div, Int.floor_zero, Nat.cast_zero]
  · have hb' : (0 : ℚ) < b := by exact_mod_cast hb
    have ha' : (0 : ℚ) < a := by exact_mod_cast hapos
    have hlt : (a : ℚ) < 2 ^ 53 := by exact_mod_cast ha
    have hq : (0 : ℚ) < a / b := div_pos ha' hb'
    have hle : ((a / b : ℕ) : ℚ) ≤ a / b := Nat.cast_div_le
    have hnext : (a : ℚ) + 1 ≤ ((a / b : ℕ) + 1 : ℚ) * b := by
      have := Nat.lt_div_mul_add hb (a := a)
      have hnat : a + 1 ≤ (a / b + 1) * b := by
        rw [Nat.succ_mul]
        exact this
      exact_mod_cast hnat
    rw [Int.floor_eq_iff]
    constructor
    · refine intCast_le_nearest ?_ (by exact_mod_cast hle)
      rw [abs_of_pos hq]
      calc (a : ℚ) / b ≤ a := div_le_self ha'.le (by exact_mod_cast hb)
        _ < 2 ^ 53 := hlt
    · calc nearest ((a : ℚ) / b) ≤ a / b + a / b / 2 ^ 53 := nearest_le hq
        _ < (a + 1) / b := by
            rw [add_div, div_right_comm]
            refine add_lt_add_right ?_ _
            refine div_lt_div_of_pos_right ?_ hb'
            rwa [div_lt_one (by positivity)]
        _ ≤ ((a / b : ℕ) : ℤ) + 1 := by
            rw [div_le_iff₀ hb']
            exact_mod_cast hnext

/-! ## Too large -/

/-- The first whole number that is not a number is rounded down. -/
theorem number_succ_max : number (2 ^ 53 + 1) = 2 ^ 53 := by
  have hlog : Int.log 2 ((2 : ℚ) ^ 53 + 1) = 53 := by
    have hcast : ((2 : ℚ) ^ 53 + 1) = ((2 ^ 53 + 1 : ℕ) : ℚ) := by norm_num
    have hnat : Nat.log 2 (2 ^ 53 + 1) = 53 :=
      (Nat.log_eq_iff (Or.inl (by norm_num))).mpr ⟨by norm_num, by norm_num⟩
    rw [hcast, Int.log_natCast, hnat]
    rfl
  have hulp : ulp ((2 : ℚ) ^ 53 + 1) = 2 := by
    rw [ulp, abs_of_pos (by positivity), hlog]
    norm_num
  have hround : roundEven (((2 : ℚ) ^ 53 + 1) / 2) = 2 ^ 52 := by
    have hfloor : ⌊((2 : ℚ) ^ 53 + 1) / 2⌋ = 2 ^ 52 := by
      rw [Int.floor_eq_iff]
      constructor <;> norm_num
    have hfract : Int.fract (((2 : ℚ) ^ 53 + 1) / 2) = 1 / 2 := by
      rw [← Int.self_sub_floor, hfloor]
      norm_num
    rw [roundEven, hfract, hfloor, if_pos (Or.inr ⟨rfl, ⟨2 ^ 51, by norm_num⟩⟩)]
  have hnearest : nearest ((2 : ℚ) ^ 53 + 1) = ((2 ^ 53 : ℤ) : ℚ) := by
    rw [nearest, hulp, hround]
    norm_num
  have hcast : ((2 ^ 53 + 1 : ℤ) : ℚ) = 2 ^ 53 + 1 := by norm_num
  rw [number, hcast, hnearest, Int.floor_intCast]

end Double

end Base
