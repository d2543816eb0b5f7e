import Mathlib.Data.Int.Log
import Mathlib.Data.Rat.Floor
import Mathlib.Tactic.FieldSimp
import Mathlib.Tactic.Linarith
import Mathlib.Tactic.Positivity
import Mathlib.Tactic.Ring

/-!
Rounding half to even, to an integer and to a number of significant digits, with the error that each
of them makes. A number with a small denominator is either half way between two integers or well
away from there, so a small error before the last rounding does not show in its result.
-/

namespace Collector.Lib

/-- The nearest integer, halves to even. -/
def roundHalfEven (x : ℚ) : ℤ :=
  if Int.fract x < 1 / 2 ∨ Int.fract x = 1 / 2 ∧ ⌊x⌋ % 2 = 0 then ⌊x⌋ else ⌊x⌋ + 1

/-- `x` in so many digits of the base. -/
def significant (base digits : ℕ) (x : ℚ) : ℚ :=
  let unit := (base : ℚ) ^ (Int.log base x - digits + 1)
  roundHalfEven (x / unit) * unit

theorem abs_roundHalfEven_sub (x : ℚ) : |(roundHalfEven x : ℚ) - x| ≤ 1 / 2 := by
  have split := Int.floor_add_fract x
  have low := Int.fract_nonneg x
  have high := Int.fract_lt_one x
  rw [abs_le]
  unfold roundHalfEven
  split_ifs with near
  · have half : Int.fract x ≤ 1 / 2 := near.elim le_of_lt fun tie => tie.1.le
    constructor <;> linarith
  · have half : 1 / 2 ≤ Int.fract x := not_lt.mp fun less => near (.inl less)
    push_cast
    constructor <;> linarith

theorem roundHalfEven_eq {x : ℚ} {n : ℤ} (near : |x - n| < 1 / 2) : roundHalfEven x = n := by
  have error := abs_le.mp (abs_roundHalfEven_sub x)
  rw [abs_lt] at near
  have below : ((roundHalfEven x - n : ℤ) : ℚ) < ((1 : ℤ) : ℚ) := by push_cast; linarith
  have above : ((-1 : ℤ) : ℚ) < ((roundHalfEven x - n : ℤ) : ℚ) := by push_cast; linarith
  have small := Int.cast_lt.mp below
  have large := Int.cast_lt.mp above
  omega

theorem roundHalfEven_nonneg {x : ℚ} (positive : 0 ≤ x) : 0 ≤ roundHalfEven x := by
  have error := abs_le.mp (abs_roundHalfEven_sub x)
  have above : ((-1 : ℤ) : ℚ) < (roundHalfEven x : ℚ) := by push_cast; linarith
  have large := Int.cast_lt.mp above
  omega

/-- Half a unit of the last digit is a small part of the number. -/
theorem abs_significant_sub (base digits : ℕ) (large : 1 < base) {x : ℚ} (positive : 0 ≤ x) :
    |significant base digits x - x| ≤ x * (base : ℚ) ^ (1 - digits : ℤ) / 2 := by
  rcases positive.eq_or_lt with rfl | positive
  · simp [significant, roundHalfEven]
  have basePositive : (0 : ℚ) < base := by exact_mod_cast zero_lt_one.trans large
  set unit := (base : ℚ) ^ (Int.log base x - digits + 1) with scale
  have unitPositive : 0 < unit := zpow_pos basePositive _
  have part : unit ≤ x * (base : ℚ) ^ (1 - digits : ℤ) := by
    calc unit = (base : ℚ) ^ Int.log base x * (base : ℚ) ^ (1 - digits : ℤ) := by
          rw [← zpow_add₀ basePositive.ne', scale]
          congr 1
          ring
      _ ≤ x * (base : ℚ) ^ (1 - digits : ℤ) :=
          mul_le_mul_of_nonneg_right (Int.zpow_log_le_self large positive) (zpow_pos basePositive _).le
  have scaled : significant base digits x - x = (roundHalfEven (x / unit) - x / unit) * unit := by
    rw [significant, ← scale]
    field_simp
  rw [scaled, abs_mul, abs_of_pos unitPositive]
  have error := mul_le_mul_of_nonneg_right (abs_roundHalfEven_sub (x / unit)) unitPositive.le
  linarith

/-! ## Small denominators -/

section Denominators

variable {x : ℚ} {r : ℕ}

/-- The number is a fraction over `r`. -/
def Over (r : ℕ) (x : ℚ) : Prop := ∃ n : ℤ, x * r = n

theorem Over.fract (fraction : Over r x) : ∃ m : ℤ, Int.fract x * r = m := by
  obtain ⟨n, same⟩ := fraction
  refine ⟨n - ⌊x⌋ * r, ?_⟩
  rw [Int.fract, sub_mul, same]
  push_cast
  ring

/-- Unless it is a half, the fraction keeps away from it. -/
theorem Over.fract_gap (fraction : Over r x) (positive : 0 < r) :
    (Int.fract x < 1 / 2 → Int.fract x ≤ 1 / 2 - 1 / (2 * r)) ∧
      (1 / 2 < Int.fract x → 1 / 2 + 1 / (2 * r) ≤ Int.fract x) := by
  obtain ⟨m, same⟩ := fraction.fract
  have denominator : (0 : ℚ) < r := by exact_mod_cast positive
  have quotient : Int.fract x = m / r := by rw [← same, mul_div_cancel_right₀ _ denominator.ne']
  rw [quotient]
  constructor
  · intro below
    rw [div_lt_iff₀ denominator] at below
    have whole : 2 * m < (r : ℤ) := by
      have cast : ((2 * m : ℤ) : ℚ) < ((r : ℤ) : ℚ) := by push_cast; linarith
      exact Int.cast_lt.mp cast
    have cast : ((2 * m + 1 : ℤ) : ℚ) ≤ ((r : ℤ) : ℚ) := Int.cast_le.mpr whole
    push_cast at cast
    rw [div_le_iff₀ denominator]
    field_simp
    linarith
  · intro above
    rw [lt_div_iff₀ denominator] at above
    have whole : (r : ℤ) < 2 * m := by
      have cast : ((r : ℤ) : ℚ) < ((2 * m : ℤ) : ℚ) := by push_cast; linarith
      exact Int.cast_lt.mp cast
    have cast : (((r : ℤ) + 1 : ℤ) : ℚ) ≤ ((2 * m : ℤ) : ℚ) := Int.cast_le.mpr whole
    push_cast at cast
    rw [le_div_iff₀ denominator]
    field_simp
    linarith

/-- Rounding what is close to `x` goes below `x` exactly when the fraction of `x` is less than a half
and not zero, or is a half and the rounding goes down there. -/
theorem le_roundHalfEven_iff {y : ℚ} (fraction : Over r x) (positive : 0 < r)
    (close : |y - x| < 1 / (2 * r)) :
    x ≤ roundHalfEven y ↔
      Int.fract x = 0 ∨ 1 / 2 < Int.fract x ∨ Int.fract x = 1 / 2 ∧ x < roundHalfEven y := by
  obtain ⟨low, high⟩ := fraction.fract_gap positive
  have denominator : (1 : ℚ) ≤ r := by exact_mod_cast positive
  have half : (1 : ℚ) / (2 * r) ≤ 1 / 2 := by
    rw [div_le_div_iff₀ (by positivity) (by norm_num)]
    linarith
  have split := Int.floor_add_fract x
  have nonneg := Int.fract_nonneg x
  have lessOne := Int.fract_lt_one x
  rw [abs_lt] at close
  rcases lt_trichotomy (Int.fract x) (1 / 2) with below | tie | above
  · have down : roundHalfEven y = ⌊x⌋ := by
      apply roundHalfEven_eq
      have bound := low below
      rw [abs_lt]
      constructor <;> linarith
    rw [down]
    constructor
    · intro whole
      left
      linarith
    · rintro (zero | far | ⟨equal, -⟩) <;> linarith
  · have odd : x ≠ roundHalfEven y := by
      intro same
      rw [same, Int.fract_intCast] at tie
      norm_num at tie
    rw [tie]
    constructor
    · exact fun le => .inr (.inr ⟨rfl, lt_of_le_of_ne le odd⟩)
    · rintro (zero | far | ⟨-, less⟩)
      · norm_num at zero
      · exact absurd far (lt_irrefl _)
      · exact less.le
  · have up : roundHalfEven y = ⌊x⌋ + 1 := by
      apply roundHalfEven_eq
      have bound := high above
      push_cast
      rw [abs_lt]
      constructor <;> linarith
    rw [up]
    constructor
    · exact fun _ => .inr (.inl above)
    · intro _
      push_cast
      linarith

end Denominators

end Collector.Lib
