import Collector.Lib.JsonText
import Mathlib.Algebra.Order.Field.Power
import Mathlib.Algebra.Order.Ring.Rat
import Mathlib.Tactic.Linarith
import Mathlib.Tactic.FieldSimp
import Mathlib.Tactic.Ring

/-!
Finite decimals under a context that limits digits and exponents. A number that some decimal within
the limits denotes keeps its value under `normalize`, which then only drops trailing zeros. Whatever
`normalize` returns lies within the limits, so any other number is changed or refused.
-/

namespace Collector.Lib

/-- A finite decimal. -/
structure Decimal where
  negative : Bool
  coefficient : Nat
  exponent : Int
  deriving DecidableEq, Repr

/-- What a context traps. -/
inductive DecimalSignal where
  | overflow
  deriving DecidableEq, Repr

structure DecimalContext where
  precision : Nat
  minExponent : Int
  maxExponent : Int
  precise : 0 < precision
  ordered : minExponent ≤ maxExponent

/-- `Etiny`. -/
def DecimalContext.tiny (context : DecimalContext) : Int :=
  context.minExponent - context.precision + 1

/-- `Etop`. -/
def DecimalContext.top (context : DecimalContext) : Int :=
  context.maxExponent - context.precision + 1

/-- The quotient, rounded to the nearest and halves to even. -/
def divHalfEven (a b : Nat) : Nat :=
  if a % b * 2 < b ∨ a % b * 2 = b ∧ a / b % 2 = 0 then a / b else a / b + 1

namespace Decimal

def value (d : Decimal) : ℚ := (if d.negative then -1 else 1) * (d.coefficient * 10 ^ d.exponent)

def digits (d : Decimal) : List Char := Nat.toDigits 10 d.coefficient

/-- The exponent at which the last digit that fits stands. -/
def leastExponent (context : DecimalContext) (d : Decimal) : Int :=
  max (d.digits.length + d.exponent - context.precision) context.tiny

/-- The number within the context, rounded half to even. -/
def fix (context : DecimalContext) (d : Decimal) : Except DecimalSignal Decimal :=
  if d.coefficient = 0 then
    .ok { d with exponent := min (max d.exponent context.tiny) context.maxExponent }
  else if context.top < d.digits.length + d.exponent - context.precision then .error .overflow
  else
    let least := d.leastExponent context
    if d.exponent < least then
      let rounded := divHalfEven d.coefficient (10 ^ (least - d.exponent).toNat)
      -- Rounded up to a power of ten, the coefficient has a digit too many.
      if context.precision < (Nat.toDigits 10 rounded).length then
        if context.top < least + 1 then .error .overflow
        else .ok { d with coefficient := rounded / 10, exponent := least + 1 }
      else .ok { d with coefficient := rounded, exponent := least }
    else .ok d

/-- Trailing zeros are taken off while the exponent may grow; `left` bounds their number. -/
def stripZeros (maxExponent : Int) : Nat → Nat → Int → Nat × Int
  | 0, coefficient, exponent => (coefficient, exponent)
  | left + 1, coefficient, exponent =>
    if coefficient % 10 = 0 ∧ exponent < maxExponent then
      stripZeros maxExponent left (coefficient / 10) (exponent + 1)
    else (coefficient, exponent)

def normalize (context : DecimalContext) (d : Decimal) : Except DecimalSignal Decimal := do
  let fixed ← d.fix context
  if fixed.coefficient = 0 then
    return ⟨fixed.negative, 0, 0⟩
  let (coefficient, exponent) :=
    stripZeros context.maxExponent fixed.digits.length fixed.coefficient fixed.exponent
  return ⟨fixed.negative, coefficient, exponent⟩

end Decimal

/-! ## Sizes -/

theorem length_toDigits_le {c k : Nat} (positive : 0 < k) :
    (Nat.toDigits 10 c).length ≤ k ↔ c < 10 ^ k :=
  Nat.length_toDigits_le_iff (by decide) positive

theorem lt_pow_length (c : Nat) : c < 10 ^ (Nat.toDigits 10 c).length :=
  (length_toDigits_le Nat.length_toDigits_pos).mp le_rfl

theorem pow_length_le {c : Nat} (positive : c ≠ 0) : 10 ^ ((Nat.toDigits 10 c).length - 1) ≤ c := by
  by_contra small
  rw [not_le] at small
  have length : 0 < (Nat.toDigits 10 c).length := Nat.length_toDigits_pos
  by_cases one : (Nat.toDigits 10 c).length = 1
  · rw [one] at small
    simp at small
    exact positive small
  · have shorter := (length_toDigits_le (c := c) (k := (Nat.toDigits 10 c).length - 1)
      (by omega)).mpr small
    omega

theorem divHalfEven_le (a b : Nat) : divHalfEven a b ≤ a / b + 1 := by
  unfold divHalfEven
  split <;> omega

theorem divHalfEven_of_dvd {a b : Nat} (positive : 0 < b) (divides : b ∣ a) :
    divHalfEven a b = a / b := by
  rw [divHalfEven, Nat.mod_eq_zero_of_dvd divides, if_pos (.inl (by omega))]

theorem pow_length_le_pow {c k : Nat} (positive : c ≠ 0) (below : c < 10 ^ k) :
    (Nat.toDigits 10 c).length ≤ k := by
  cases k with
  | zero => simp at below; exact absurd below positive
  | succ k => exact (length_toDigits_le k.succ_pos).mpr below

/-- Powers of ten meet by their exponents. -/
theorem pow_lt_pow {i j : Int} (less : (10 : ℚ) ^ i < 10 ^ j) : i < j :=
  (zpow_lt_zpow_iff_right₀ (by norm_num)).mp less

theorem natCast_mul_zpow {c k : Nat} {e : Int} :
    ((c * 10 ^ k : Nat) : ℚ) * 10 ^ e = c * 10 ^ (e + k) := by
  rw [zpow_add₀ (by norm_num), zpow_natCast]
  push_cast
  ring

/-! ## Fitting a context -/

namespace Decimal

def magnitude (d : Decimal) : ℚ := d.coefficient * 10 ^ d.exponent

/-- Neither a digit too many nor an exponent out of range. -/
structure Fits (context : DecimalContext) (d : Decimal) : Prop where
  digits : d.coefficient < 10 ^ context.precision
  least : context.tiny ≤ d.exponent
  below : d.magnitude < 10 ^ (context.maxExponent + 1)

/-- Some decimal of this value fits the context. -/
def Representable (context : DecimalContext) (x : ℚ) : Prop :=
  ∃ d : Decimal, d.Fits context ∧ d.value = x

theorem value_eq (d : Decimal) : d.value = (if d.negative then -1 else 1) * d.magnitude := rfl

theorem abs_value (d : Decimal) : |d.value| = d.magnitude := by
  have positive : (0 : ℚ) ≤ d.magnitude := by unfold magnitude; positivity
  rw [value_eq]
  split <;> simp [abs_of_nonneg positive]

theorem magnitude_lt {d : Decimal} {k : Nat} (below : d.coefficient < 10 ^ k) :
    d.magnitude < 10 ^ (k + d.exponent) := by
  rw [magnitude, zpow_add₀ (by norm_num), zpow_natCast]
  have cast : (d.coefficient : ℚ) < 10 ^ k := by exact_mod_cast below
  exact mul_lt_mul_of_pos_right cast (by positivity)

theorem le_magnitude {d : Decimal} {k : Nat} (least : 10 ^ k ≤ d.coefficient) :
    10 ^ (k + d.exponent) ≤ d.magnitude := by
  rw [magnitude, zpow_add₀ (by norm_num), zpow_natCast]
  have cast : (10 : ℚ) ^ k ≤ d.coefficient := by exact_mod_cast least
  exact mul_le_mul_of_nonneg_right cast (by positivity)

/-- Digits that lie in the range of a context are below its bound. -/
theorem Fits.of_digits {context : DecimalContext} {d : Decimal}
    (digits : d.coefficient < 10 ^ context.precision) (least : context.tiny ≤ d.exponent)
    (top : d.exponent ≤ context.top) : d.Fits context := by
  refine ⟨digits, least, (magnitude_lt digits).trans_le ?_⟩
  apply zpow_le_zpow_right₀ (by norm_num)
  unfold DecimalContext.top at top
  omega

section Fix

variable {context : DecimalContext} {d fixed : Decimal}

theorem tiny_le_top : context.tiny ≤ context.top := by
  have ordered := context.ordered
  unfold DecimalContext.tiny DecimalContext.top
  omega

/-- The digits that rounding takes off leave no more than the context allows. -/
theorem coefficient_lt {k : Nat} (off : d.digits.length ≤ context.precision + k) :
    d.coefficient < 10 ^ context.precision * 10 ^ k := by
  rw [← pow_add]
  exact (lt_pow_length _).trans_le (Nat.pow_le_pow_right (by decide) off)

theorem rounded_le {k : Nat} (off : d.digits.length ≤ context.precision + k) :
    divHalfEven d.coefficient (10 ^ k) ≤ 10 ^ context.precision := by
  have quotient : d.coefficient / 10 ^ k < 10 ^ context.precision :=
    (Nat.div_lt_iff_lt_mul (by positivity)).mpr (coefficient_lt off)
  have atMost := divHalfEven_le d.coefficient (10 ^ k)
  omega

theorem length_le_leastExponent :
    (d.digits.length : Int) ≤ context.precision + (d.leastExponent context - d.exponent).toNat := by
  have left := le_max_left (d.digits.length + d.exponent - context.precision : Int) context.tiny
  unfold leastExponent
  omega

theorem leastExponent_le_top
    (inRange : ¬context.top < d.digits.length + d.exponent - context.precision) :
    d.leastExponent context ≤ context.top :=
  max_le (not_lt.mp inRange) tiny_le_top

/-- Whatever the context lets through fits it. -/
theorem fits_of_fix (run : d.fix context = .ok fixed) : fixed.Fits context := by
  have tinyTop : context.tiny ≤ context.top := tiny_le_top
  have precise := context.precise
  have leastTiny : context.tiny ≤ d.leastExponent context := le_max_right _ _
  unfold fix at run
  split at run
  case isTrue zero =>
    injection run with run
    subst run
    have ordered := context.ordered
    refine ⟨?_, ?_, ?_⟩
    · rw [zero]; positivity
    · unfold DecimalContext.tiny
      simp only
      omega
    · simp only [magnitude, zero]
      simp
      positivity
  case isFalse positive =>
    split at run
    · cases run
    rename_i inRange
    have leastTop := leastExponent_le_top inRange
    have enough : (d.digits.length : Int) ≤
      context.precision + (d.leastExponent context - d.exponent).toNat := length_le_leastExponent
    simp only at run
    split at run
    case isFalse exact' =>
      injection run with run
      subst run
      have atLeast : d.leastExponent context ≤ d.exponent := not_lt.mp exact'
      have few : d.digits.length ≤ context.precision := by omega
      refine ⟨(lt_pow_length _).trans_le (Nat.pow_le_pow_right (by decide) few), by omega, ?_⟩
      apply (magnitude_lt (lt_pow_length d.coefficient)).trans_le
      apply zpow_le_zpow_right₀ (by norm_num)
      unfold DecimalContext.top at inRange
      change (d.digits.length : Int) + d.exponent ≤ _
      omega
    case isTrue below =>
      have small := rounded_le (Int.ofNat_le.mp (by push_cast; omega) :
        d.digits.length ≤ context.precision + (d.leastExponent context - d.exponent).toNat)
      split at run
      case isTrue carry =>
        split at run
        · cases run
        rename_i carried
        injection run with run
        subst run
        apply Fits.of_digits
        · have positive : 0 < 10 ^ context.precision := by positivity
          simp only
          omega
        · simp only; omega
        · simp only; omega
      case isFalse short =>
        injection run with run
        subst run
        apply Fits.of_digits
        · exact (length_toDigits_le precise).mp (not_lt.mp short)
        · exact leastTiny
        · exact leastTop

/-- A number of the same size as one that fits is in range, and its last digit that fits stands
no lower. -/
theorem leastExponent_le {other : Decimal} (positive : d.coefficient ≠ 0) (fits : other.Fits context)
    (same : other.magnitude = d.magnitude) :
    ¬context.top < d.digits.length + d.exponent - context.precision ∧
      d.leastExponent context ≤ other.exponent := by
  have size : (10 : ℚ) ^ (((d.digits.length - 1 : Nat) : Int) + d.exponent) ≤ d.magnitude :=
    le_magnitude (pow_length_le positive)
  have length : 0 < d.digits.length := Nat.length_toDigits_pos
  rw [← same] at size
  have inRange := pow_lt_pow (size.trans_lt fits.below)
  have digits := pow_lt_pow (size.trans_lt (magnitude_lt fits.digits))
  constructor
  · unfold DecimalContext.top
    omega
  · apply max_le
    · omega
    · exact fits.least

/-- So rounding it takes off nothing but zeros. -/
theorem pow_dvd {other : Decimal} (below : d.exponent ≤ other.exponent)
    (same : other.magnitude = d.magnitude) :
    d.coefficient = other.coefficient * 10 ^ (other.exponent - d.exponent).toNat := by
  have shifted : ((other.coefficient * 10 ^ (other.exponent - d.exponent).toNat : Nat) : ℚ) *
      10 ^ d.exponent = d.coefficient * 10 ^ d.exponent := by
    rw [natCast_mul_zpow, Int.toNat_of_nonneg (by omega), add_sub_cancel]
    exact same
  have cancelled := mul_right_cancel₀ (zpow_ne_zero _ (by norm_num)) shifted
  exact_mod_cast cancelled.symm

/-- A number that the context can represent goes through unchanged. -/
theorem fix_of_fits {other : Decimal} (fits : other.Fits context)
    (same : other.magnitude = d.magnitude) :
    ∃ fixed, d.fix context = .ok fixed ∧ fixed.value = d.value := by
  unfold fix
  by_cases zero : d.coefficient = 0
  · rw [if_pos zero]
    exact ⟨_, rfl, by simp [value, zero]⟩
  rw [if_neg zero]
  obtain ⟨inRange, least⟩ := leastExponent_le zero fits same
  rw [if_neg inRange]
  by_cases below : d.exponent < d.leastExponent context
  swap
  · simp only [if_neg below]
    exact ⟨d, rfl, rfl⟩
  -- The digits that go are zeros of the other number's last digit.
  set k := (d.leastExponent context - d.exponent).toNat with hk
  have zeros : d.coefficient =
      other.coefficient * 10 ^ (other.exponent - d.leastExponent context).toNat * 10 ^ k := by
    rw [mul_assoc, ← pow_add, pow_dvd (by omega) same]
    congr 2
    omega
  have exactly : divHalfEven d.coefficient (10 ^ k) =
      other.coefficient * 10 ^ (other.exponent - d.leastExponent context).toNat := by
    rw [divHalfEven_of_dvd (by positivity) ⟨_, (zeros.trans (mul_comm _ _))⟩, zeros,
      Nat.mul_div_cancel _ (by positivity)]
  have few : divHalfEven d.coefficient (10 ^ k) < 10 ^ context.precision := by
    have enough : (d.digits.length : Int) ≤ context.precision + k := length_le_leastExponent
    have bound : d.coefficient < 10 ^ context.precision * 10 ^ k := coefficient_lt (by omega)
    rw [zeros, ← exactly] at bound
    exact Nat.lt_of_mul_lt_mul_right bound
  have short : ¬context.precision < (Nat.toDigits 10 (divHalfEven d.coefficient (10 ^ k))).length :=
    not_lt.mpr ((length_toDigits_le context.precise).mpr few)
  simp only [if_pos below, ← hk, if_neg short]
  refine ⟨_, rfl, ?_⟩
  have kept : ((divHalfEven d.coefficient (10 ^ k) : Nat) : ℚ) * 10 ^ d.leastExponent context =
      d.coefficient * 10 ^ d.exponent := by
    conv_rhs => rw [zeros, ← exactly, natCast_mul_zpow]
    congr 2
    omega
  simp only [value, kept]

end Fix

/-! ## Normal form -/

/-- No trailing zero, and one form of zero up to its sign. -/
structure Normal (d : Decimal) : Prop where
  zero : d.coefficient = 0 → d.exponent = 0
  stripped : d.coefficient ≠ 0 → d.coefficient % 10 ≠ 0

/-- Below the bound there is always room to take a zero off, so all of them go. -/
theorem stripZeros_spec {maxExponent : Int} {left coefficient : Nat} {exponent : Int}
    (positive : coefficient ≠ 0) (enough : coefficient < 10 ^ left)
    (below : (coefficient : ℚ) * 10 ^ exponent < 10 ^ (maxExponent + 1)) :
    let stripped := stripZeros maxExponent left coefficient exponent
    stripped.1 % 10 ≠ 0 ∧ (stripped.1 : ℚ) * 10 ^ stripped.2 = coefficient * 10 ^ exponent := by
  induction left generalizing coefficient exponent with
  | zero => exact absurd (Nat.lt_one_iff.mp (by simpa using enough)) positive
  | succ left ih =>
    by_cases divides : coefficient % 10 = 0
    · have tens : coefficient = coefficient / 10 * 10 ^ 1 := by omega
      have value : ((coefficient / 10 : Nat) : ℚ) * 10 ^ (exponent + 1) =
          coefficient * 10 ^ exponent := by
        conv_rhs => rw [tens, natCast_mul_zpow]
        norm_num
      have room : exponent < maxExponent := by
        have ten : (10 : ℚ) ≤ coefficient := by exact_mod_cast (by omega : 10 ≤ coefficient)
        have less : (10 : ℚ) ^ (exponent + 1) < 10 ^ (maxExponent + 1) := by
          calc (10 : ℚ) ^ (exponent + 1) = 10 * 10 ^ exponent := by
                rw [zpow_add₀ (by norm_num), zpow_one, mul_comm]
            _ ≤ coefficient * 10 ^ exponent := mul_le_mul_of_nonneg_right ten (by positivity)
            _ < 10 ^ (maxExponent + 1) := below
        have exponents := pow_lt_pow less
        omega
      have fewer : coefficient / 10 < 10 ^ left := by
        rw [pow_succ] at enough
        omega
      have step := ih (by omega : coefficient / 10 ≠ 0) fewer (value.trans_lt below)
      simp only [stripZeros, if_pos (And.intro divides room)]
      exact ⟨step.1, step.2.trans value⟩
    · simp only [stripZeros, divides, false_and, if_false]
      exact ⟨divides, trivial⟩

/-- `normalize` changes the value only where fitting it to the context does. -/
theorem normalize_eq {context : DecimalContext} {d fixed : Decimal}
    (run : d.fix context = .ok fixed) :
    ∃ normal, d.normalize context = .ok normal ∧ Normal normal ∧ normal.value = fixed.value := by
  unfold normalize
  simp only [run, bind, Except.bind, pure, Except.pure]
  by_cases zero : fixed.coefficient = 0
  · rw [if_pos zero]
    exact ⟨_, rfl, ⟨fun _ => rfl, fun positive => absurd rfl positive⟩, by simp [value, zero]⟩
  · rw [if_neg zero]
    obtain ⟨stripped, same⟩ := stripZeros_spec zero (lt_pow_length _) (fits_of_fix run).below
    refine ⟨_, rfl, ⟨fun absent => absurd absent ?_, fun _ => stripped⟩, ?_⟩
    · exact fun absent => stripped (congrArg (· % 10) absent)
    · simp only [value]
      exact congrArg _ same

theorem normalize_error {context : DecimalContext} {d : Decimal} {signal : DecimalSignal}
    (run : d.fix context = .error signal) : d.normalize context = .error signal := by
  unfold normalize
  simp only [run, bind, Except.bind]

theorem Normal.unique_of_le {d other : Decimal} (normal : d.Normal) (otherNormal : other.Normal)
    (same : d.magnitude = other.magnitude) (le : d.exponent ≤ other.exponent) :
    d.coefficient = other.coefficient ∧ d.exponent = other.exponent := by
  have shifted := pow_dvd le same.symm
  by_cases equal : d.exponent = other.exponent
  · rw [equal, sub_self, Int.toNat_zero, pow_zero, mul_one] at shifted
    exact ⟨shifted, equal⟩
  · have step : (other.exponent - d.exponent).toNat =
        (other.exponent - d.exponent).toNat - 1 + 1 := by omega
    rw [step, pow_succ, ← mul_assoc] at shifted
    have zero : d.coefficient = 0 := by
      by_contra positive
      exact normal.stripped positive (by rw [shifted, Nat.mul_mod_left])
    have otherZero : other.coefficient = 0 := by
      rw [zero, zero_eq_mul, mul_eq_zero] at shifted
      simpa using shifted
    exact ⟨zero.trans otherZero.symm, (normal.zero zero).trans (otherNormal.zero otherZero).symm⟩

/-- Up to the sign of zero, a value has one normal form. -/
theorem Normal.unique {d other : Decimal} (normal : d.Normal) (otherNormal : other.Normal)
    (same : d.magnitude = other.magnitude) :
    d.coefficient = other.coefficient ∧ d.exponent = other.exponent := by
  rcases le_total d.exponent other.exponent with le | le
  · exact normal.unique_of_le otherNormal same le
  · have both := otherNormal.unique_of_le normal same.symm le
    exact ⟨both.1.symm, both.2.symm⟩

end Decimal

end Collector.Lib
