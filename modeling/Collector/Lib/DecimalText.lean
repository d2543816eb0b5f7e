import Collector.Lib.Decimal

/-!
The fixed-point notation of decimals. A plain decimal is a text with one way to write it: no leading
or trailing zeros, no sign on zero. A normal decimal is written as the plain decimal of its value.
-/

namespace Collector.Lib
open JsonText (isDigit isDigit_toDigits toDigits_cases)

/-- A sign, the digits before the point and the digits after it. -/
structure PlainDecimal where
  negative : Bool
  whole : List Char
  fraction : List Char
  wholeDigits : ∀ c ∈ whole, isDigit c = true
  fractionDigits : ∀ c ∈ fraction, isDigit c = true
  someDigit : whole ≠ []
  noLeadingZero : whole.head? = some '0' → whole = ['0']
  noTrailingZero : fraction.getLast? ≠ some '0'
  noNegativeZero : whole = ['0'] → fraction = [] → negative = false

namespace PlainDecimal

/-- The unsigned part of the text. -/
def body (p : PlainDecimal) : List Char :=
  p.whole ++ if p.fraction = [] then [] else '.' :: p.fraction

def text (p : PlainDecimal) : List Char := (if p.negative then ['-'] else []) ++ p.body

/-- The number that the text denotes. -/
def value (p : PlainDecimal) : ℚ :=
  (if p.negative then -1 else 1) *
    (Nat.ofDigitChars 10 (p.whole ++ p.fraction) 0 / 10 ^ p.fraction.length)

theorem takeWhile_body (p : PlainDecimal) : p.body.takeWhile isDigit = p.whole := by
  rw [body, List.takeWhile_append_of_pos p.wholeDigits]
  split
  · simp
  · rw [List.takeWhile_cons_of_neg (by decide), List.append_nil]

theorem body_ne_minus (p : PlainDecimal) (rest : List Char) : p.body ≠ '-' :: rest := by
  intro same
  have digits := p.takeWhile_body
  rw [same, List.takeWhile_cons_of_neg (by decide)] at digits
  exact p.someDigit digits.symm

theorem body_inj {p q : PlainDecimal} (same : p.body = q.body) :
    p.whole = q.whole ∧ p.fraction = q.fraction := by
  have whole : p.whole = q.whole := by rw [← takeWhile_body, ← takeWhile_body, same]
  refine ⟨whole, ?_⟩
  rw [body, body, whole, List.append_cancel_left_eq] at same
  by_cases none : p.fraction = [] <;> by_cases otherNone : q.fraction = []
  · rw [none, otherNone]
  · simp [none, otherNone] at same
  · simp [none, otherNone] at same
  · simpa [none, otherNone] using same

/-- A text denotes one number. -/
theorem value_of_text {p q : PlainDecimal} (same : p.text = q.text) : p.value = q.value := by
  have signs : p.negative = q.negative ∧ p.body = q.body := by
    unfold text at same
    cases minus : p.negative <;> cases otherMinus : q.negative <;> simp [minus, otherMinus] at same ⊢
    · exact same
    · exact p.body_ne_minus _ same
    · exact q.body_ne_minus _ same.symm
    · exact same
  obtain ⟨whole, fraction⟩ := body_inj signs.2
  rw [value, value, signs.1, whole, fraction]

theorem text_ne_negativeZero (p : PlainDecimal) : p.text ≠ ['-', '0'] := by
  intro same
  cases minus : p.negative
  · exact p.body_ne_minus ['0'] (by simpa [text, minus] using same)
  · have body : p.body = ['0'] := by simpa [text, minus] using same
    have whole : p.whole = ['0'] := by
      rw [← p.takeWhile_body, body]
      rfl
    have fraction : p.fraction = [] := by
      by_contra some
      simp [PlainDecimal.body, whole, some] at body
    exact Bool.false_ne_true ((p.noNegativeZero whole fraction).symm.trans minus)

end PlainDecimal

namespace Decimal

/-- The digits before and after the point. -/
def parts (d : Decimal) : List Char × List Char :=
  let left := d.exponent + d.digits.length
  if left < 0 then (['0'], List.replicate (-left).toNat '0' ++ d.digits)
  else if d.digits.length < left then
    (d.digits ++ List.replicate (left - d.digits.length).toNat '0', [])
  else
    (if d.digits.take left.toNat = [] then ['0'] else d.digits.take left.toNat,
      d.digits.drop left.toNat)

/-- `format(d, "f")`. -/
def fixedText (d : Decimal) : List Char :=
  (if d.negative then ['-'] else []) ++ d.parts.1 ++
    if d.parts.2 = [] then [] else '.' :: d.parts.2

/-- Where the point stands among the digits. -/
inductive Point (d : Decimal) : Prop where
  | before (zeros : Nat) (negative : d.exponent = -(zeros + d.digits.length : Nat))
      (same : d.parts = (['0'], List.replicate zeros '0' ++ d.digits))
  | after (zeros : Nat) (positive : d.exponent = zeros) (some : zeros ≠ 0)
      (same : d.parts = (d.digits ++ List.replicate zeros '0', []))
  | first (negative : d.exponent = -(d.digits.length : Nat)) (same : d.parts = (['0'], d.digits))
  | among (whole fraction : List Char) (split : d.digits = whole ++ fraction) (some : whole ≠ [])
      (negative : d.exponent = -(fraction.length : Nat)) (same : d.parts = (whole, fraction))

theorem point (d : Decimal) : d.Point := by
  by_cases before : d.exponent + d.digits.length < 0
  · exact .before (-(d.exponent + d.digits.length)).toNat (by omega) (by simp [parts, before])
  by_cases after : (d.digits.length : Int) < d.exponent + d.digits.length
  · refine .after d.exponent.toNat (by omega) (by omega) ?_
    simp [parts, before, after]
  have length : (d.digits.drop (d.exponent + d.digits.length).toNat).length = (-d.exponent).toNat := by
    rw [List.length_drop]
    omega
  by_cases none : d.digits.take (d.exponent + d.digits.length).toNat = []
  · have zero : (d.exponent + d.digits.length).toNat = 0 := by
      have digits : d.digits ≠ [] := Nat.toDigits_ne_nil
      simpa [digits] using none
    refine .first (by omega) ?_
    simp [parts, before, after, zero]
  · refine .among _ _ (List.take_append_drop _ _).symm none (by omega) ?_
    simp only [parts, if_neg before, if_neg after, if_neg none]

section Parts

variable {d : Decimal}

theorem ofDigitChars_digits : Nat.ofDigitChars 10 d.digits 0 = d.coefficient :=
  Nat.ofDigitChars_ten_toDigits

theorem digits_ne_nil : d.digits ≠ [] := Nat.toDigits_ne_nil

theorem isDigit_digits {c : Char} (member : c ∈ d.digits) : isDigit c = true :=
  isDigit_toDigits member

theorem isDigit_zeros {n : Nat} {c : Char} (member : c ∈ List.replicate n '0') : isDigit c = true := by
  rw [List.eq_of_mem_replicate member]
  rfl

theorem head_digits (positive : d.coefficient ≠ 0) : d.digits.head? ≠ some '0' := by
  rcases toDigits_cases d.coefficient with ⟨zero, _⟩ | ⟨c, rest, same, nonzero⟩
  · exact absurd zero positive
  · rw [digits, same]
    simpa using nonzero

theorem last_digits (stripped : d.coefficient % 10 ≠ 0) : d.digits.getLast? ≠ some '0' := by
  have last : d.digits.getLast? = some (d.coefficient % 10).digitChar := by
    by_cases small : d.coefficient < 10
    · rw [digits, Nat.toDigits_of_lt_base small, Nat.mod_eq_of_lt small]
      rfl
    · rw [digits, Nat.toDigits_of_base_le (by decide) (by omega)]
      simp
  have nonzero : ∀ n < 10, n ≠ 0 → n.digitChar ≠ '0' := by decide
  rw [last]
  simpa using nonzero _ (Nat.mod_lt _ (by decide)) stripped

theorem coefficient_div {n : Nat} (negative : d.exponent = -(n : Int)) :
    (d.coefficient : ℚ) / 10 ^ n = d.magnitude := by
  rw [magnitude, negative, zpow_neg, zpow_natCast, div_eq_mul_inv]

/-- The digits denote the number. -/
theorem value_parts (d : Decimal) :
    (Nat.ofDigitChars 10 (d.parts.1 ++ d.parts.2) 0 : ℚ) / 10 ^ d.parts.2.length = d.magnitude := by
  have leading (text : List Char) : Nat.ofDigitChars 10 ('0' :: text) 0 = Nat.ofDigitChars 10 text 0 :=
    Nat.ofDigitChars_cons
  rcases d.point with ⟨zeros, negative, same⟩ | ⟨zeros, positive, some, same⟩ | ⟨negative, same⟩ |
    ⟨whole, fraction, split, some, negative, same⟩
  · rw [same, List.singleton_append, leading, Nat.ofDigitChars_append,
      Nat.ofDigitChars_replicate_zero, mul_zero, ofDigitChars_digits]
    exact coefficient_div (by simpa using negative)
  · rw [same, List.append_nil, Nat.ofDigitChars_append, Nat.ofDigitChars_replicate_zero,
      ofDigitChars_digits, magnitude, positive, zpow_natCast]
    simp [mul_comm]
  · rw [same, List.singleton_append, leading, ofDigitChars_digits]
    exact coefficient_div negative
  · rw [same, ← split, ofDigitChars_digits]
    exact coefficient_div negative

theorem isDigit_parts {c : Char} (member : c ∈ d.parts.1 ++ d.parts.2) : isDigit c = true := by
  rcases d.point with ⟨zeros, negative, same⟩ | ⟨zeros, positive, some, same⟩ | ⟨negative, same⟩ |
    ⟨whole, fraction, split, some, negative, same⟩ <;> rw [same] at member
  · simp only [List.mem_append, List.mem_singleton] at member
    rcases member with rfl | member | member
    exacts [rfl, isDigit_zeros member, isDigit_digits member]
  · simp only [List.append_nil, List.mem_append] at member
    exact member.elim isDigit_digits isDigit_zeros
  · simp only [List.singleton_append, List.mem_cons] at member
    rcases member with rfl | member
    exacts [rfl, isDigit_digits member]
  · exact isDigit_digits (split ▸ member)

theorem whole_ne_nil (d : Decimal) : d.parts.1 ≠ [] := by
  rcases d.point with ⟨zeros, negative, same⟩ | ⟨zeros, positive, some, same⟩ | ⟨negative, same⟩ |
    ⟨whole, fraction, split, some, negative, same⟩ <;> rw [same]
  · simp
  · simp [digits_ne_nil]
  · simp
  · exact some

/-- The digits of a normal zero stand for themselves. -/
theorem parts_of_zero (normal : d.Normal) (zero : d.coefficient = 0) : d.parts = (['0'], []) := by
  simp [parts, digits, zero, normal.zero zero]

theorem head_whole (normal : d.Normal) (leading : d.parts.1.head? = some '0') : d.parts.1 = ['0'] := by
  by_cases zero : d.coefficient = 0
  · rw [parts_of_zero normal zero]
  have head := head_digits zero
  rcases d.point with ⟨zeros, negative, same⟩ | ⟨zeros, positive, some, same⟩ | ⟨negative, same⟩ |
    ⟨whole, fraction, split, some, negative, same⟩ <;> rw [same] at leading ⊢
  · rw [List.head?_append_of_ne_nil _ digits_ne_nil] at leading
    exact absurd leading head
  · rw [split, List.head?_append_of_ne_nil _ some] at head
    exact absurd leading head

theorem last_fraction (normal : d.Normal) : d.parts.2.getLast? ≠ some '0' := by
  by_cases zero : d.coefficient = 0
  · rw [parts_of_zero normal zero]
    simp
  have last := last_digits (normal.stripped zero)
  rcases d.point with ⟨zeros, negative, same⟩ | ⟨zeros, positive, some, same⟩ | ⟨negative, same⟩ |
    ⟨whole, fraction, split, some, negative, same⟩ <;> rw [same]
  · rwa [List.getLast?_append_of_ne_nil _ digits_ne_nil]
  · simp
  · exact last
  · by_cases none : fraction = []
    · simp [none]
    · rwa [split, List.getLast?_append_of_ne_nil _ none] at last

/-- A number whose only digit is zero is zero. -/
theorem coefficient_of_parts (whole : d.parts.1 = ['0']) (fraction : d.parts.2 = []) :
    d.coefficient = 0 := by
  have value := d.value_parts
  rw [whole, fraction] at value
  have zero : d.magnitude = 0 := by
    rw [← value]
    simp [Nat.ofDigitChars_cons]
  rw [magnitude, mul_eq_zero] at zero
  exact_mod_cast zero.resolve_right (zpow_ne_zero _ (by norm_num))

/-- The plain decimal of a number in normal form. -/
def plain (d : Decimal) (normal : d.Normal) : PlainDecimal where
  negative := d.negative && d.coefficient ≠ 0
  whole := d.parts.1
  fraction := d.parts.2
  wholeDigits _ member := isDigit_parts (List.mem_append_left _ member)
  fractionDigits _ member := isDigit_parts (List.mem_append_right _ member)
  someDigit := d.whole_ne_nil
  noLeadingZero := head_whole normal
  noTrailingZero := last_fraction normal
  noNegativeZero whole fraction := by simp [coefficient_of_parts whole fraction]

theorem value_plain (normal : d.Normal) : (d.plain normal).value = d.value := by
  rw [PlainDecimal.value, value_eq]
  by_cases zero : d.coefficient = 0
  · simp [plain, d.value_parts, magnitude, zero]
  · simp [plain, d.value_parts, zero]

/-- A value has one plain text. -/
theorem text_plain {other : Decimal} (normal : d.Normal) (otherNormal : other.Normal)
    (same : d.value = other.value) : (d.plain normal).text = (other.plain otherNormal).text := by
  have magnitude : d.magnitude = other.magnitude := by rw [← abs_value, ← abs_value, same]
  obtain ⟨coefficient, exponent⟩ := normal.unique otherNormal magnitude
  have parts : d.parts = other.parts := by
    rw [Decimal.parts, Decimal.parts, digits, digits, coefficient, exponent]
  have sign : (d.plain normal).negative = (other.plain otherNormal).negative := by
    by_cases zero : d.coefficient = 0
    · simp [plain, zero, coefficient.symm.trans zero]
    · have positive : other.magnitude ≠ 0 := by
        rw [← magnitude, Decimal.magnitude]
        positivity
      rw [value_eq, value_eq, magnitude, mul_left_inj' positive] at same
      cases minus : d.negative <;> cases otherMinus : other.negative <;>
        norm_num [minus, otherMinus] at same
      · simp [plain, minus, otherMinus]
      · simp [plain, minus, otherMinus, coefficient]
  have whole : (d.plain normal).whole = (other.plain otherNormal).whole := congrArg Prod.fst parts
  have fraction : (d.plain normal).fraction = (other.plain otherNormal).fraction :=
    congrArg Prod.snd parts
  simp only [PlainDecimal.text, PlainDecimal.body, sign, whole, fraction]

/-- A nonzero number in normal form is written plainly, and zero up to its sign. -/
theorem fixedText_eq (normal : d.Normal) :
    d.fixedText = (if d.negative && d.coefficient = 0 then ['-'] else []) ++ (d.plain normal).text := by
  by_cases zero : d.coefficient = 0
  · simp [fixedText, plain, PlainDecimal.text, PlainDecimal.body, zero]
  · simp [fixedText, plain, PlainDecimal.text, PlainDecimal.body, zero]

end Parts

end Decimal

end Collector.Lib
