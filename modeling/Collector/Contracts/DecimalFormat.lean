import Collector.Lib.DecimalText

/-!
`format_decimal`, the text of a `Decimal` in canonical JSON. Trailing zeros are taken off by
`normalize`, which also rounds to the context in force. The text is therefore that of the value when
28 digits and the exponents of the context can hold the value, and of another number or none when
they cannot.
-/

namespace Collector.Contracts
open Collector.Lib

/-- The argument of `format_decimal`. -/
inductive DecimalValue where
  | finite (d : Decimal)
  /-- A NaN or an infinity, by its `repr`. -/
  | nonFinite (repr : String)
  deriving DecidableEq, Repr

/-- What `format_decimal` raises. -/
inductive FormatDecimalError where
  | canonicalEncodingError (message : String)
  | signal (signal : DecimalSignal)
  deriving DecidableEq, Repr

/-- The context a thread starts with. Only `Overflow` of its traps can come from rounding. -/
def defaultContext : DecimalContext where
  precision := 28
  minExponent := -999999
  maxExponent := 999999
  precise := by decide
  ordered := by decide

def formatDecimal (value : DecimalValue) : Except FormatDecimalError String :=
  match value with
  | .nonFinite repr =>
    .error (.canonicalEncodingError s!"canonical Decimal має бути скінченним, отримано {repr}")
  | .finite d => do
    let normalized ← (d.normalize defaultContext).mapError .signal
    let text := String.ofList normalized.fixedText
    return if text ∈ ["-0", "0"] then "0" else text

example : formatDecimal (.finite ⟨true, 123400, -4⟩) = .ok "-12.34" := by decide
example : formatDecimal (.finite ⟨true, 0, -3⟩) = .ok "0" := by decide
example : formatDecimal (.finite ⟨false, 1, -7⟩) = .ok "0.0000001" := by decide

/-- The test for a zero turns the text of a normal number into a plain one. -/
theorem plain_text {d : Decimal} (normal : d.Normal) :
    (if String.ofList d.fixedText ∈ ["-0", "0"] then "0" else .ofList d.fixedText) =
      String.ofList (d.plain normal).text := by
  have zeros : ∀ text : List Char, String.ofList text ∈ ["-0", "0"] ↔ text = ['-', '0'] ∨ text = ['0'] := by
    intro text
    simp only [List.mem_cons, List.not_mem_nil, or_false, ← String.toList_inj, String.toList_ofList]
    rfl
  by_cases zero : d.coefficient = 0
  · have parts := d.parts_of_zero normal zero
    cases sign : d.negative <;>
      simp [Decimal.fixedText, PlainDecimal.text, PlainDecimal.body, Decimal.plain, parts, zero, sign, zeros]
  · rw [Decimal.fixedText_eq normal]
    simp only [zero, decide_false, Bool.and_false, Bool.false_eq_true, if_false, List.nil_append, zeros,
      PlainDecimal.text_ne_negativeZero, false_or]
    split
    case isTrue same => rw [same]
    case isFalse => rfl

/-- The text, where rounding to the context raises nothing. -/
theorem formatDecimal_eq {d fixed : Decimal} (run : d.fix defaultContext = .ok fixed) :
    ∃ (normalized : Decimal) (normal : normalized.Normal),
      formatDecimal (.finite d) = .ok (.ofList (normalized.plain normal).text) ∧
        normalized.value = fixed.value := by
  obtain ⟨normalized, normalize, normal, same⟩ := Decimal.normalize_eq run
  refine ⟨normalized, normal, ?_, same⟩
  simp only [formatDecimal, normalize, Except.mapError, bind, Except.bind, pure, Except.pure, plain_text normal]

/-- A value that the context can hold is written exactly. -/
theorem formatDecimal_exact {d : Decimal} (holds : Decimal.Representable defaultContext d.value) :
    ∃ (normalized : Decimal) (normal : normalized.Normal),
      formatDecimal (.finite d) = .ok (.ofList (normalized.plain normal).text) ∧
        normalized.value = d.value := by
  obtain ⟨other, fits, same⟩ := holds
  have magnitude : other.magnitude = d.magnitude := by
    rw [← Decimal.abs_value, ← Decimal.abs_value, same]
  obtain ⟨fixed, run, value⟩ := Decimal.fix_of_fits fits magnitude
  obtain ⟨normalized, normal, text, denotes⟩ := formatDecimal_eq run
  exact ⟨normalized, normal, text, denotes.trans value⟩

/-- Whatever text comes out denotes a value that the context can hold. -/
theorem representable_of_formatDecimal {d : Decimal} {plain : PlainDecimal}
    (run : formatDecimal (.finite d) = .ok (.ofList plain.text)) :
    Decimal.Representable defaultContext plain.value := by
  cases fix : d.fix defaultContext with
  | error signal =>
    simp [formatDecimal, Decimal.normalize_error fix, Except.mapError, bind, Except.bind] at run
  | ok fixed =>
    obtain ⟨normalized, normal, text, denotes⟩ := formatDecimal_eq fix
    rw [text, Except.ok.injEq, String.ofList_inj] at run
    rw [← PlainDecimal.value_of_text run, Decimal.value_plain, denotes]
    exact ⟨fixed, Decimal.fits_of_fix fix, rfl⟩

/-- Two values that the context can hold have one text exactly if they are equal. -/
theorem formatDecimal_inj {d other : Decimal} (holds : Decimal.Representable defaultContext d.value)
    (otherHolds : Decimal.Representable defaultContext other.value) :
    formatDecimal (.finite d) = formatDecimal (.finite other) ↔ d.value = other.value := by
  obtain ⟨normalized, normal, text, denotes⟩ := formatDecimal_exact holds
  obtain ⟨other', otherNormal, otherText, otherDenotes⟩ := formatDecimal_exact otherHolds
  rw [text, otherText, Except.ok.injEq, String.ofList_inj, ← denotes, ← otherDenotes]
  constructor
  · intro same
    rw [← Decimal.value_plain normal, ← Decimal.value_plain otherNormal]
    exact PlainDecimal.value_of_text same
  · exact Decimal.text_plain normal otherNormal

/-- `format_decimal` writes a finite `Decimal` as a plain decimal of the same value, and no other
value that the context can hold in the same way, exactly if the context can hold the value: in 28
digits, none of them below `1E-1000026`, and below `1E+1000000` in size. -/
theorem formatDecimal_exact_iff (d : Decimal) :
    (∃ plain : PlainDecimal, formatDecimal (.finite d) = .ok (.ofList plain.text) ∧
      plain.value = d.value ∧
      ∀ other : Decimal, Decimal.Representable defaultContext other.value →
        (formatDecimal (.finite d) = formatDecimal (.finite other) ↔ d.value = other.value)) ↔
      Decimal.Representable defaultContext d.value := by
  constructor
  · rintro ⟨plain, run, denotes, -⟩
    rw [← denotes]
    exact representable_of_formatDecimal run
  · intro holds
    obtain ⟨normalized, normal, run, denotes⟩ := formatDecimal_exact holds
    exact ⟨normalized.plain normal, run, (Decimal.value_plain normal).trans denotes,
      fun other otherHolds => formatDecimal_inj holds otherHolds⟩

/-- The 29th digit is rounded off, and a size of `1E+1000000` overflows. -/
theorem formatDecimal_rounds :
    formatDecimal (.finite ⟨false, 10 ^ 28 + 1, 0⟩) = formatDecimal (.finite ⟨false, 10 ^ 28, 0⟩) ∧
      (⟨false, 10 ^ 28 + 1, 0⟩ : Decimal).value ≠ (⟨false, 10 ^ 28, 0⟩ : Decimal).value ∧
      formatDecimal (.finite ⟨false, 1, 1000000⟩) = .error (.signal .overflow) := by
  refine ⟨by decide +kernel, ?_, by decide +kernel⟩
  norm_num [Decimal.value]

end Collector.Contracts
