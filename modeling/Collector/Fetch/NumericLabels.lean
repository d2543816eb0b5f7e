import Collector.Fetch.Ssrf
import Collector.Lib.Ipv4Text

/-!
The labels of a numeric host, one by one. A label is read as the parser of IPv4 texts reads it, or
it stops the function: an octal number with another digit in it, and a number that Python does not
convert. A newline at the end of a label is not seen.
-/

namespace Collector.Fetch
open Collector.Lib

section Labels

/-- Decimal, octal or hexadecimal digits. -/
def isNumberLabel (label : List Char) : Bool :=
  if isHexLabel label then (label.drop 2).all isHexDigit else !label.isEmpty && label.all Char.isDigit

def isOctalLabel (label : List Char) : Bool :=
  !isHexLabel label && decide (1 < label.length ∧ label.head? = some '0')

def isOctalDigit (c : Char) : Bool := decide ('0' ≤ c ∧ c ≤ '7')

/-- An octal number with another character in it. -/
def isBadOctal (label : List Char) : Bool := isOctalLabel label && !label.all isOctalDigit

/-- A label that `int` refuses: no digits but a newline, or more decimal digits than it reads. -/
def isUnread (label : List Char) : Bool :=
  if isHexLabel label then decide (label.drop 2 = ['\n'])
  else !isOctalLabel label && decide (4300 < (chomp label).length)

/-- The first label that stops the parser. -/
def stop (labels : List (List Char)) : Option (List Char) :=
  labels.find? fun label => isBadOctal label || isUnread label

theorem chomp_eq (label : List Char) : label = chomp label ∨ label = chomp label ++ ['\n'] := by
  unfold chomp
  split
  · next newline => exact .inr (List.dropLast_append_getLast? _ newline).symm
  · exact .inl rfl

theorem chomp_of_not_mem {label : List Char} (free : '\n' ∉ label) : chomp label = label := by
  unfold chomp
  rw [if_neg]
  intro newline
  exact free (List.mem_of_getLast? newline)

theorem le_iff_toNat {a b : Char} : a ≤ b ↔ a.toNat ≤ b.toNat := UInt32.le_iff_toNat_le

theorem digit_of_decimal {radix : Nat} {c : Char} (decimal : c.isDigit = true)
    (small : digitValue c < radix) : Ipv4.digit radix c = some (digitValue c) := by
  unfold Ipv4.digit
  rw [if_pos decimal, Option.filter_eq_some_iff]
  refine ⟨?_, decide_eq_true small⟩
  rw [digitValue, if_pos decimal]

theorem digitValue_lt {c : Char} (decimal : c.isDigit = true) : digitValue c < 10 := by
  have bounds := Char.isDigit_iff_toNat.mp decimal
  rw [digitValue, if_pos decimal]
  simp only [Char.reduceToNat] at bounds ⊢
  omega

theorem digit_of_hex {c : Char} (hex : isHexDigit c = true) : Ipv4.digit 16 c = some (digitValue c) := by
  by_cases decimal : c.isDigit = true
  · exact digit_of_decimal decimal ((digitValue_lt decimal).trans (by decide))
  simp only [isHexDigit, decimal, Bool.false_or, Bool.or_eq_true, decide_eq_true_eq] at hex
  unfold Ipv4.digit digitValue
  rw [if_neg decimal, if_neg decimal, Option.filter_eq_some_iff]
  rcases hex with small | large
  · have lower := le_iff_toNat.mp small.1
    have upper := le_iff_toNat.mp small.2
    rw [if_pos small, if_pos lower]
    simp only [Char.reduceToNat] at lower upper ⊢
    exact ⟨trivial, decide_eq_true (by omega)⟩
  · have lower := le_iff_toNat.mp large.1
    have upper := le_iff_toNat.mp large.2
    have notSmall : ¬ 'a'.toNat ≤ c.toNat := by
      simp only [Char.reduceToNat] at upper ⊢
      omega
    rw [if_neg fun both => notSmall (le_iff_toNat.mp both.1), if_pos large, if_neg notSmall]
    simp only [Char.reduceToNat] at lower upper ⊢
    exact ⟨trivial, decide_eq_true (by omega)⟩

theorem digit_of_octal {c : Char} (octal : isOctalDigit c = true) :
    Ipv4.digit 8 c = some (digitValue c) := by
  rw [isOctalDigit, decide_eq_true_eq] at octal
  have lower := le_iff_toNat.mp octal.1
  have upper := le_iff_toNat.mp octal.2
  simp only [Char.reduceToNat] at lower upper
  have decimal : c.isDigit = true := by
    rw [Char.isDigit_iff_toNat]
    simp only [Char.reduceToNat]
    omega
  apply digit_of_decimal decimal
  rw [digitValue, if_pos decimal]
  simp only [Char.reduceToNat]
  omega

theorem readDigits_eq {base : Nat} {label : List Char} (nonempty : chomp label ≠ [])
    (short : ¬(base = 10 ∧ 4300 < (chomp label).length)) :
    readDigits base label = .ok ((chomp label).foldl (fun sum c => sum * base + digitValue c) 0) := by
  unfold readDigits
  rw [if_neg]
  rintro (empty | long)
  · exact nonempty (List.isEmpty_iff.mp empty)
  · exact short long

theorem hexLabel_cases {label : List Char} (hex : isHexLabel label = true) :
    ∃ c rest, label = '0' :: c :: rest ∧ (c = 'x' ∨ c = 'X') := by
  simp only [isHexLabel, decide_eq_true_eq, List.mem_cons, List.not_mem_nil, or_false] at hex
  match label, hex with
  | [], hex => simp at hex
  | [_], hex => simp at hex
  | a :: c :: rest, hex =>
    simp only [List.take_succ_cons, List.take_zero, List.cons.injEq, and_true] at hex
    rcases hex with ⟨rfl, rfl⟩ | ⟨rfl, rfl⟩
    · exact ⟨_, rest, rfl, .inl rfl⟩
    · exact ⟨_, rest, rfl, .inr rfl⟩

theorem chomp_cons_cons (a c : Char) (rest : List Char) (visible : c ≠ '\n') :
    chomp (a :: c :: rest) = a :: c :: chomp rest := by
  cases rest with
  | nil => simp [chomp, visible]
  | cons d rest =>
    simp only [chomp, List.getLast?_cons_cons]
    split
    · rfl
    · rfl

/-- A hexadecimal number, with a newline behind it or not. -/
theorem readPart_hex {label : List Char} (hex : isHexLabel label = true)
    (number : isNumericLabel label = true) (read : isUnread label = false) :
    ∃ n, readPart label = .ok n ∧ Ipv4.part (chomp label) = some n := by
  obtain ⟨c, rest, rfl, mark⟩ := hexLabel_cases hex
  have visible : c ≠ '\n' := by rcases mark with rfl | rfl <;> decide
  have part (digits : List Char) : Ipv4.part ('0' :: c :: digits) = Ipv4.number 16 digits := by
    rcases mark with rfl | rfl <;> rfl
  have hexes : (chomp rest).all isHexDigit = true := by
    have marked : isHexLabel ('0' :: c :: chomp rest) = true := by rcases mark with rfl | rfl <;> rfl
    rw [isNumericLabel, chomp_cons_cons _ _ _ visible] at number
    simp only [marked, if_true] at number
    exact number
  rw [chomp_cons_cons _ _ _ visible, part, readPart, if_pos hex]
  rw [isUnread, if_pos hex, decide_eq_false_iff_not] at read
  cases rest with
  | nil => exact ⟨0, rfl, rfl⟩
  | cons d rest =>
    have nonempty : chomp (d :: rest) ≠ [] := by
      intro empty
      rcases chomp_eq (d :: rest) with same | same
      · rw [empty] at same
        cases same
      · rw [empty] at same
        exact read same
    refine ⟨_, readDigits_eq nonempty (by simp), ?_⟩
    exact Ipv4.number_eq_foldl fun e member => digit_of_hex (List.all_eq_true.mp hexes e member)

/-- An octal number; its digits leave no place for a newline. -/
theorem readPart_octal {label : List Char} (octal : isOctalLabel label = true)
    (good : isBadOctal label = false) :
    ∃ n, readPart label = .ok n ∧ Ipv4.part (chomp label) = some n := by
  have digits : label.all isOctalDigit = true := by
    rw [isBadOctal, octal, Bool.true_and, Bool.not_eq_false'] at good
    exact good
  have free : '\n' ∉ label := fun member =>
    absurd (List.all_eq_true.mp digits _ member) (by decide)
  rw [isOctalLabel, Bool.and_eq_true, Bool.not_eq_true', decide_eq_true_eq] at octal
  obtain ⟨notHex, long, zero⟩ := octal
  match label, long, zero with
  | a :: c :: rest, _, zero =>
    cases zero
    have prefixless : c ≠ 'x' ∧ c ≠ 'X' := by
      constructor <;> rintro rfl <;> exact absurd notHex (by simp [isHexLabel])
    rw [chomp_of_not_mem free, Ipv4.part_octal prefixless, readPart, if_neg (by simp [notHex]),
      if_pos (by simp)]
    have checked : ensure (('0' :: c :: rest).all fun c => decide ('0' ≤ c ∧ c ≤ '7'))
        (Refusal.policyBlocked "url_invalid") = .ok () := ensure_eq_ok.mpr digits
    have same : Ipv4.number 8 (c :: rest) =
        some ((c :: rest).foldl (fun sum c => sum * 8 + digitValue c) 0) :=
      Ipv4.number_eq_foldl fun e member =>
        digit_of_octal (List.all_eq_true.mp digits e (List.mem_cons_of_mem _ member))
    rw [checked, same]
    refine ⟨_, readDigits_eq (by rw [chomp_of_not_mem free]; simp) (by simp), ?_⟩
    rw [chomp_of_not_mem free]
    rfl

theorem isHexLabel_chomp {label : List Char} (notHex : isHexLabel label = false) :
    isHexLabel (chomp label) = false := by
  by_contra hex
  obtain ⟨c, rest, same, mark⟩ := hexLabel_cases (Bool.eq_true_of_not_eq_false hex)
  have hexed : isHexLabel label = true := by
    rcases chomp_eq label with whole | whole <;> rw [whole, same] <;> rcases mark with rfl | rfl <;> rfl
  rw [hexed] at notHex
  cases notHex

/-- A decimal number, with a newline behind it or not. -/
theorem readPart_decimal {label : List Char} (notHex : isHexLabel label = false)
    (notOctal : isOctalLabel label = false) (number : isNumericLabel label = true)
    (read : isUnread label = false) :
    ∃ n, readPart label = .ok n ∧ Ipv4.part (chomp label) = some n := by
  have plain : ¬(1 < label.length ∧ label.head? = some '0') := by
    rw [isOctalLabel, notHex, Bool.not_false, Bool.true_and, decide_eq_false_iff_not] at notOctal
    exact notOctal
  have short : ¬4300 < (chomp label).length := by
    rw [isUnread, notHex, notOctal] at read
    simpa using read
  have digits : chomp label ≠ [] ∧ (chomp label).all Char.isDigit = true := by
    rw [isNumericLabel] at number
    simp only [isHexLabel_chomp notHex] at number
    simpa using number
  have onlyZero : (chomp label).head? = some '0' → (chomp label).length ≤ 1 := by
    intro zero
    rcases chomp_eq label with same | same
    · rw [← same] at zero ⊢
      exact Nat.le_of_not_lt fun long => plain ⟨long, zero⟩
    · refine absurd ⟨?_, ?_⟩ plain
      · rw [same, List.length_append]
        have := List.length_pos_of_ne_nil digits.1
        simp
        omega
      · rw [same, List.head?_append, zero]
        rfl
  rw [readPart, notHex, if_neg Bool.false_ne_true, if_neg plain, Ipv4.part_decimal digits.1 onlyZero]
  refine ⟨_, readDigits_eq digits.1 (fun both => short both.2), ?_⟩
  refine Ipv4.number_eq_foldl fun c member => ?_
  have decimal := List.all_eq_true.mp digits.2 c member
  exact digit_of_decimal decimal (digitValue_lt decimal)

theorem readPart_of_kept {label : List Char} (number : isNumericLabel label = true)
    (kept : (isBadOctal label || isUnread label) = false) :
    ∃ n, readPart label = .ok n ∧ Ipv4.part (chomp label) = some n := by
  rw [Bool.or_eq_false_iff] at kept
  cases hex : isHexLabel label with
  | true => exact readPart_hex hex number kept.2
  | false =>
    cases octal : isOctalLabel label with
    | true => exact readPart_octal octal kept.1
    | false => exact readPart_decimal hex octal number kept.2

theorem readPart_badOctal {label : List Char} (bad : isBadOctal label = true) :
    readPart label = .error (.policyBlocked "url_invalid") := by
  rw [isBadOctal, Bool.and_eq_true, Bool.not_eq_true', isOctalLabel, Bool.and_eq_true, Bool.not_eq_true',
    decide_eq_true_eq] at bad
  obtain ⟨⟨notHex, octal⟩, other⟩ := bad
  have refused : ensure (label.all fun c => decide ('0' ≤ c ∧ c ≤ '7'))
      (Refusal.policyBlocked "url_invalid") = .error (.policyBlocked "url_invalid") :=
    ensure_eq_error.mpr ⟨other, rfl⟩
  rw [readPart, notHex, if_neg Bool.false_ne_true, if_pos octal, refused]
  rfl

theorem readPart_unread {label : List Char} (unread : isUnread label = true) :
    readPart label = .error .valueError := by
  rw [isUnread] at unread
  cases hex : isHexLabel label with
  | true =>
    rw [hex, if_pos rfl, decide_eq_true_eq] at unread
    rw [readPart, if_pos hex, unread]
    rfl
  | false =>
    rw [hex, if_neg Bool.false_ne_true, Bool.and_eq_true, Bool.not_eq_true', isOctalLabel, hex,
      Bool.not_false, Bool.true_and, decide_eq_false_iff_not, decide_eq_true_eq] at unread
    rw [readPart, hex, if_neg Bool.false_ne_true, if_neg unread.1, readDigits, if_pos (.inr ⟨rfl, unread.2⟩)]

end Labels

section Hosts

/-- The labels up to the first that stops the parser. -/
theorem mapM_readPart_stops {labels : List (List Char)} {label : List Char} {e : Refusal}
    (numbers : labels.all isNumericLabel = true) (first : stop labels = some label)
    (refused : readPart label = .error e) : labels.mapM readPart = .error e := by
  induction labels with
  | nil => cases first
  | cons head rest ih =>
    rw [List.all_cons, Bool.and_eq_true] at numbers
    rw [List.mapM_cons]
    rw [stop, List.find?_cons] at first
    split at first
    · cases first
      rw [refused]
      rfl
    · next kept =>
      obtain ⟨n, read, _⟩ := readPart_of_kept numbers.1 kept
      rw [read, Except.bind_eq_error]
      exact .inr ⟨n, rfl, Except.bind_eq_error.mpr (.inl (ih numbers.2 first))⟩

theorem mapM_readPart_reads {labels : List (List Char)} (numbers : labels.all isNumericLabel = true)
    (free : stop labels = none) : ∃ values, labels.mapM readPart = .ok values ∧
      (labels.map chomp).mapM Ipv4.part = some values ∧ values.length = labels.length := by
  induction labels with
  | nil => exact ⟨[], rfl, rfl, rfl⟩
  | cons head rest ih =>
    rw [List.all_cons, Bool.and_eq_true] at numbers
    rw [stop, List.find?_cons] at free
    split at free
    · cases free
    · next kept =>
      obtain ⟨n, read, part⟩ := readPart_of_kept numbers.1 kept
      obtain ⟨values, answered, parts, length⟩ := ih numbers.2 free
      refine ⟨n :: values, ?_, ?_, by rw [List.length_cons, List.length_cons, length]⟩
      · rw [List.mapM_cons, read, Except.bind_eq_ok]
        exact ⟨n, rfl, Except.bind_eq_ok.mpr ⟨values, answered, rfl⟩⟩
      · rw [List.map_cons, List.mapM_cons, part, parts]
        rfl

/-- Each leading number is one byte, from the left. -/
theorem leading_sum {head : List Nat} (short : head.length < 4) :
    (head.zipIdx.map fun (value, index) => value * 2 ^ (8 * (3 - index))).sum =
      Nat.ofDigits 256 head.reverse * 256 ^ (4 - head.length) := by
  match head, short with
  | [], _ => rfl
  | [a], _ => simp
  | [a, b], _ =>
    simp [Nat.ofDigits]
    omega
  | [a, b, c], _ =>
    simp [Nat.ofDigits]
    omega

/-- The range checks and the address. -/
def assemble (values : List Nat) : Except Refusal (BitVec 32) := do
  let head := values.dropLast
  let last := values.getLastD 0
  ensure (head.all (· ≤ 255) && decide (last < 256 ^ (5 - values.length))) (.policyBlocked "url_invalid")
  let number := (head.zipIdx.map fun (value, index) => value * 2 ^ (8 * (3 - index))).sum + last
  return BitVec.ofNat 32 number

/-- The function over the labels of the host. -/
theorem parseIpv4Number_eq (host : String) : parseIpv4Number host = (do
    let labels := Ipv4.labels host.toList
    ensure (decide (1 ≤ labels.length ∧ labels.length ≤ 4) && labels.all isNumericLabel)
      (.policyBlocked "url_invalid")
    assemble (← labels.mapM readPart)) := rfl

/-- The labels can be those of an IPv4 address. -/
def Countable (labels : List (List Char)) : Prop :=
  1 ≤ labels.length ∧ labels.length ≤ 4 ∧ labels.all isNumericLabel = true

theorem Countable.ensured {labels : List (List Char)} (countable : Countable labels) :
    ensure (decide (1 ≤ labels.length ∧ labels.length ≤ 4) && labels.all isNumericLabel)
      (Refusal.policyBlocked "url_invalid") = .ok () := by
  rw [ensure_eq_ok, countable.2.2, Bool.and_true, decide_eq_true_eq]
  exact ⟨countable.1, countable.2.1⟩

theorem assemble_concat {head : List Nat} {last : Nat} (short : head.length < 4) :
    assemble (head ++ [last]) = require (Ipv4.address head last) (.policyBlocked "url_invalid") := by
  have bytes : (∀ value ∈ head, value < 256) ↔ head.all (· ≤ 255) = true := by
    simp only [List.all_eq_true, decide_eq_true_eq]
    exact forall₂_congr fun value _ => Nat.lt_succ_iff
  have fill : 5 - (head ++ [last]).length = 4 - head.length := by
    rw [List.length_append, List.length_singleton]
    omega
  rw [assemble, List.dropLast_concat, List.getLastD_concat, fill, leading_sum short, Ipv4.address]
  by_cases fits : (∀ value ∈ head, value < 256) ∧ last < 256 ^ (4 - head.length)
  · have checked : (head.all (· ≤ 255) && decide (last < 256 ^ (4 - head.length))) = true := by
      rw [bytes.mp fits.1, decide_eq_true fits.2]
      rfl
    rw [if_pos ⟨short, fits⟩, checked]
    rfl
  · have checked : (head.all (· ≤ 255) && decide (last < 256 ^ (4 - head.length))) = false := by
      rw [Bool.and_eq_false_iff, decide_eq_false_iff_not]
      by_cases small : head.all (· ≤ 255) = true
      · exact .inr fun less => fits ⟨bytes.mpr small, less⟩
      · exact .inl (Bool.eq_false_of_not_eq_true small)
    rw [if_neg fun all => fits all.2, checked]
    rfl

/-- A host whose labels are all read is the address of its texts, if they make one. -/
theorem parseIpv4Number_of_reads {host : String} (countable : Countable (Ipv4.labels host.toList))
    (free : stop (Ipv4.labels host.toList) = none) :
    parseIpv4Number host =
      require (Ipv4.ofLabels ((Ipv4.labels host.toList).map chomp)) (.policyBlocked "url_invalid") := by
  obtain ⟨values, answered, parts, length⟩ := mapM_readPart_reads countable.2.2 free
  rw [parseIpv4Number_eq]
  simp only [countable.ensured, answered]
  rw [Ipv4.ofLabels, parts]
  rcases List.eq_nil_or_concat' values with rfl | ⟨head, last, rfl⟩
  · have least := countable.1
    rw [← length] at least
    exact absurd least (by decide)
  have short : head.length < 4 := by
    have few := countable.2.1
    rw [← length, List.length_append] at few
    exact few
  have spec : (do
      let final ← (head ++ [last]).getLast?
      Ipv4.address (head ++ [last]).dropLast final) = Ipv4.address head last := by
    rw [List.getLast?_concat, List.dropLast_concat]
    rfl
  change assemble (head ++ [last]) = require (do
      let final ← (head ++ [last]).getLast?
      Ipv4.address (head ++ [last]).dropLast final) _
  rw [spec, assemble_concat short]

theorem parseIpv4Number_uncountable {host : String} (not : ¬Countable (Ipv4.labels host.toList)) :
    parseIpv4Number host = .error (.policyBlocked "url_invalid") := by
  have refused : ensure (decide (1 ≤ (Ipv4.labels host.toList).length ∧ (Ipv4.labels host.toList).length ≤ 4) &&
      (Ipv4.labels host.toList).all isNumericLabel) (Refusal.policyBlocked "url_invalid") =
      .error (.policyBlocked "url_invalid") := by
    rw [ensure_eq_error, Bool.and_eq_false_iff, decide_eq_false_iff_not]
    refine ⟨?_, rfl⟩
    by_cases numbers : (Ipv4.labels host.toList).all isNumericLabel = true
    · exact .inl fun both => not ⟨both.1, both.2, numbers⟩
    · exact .inr (Bool.eq_false_of_not_eq_true numbers)
  rw [parseIpv4Number_eq]
  simp only [refused]
  rfl

theorem parseIpv4Number_stops {host : String} {label : List Char} {e : Refusal}
    (countable : Countable (Ipv4.labels host.toList)) (first : stop (Ipv4.labels host.toList) = some label)
    (refused : readPart label = .error e) : parseIpv4Number host = .error e := by
  rw [parseIpv4Number_eq]
  simp only [countable.ensured, mapM_readPart_stops countable.2.2 first refused]
  rfl

end Hosts

end Collector.Fetch
