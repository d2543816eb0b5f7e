import Mathlib.Data.List.TakeWhile
import Mathlib.Tactic.Common

/-!
The lexical level of JSON: quoted strings and numbers, written and read. A text is a list of
characters; a reader answers with what it read and with the rest of the text.
-/

namespace Collector.Lib.JsonText

def hexDigit (n : Nat) : Char := Nat.digitChar n

def hexValue (c : Char) : Option Nat :=
  if '0' ≤ c ∧ c ≤ '9' then some (c.toNat - 0x30)
  else if 'a' ≤ c ∧ c ≤ 'f' then some (c.toNat - 0x61 + 10)
  else if 'A' ≤ c ∧ c ≤ 'F' then some (c.toNat - 0x41 + 10)
  else none

/-- A character inside quotes. Only what JSON forbids there is escaped. -/
def escape (c : Char) : List Char :=
  if c = '"' then ['\\', '"']
  else if c = '\\' then ['\\', '\\']
  else if c = '\n' then ['\\', 'n']
  else if c = '\r' then ['\\', 'r']
  else if c = '\t' then ['\\', 't']
  else if c = '\x08' then ['\\', 'b']
  else if c = '\x0c' then ['\\', 'f']
  else if c.toNat < 0x20 then ['\\', 'u', '0', '0', hexDigit (c.toNat / 16), hexDigit (c.toNat % 16)]
  else [c]

def quote (s : String) : List Char := '"' :: s.toList.flatMap escape ++ ['"']

def unescape (c : Char) : Option Char :=
  if c = '"' ∨ c = '\\' ∨ c = '/' then some c
  else if c = 'n' then some '\n'
  else if c = 'r' then some '\r'
  else if c = 't' then some '\t'
  else if c = 'b' then some '\x08'
  else if c = 'f' then some '\x0c'
  else none

/-- The code unit of four hexadecimal digits. -/
def codeUnit (a b c d : Char) : Option Nat := do
  let a ← hexValue a
  let b ← hexValue b
  let c ← hexValue c
  let d ← hexValue d
  return ((a * 16 + b) * 16 + c) * 16 + d

def isHigh (unit : Nat) : Bool := decide (0xd800 ≤ unit ∧ unit < 0xdc00)

def isLow (unit : Nat) : Bool := decide (0xdc00 ≤ unit ∧ unit < 0xe000)

/-- What follows a backslash. Two escaped surrogates are one character, one alone is none. -/
def readEscape : List Char → Option (Char × List Char)
  | 'u' :: a :: b :: c :: d :: text =>
    (codeUnit a b c d).bind fun unit =>
      if isHigh unit then
        match text with
        | '\\' :: 'u' :: a :: b :: c :: d :: text =>
          (codeUnit a b c d).bind fun low =>
            if isLow low then
              some (.ofNat (0x10000 + (unit - 0xd800) * 0x400 + (low - 0xdc00)), text)
            else none
        | _ => none
      else if isLow unit then none
      else some (.ofNat unit, text)
  | e :: text => (unescape e).map fun c => (c, text)
  | [] => none

/-- The characters up to the closing quote, at most `fuel` of them with it. -/
def readChars : Nat → List Char → Option (List Char × List Char)
  | 0, _ | _, [] => none
  | fuel + 1, c :: text =>
    if c = '"' then some ([], text)
    else if c = '\\' then
      (readEscape text).bind fun (x, text) =>
        (readChars fuel text).map fun (chars, rest) => (x :: chars, rest)
    else if c.toNat < 0x20 then none
    else (readChars fuel text).map fun (chars, rest) => (c :: chars, rest)

section Strings

private theorem hexValue_hexDigit : ∀ n < 16, hexValue (hexDigit n) = some n := by decide

theorem codeUnit_hexDigit {n : Nat} (small : n < 0x20) :
    codeUnit '0' '0' (hexDigit (n / 16)) (hexDigit (n % 16)) = some n := by
  have zero : hexValue '0' = some 0 := by decide
  simp only [codeUnit, zero, hexValue_hexDigit (n / 16) (by omega),
    hexValue_hexDigit (n % 16) (by omega), Option.bind_eq_bind, Option.bind_some, Option.pure_def,
    Option.some.injEq]
  omega

/-- A character is written as itself or as an escape that is read back. -/
theorem escape_cases (c : Char) :
    (escape c = [c] ∧ c ≠ '"' ∧ c ≠ '\\' ∧ ¬ c.toNat < 0x20) ∨
      ∃ code, escape c = '\\' :: code ∧ ∀ text, readEscape (code ++ text) = some (c, text) := by
  unfold escape
  by_cases quoted : c = '"'
  · exact .inr ⟨['"'], by simp [quoted], fun text => by simp [quoted, readEscape, unescape]⟩
  by_cases slash : c = '\\'
  · exact .inr ⟨['\\'], by simp [slash], fun text => by simp [slash, readEscape, unescape]⟩
  by_cases newline : c = '\n'
  · exact .inr ⟨['n'], by simp [newline], fun text => by simp [newline, readEscape, unescape]⟩
  by_cases carriage : c = '\r'
  · exact .inr ⟨['r'], by simp [carriage], fun text => by simp [carriage, readEscape, unescape]⟩
  by_cases tab : c = '\t'
  · exact .inr ⟨['t'], by simp [tab], fun text => by simp [tab, readEscape, unescape]⟩
  by_cases backspace : c = '\x08'
  · exact .inr ⟨['b'], by simp [backspace], fun text => by simp [backspace, readEscape, unescape]⟩
  by_cases feed : c = '\x0c'
  · exact .inr ⟨['f'], by simp [feed], fun text => by simp [feed, readEscape, unescape]⟩
  simp only [quoted, slash, newline, carriage, tab, backspace, feed, if_false]
  by_cases control : c.toNat < 0x20
  · refine .inr ⟨_, if_pos control, fun text => ?_⟩
    have plain : isHigh c.toNat = false ∧ isLow c.toNat = false := by
      simp only [isHigh, isLow, decide_eq_false_iff_not]
      omega
    simp [readEscape, codeUnit_hexDigit control, plain]
  · exact .inl ⟨if_neg control, quoted, slash, control⟩

/-- What was quoted is read back, whatever follows. -/
theorem readChars_quote (chars text : List Char) {fuel : Nat} (enough : chars.length < fuel) :
    readChars fuel (chars.flatMap escape ++ '"' :: text) = some (chars, text) := by
  induction chars generalizing fuel with
  | nil =>
    obtain ⟨fuel, rfl⟩ := Nat.exists_eq_add_one_of_ne_zero (by omega : fuel ≠ 0)
    simp [readChars]
  | cons c chars ih =>
    obtain ⟨fuel, rfl⟩ := Nat.exists_eq_add_one_of_ne_zero (by omega : fuel ≠ 0)
    have rest : readChars fuel _ = some (chars, text) := ih (by simpa using enough)
    rw [List.flatMap_cons, List.append_assoc]
    rcases escape_cases c with ⟨plain, quoted, slash, printable⟩ | ⟨code, escaped, back⟩
    · simp [plain, readChars, quoted, slash, printable, rest]
    · simp [escaped, readChars, back, rest]

theorem escape_ne_nil (c : Char) : escape c ≠ [] := by
  rcases escape_cases c with ⟨plain, _⟩ | ⟨code, escaped, _⟩
  · simp [plain]
  · simp [escaped]

theorem length_quote (s : String) : s.toList.length + 2 ≤ (quote s).length := by
  have body : s.toList.length ≤ (s.toList.flatMap escape).length := by
    induction s.toList with
    | nil => simp
    | cons c chars ih =>
      have written := List.length_pos_iff.mpr (escape_ne_nil c)
      simp only [List.flatMap_cons, List.length_append, List.length_cons]
      omega
  simp only [quote, List.length_append, List.length_cons, List.length_nil]
  omega

end Strings

def isDigit (c : Char) : Bool := decide ('0' ≤ c ∧ c ≤ '9')

/-- The integer part of a number. -/
def scanInteger : List Char → Option (List Char × List Char)
  | '-' :: text => (scanWhole text).map fun (whole, rest) => ('-' :: whole, rest)
  | text => scanWhole text
where
  scanWhole : List Char → Option (List Char × List Char)
    | [] => none
    | c :: text =>
      if c = '0' then some (['0'], text)
      else if isDigit c then some (c :: text.takeWhile isDigit, text.dropWhile isDigit)
      else none

/-- The fraction of a number, if one follows. -/
def scanFraction : List Char → List Char × List Char
  | [] => ([], [])
  | c :: text =>
    if c = '.' ∧ text.takeWhile isDigit ≠ [] then
      (c :: text.takeWhile isDigit, text.dropWhile isDigit)
    else ([], c :: text)

def scanSign : List Char → List Char × List Char
  | [] => ([], [])
  | c :: text => if c = '+' ∨ c = '-' then ([c], text) else ([], c :: text)

/-- The exponent of a number, if one follows. -/
def scanExponent : List Char → List Char × List Char
  | [] => ([], [])
  | c :: text =>
    if (c = 'e' ∨ c = 'E') ∧ (scanSign text).2.takeWhile isDigit ≠ [] then
      (c :: (scanSign text).1 ++ (scanSign text).2.takeWhile isDigit,
        (scanSign text).2.dropWhile isDigit)
    else ([], c :: text)

/-- A number as its integer part, its fraction with its exponent, and the rest of the text. -/
def scanNumber (text : List Char) : Option (List Char × List Char × List Char) :=
  (scanInteger text).map fun (whole, text) =>
    (whole, (scanFraction text).1 ++ (scanExponent (scanFraction text).2).1,
      (scanExponent (scanFraction text).2).2)

def intText : Int → List Char
  | .ofNat n => Nat.toDigits 10 n
  | .negSucc n => '-' :: Nat.toDigits 10 (n + 1)

def readInt : List Char → Int
  | '-' :: digits => -(Nat.ofDigitChars 10 digits 0 : Int)
  | digits => (Nat.ofDigitChars 10 digits 0 : Int)

/-- No character of a number follows. -/
def Stops (text : List Char) : Prop :=
  ∀ c ∈ text.head?, isDigit c = false ∧ c ≠ '.' ∧ c ≠ 'e' ∧ c ≠ 'E' ∧ c ≠ '+' ∧ c ≠ '-'

section Numbers
variable {rest : List Char} (stops : Stops rest)

include stops in
private theorem digits_append (text : List Char) :
    (text ++ rest).takeWhile isDigit = text.takeWhile isDigit ∧
      (text ++ rest).dropWhile isDigit = text.dropWhile isDigit ++ rest := by
  induction text with
  | nil =>
    cases rest with
    | nil => simp
    | cons c rest =>
      have other : isDigit c = false := (stops c rfl).1
      simp [other]
  | cons c text ih =>
    cases digit : isDigit c with
    | true => simp [digit, ih]
    | false => simp [digit]

include stops in
theorem scanFraction_append (text : List Char) :
    scanFraction (text ++ rest) = ((scanFraction text).1, (scanFraction text).2 ++ rest) := by
  cases text with
  | nil =>
    cases rest with
    | nil => rfl
    | cons c rest => simp [scanFraction, (stops c rfl).2.1]
  | cons c text =>
    obtain ⟨taken, dropped⟩ := digits_append stops text
    simp only [List.cons_append, scanFraction, taken, dropped]
    split <;> rfl

include stops in
theorem scanSign_append (text : List Char) :
    scanSign (text ++ rest) = ((scanSign text).1, (scanSign text).2 ++ rest) := by
  cases text with
  | nil =>
    cases rest with
    | nil => rfl
    | cons c rest => simp [scanSign, (stops c rfl).2.2.2.2]
  | cons c text =>
    simp only [List.cons_append, scanSign]
    split <;> rfl

include stops in
theorem scanExponent_append (text : List Char) :
    scanExponent (text ++ rest) = ((scanExponent text).1, (scanExponent text).2 ++ rest) := by
  cases text with
  | nil =>
    cases rest with
    | nil => rfl
    | cons c rest => simp [scanExponent, (stops c rfl).2.2]
  | cons c text =>
    obtain ⟨taken, dropped⟩ := digits_append stops (scanSign text).2
    simp only [List.cons_append, scanExponent, scanSign_append stops, taken, dropped]
    split <;> rfl

include stops in
theorem scanWhole_append {text whole left : List Char}
    (scanned : scanInteger.scanWhole text = some (whole, left)) :
    scanInteger.scanWhole (text ++ rest) = some (whole, left ++ rest) := by
  cases text with
  | nil => cases scanned
  | cons c text =>
    obtain ⟨taken, dropped⟩ := digits_append stops text
    simp only [List.cons_append, scanInteger.scanWhole, taken, dropped] at scanned ⊢
    split
    · rename_i zero
      simp_all
    · split
      · simp_all
      · simp_all

include stops in
theorem scanInteger_append {text whole left : List Char}
    (scanned : scanInteger text = some (whole, left)) :
    scanInteger (text ++ rest) = some (whole, left ++ rest) := by
  cases text with
  | nil => cases scanned
  | cons c text =>
    by_cases minus : c = '-'
    · subst minus
      simp only [List.cons_append, scanInteger, Option.map_eq_some_iff] at scanned ⊢
      obtain ⟨⟨digits, left⟩, scanned, same⟩ := scanned
      obtain ⟨rfl, rfl⟩ := Prod.mk.inj same
      exact ⟨_, scanWhole_append stops scanned, rfl⟩
    · have plain : ∀ text, scanInteger (c :: text) = scanInteger.scanWhole (c :: text) := by
        intro text
        unfold scanInteger
        split
        · simp_all
        · rfl
      rw [List.cons_append, plain] at *
      exact scanWhole_append stops scanned

include stops in
/-- A number is scanned the same whatever stops it. -/
theorem scanNumber_append {text whole part : List Char}
    (scanned : scanNumber text = some (whole, part, [])) :
    scanNumber (text ++ rest) = some (whole, part, rest) := by
  unfold scanNumber at scanned ⊢
  obtain ⟨⟨digits, left⟩, integer, same⟩ := Option.map_eq_some_iff.mp scanned
  simp only [Prod.mk.injEq] at same
  obtain ⟨rfl, rfl, ended⟩ := same
  simp [scanInteger_append stops integer, scanFraction_append stops, scanExponent_append stops, ended]

end Numbers

section Parts
variable {text whole part left : List Char}

private theorem scanWhole_text (scanned : scanInteger.scanWhole text = some (whole, left)) :
    text = whole ++ left ∧ ∃ c ∈ text.head?, isDigit c = true := by
  cases text with
  | nil => cases scanned
  | cons c text =>
    simp only [scanInteger.scanWhole] at scanned
    split at scanned
    · rename_i zero
      simp only [Option.some.injEq, Prod.mk.injEq] at scanned
      obtain ⟨rfl, rfl⟩ := scanned
      exact ⟨by simp [zero], c, rfl, by simp [zero, isDigit]⟩
    · split at scanned
      · rename_i digit
        simp only [Option.some.injEq, Prod.mk.injEq] at scanned
        obtain ⟨rfl, rfl⟩ := scanned
        exact ⟨by simp, c, rfl, digit⟩
      · cases scanned

private theorem scanInteger_text (scanned : scanInteger text = some (whole, left)) :
    text = whole ++ left ∧ ∃ c ∈ text.head?, c = '-' ∨ isDigit c = true := by
  unfold scanInteger at scanned
  split at scanned
  · obtain ⟨⟨digits, rest⟩, scanWhole, same⟩ := Option.map_eq_some_iff.mp scanned
    obtain ⟨rfl, rfl⟩ := Prod.mk.inj same
    exact ⟨by simp [← (scanWhole_text scanWhole).1], '-', rfl, .inl rfl⟩
  · obtain ⟨split, c, head, digit⟩ := scanWhole_text scanned
    exact ⟨split, c, head, .inr digit⟩

private theorem scanFraction_text (text : List Char) :
    (scanFraction text).1 ++ (scanFraction text).2 = text := by
  cases text with
  | nil => rfl
  | cons c text =>
    simp only [scanFraction]
    split <;> simp

private theorem scanSign_text (text : List Char) :
    (scanSign text).1 ++ (scanSign text).2 = text := by
  cases text with
  | nil => rfl
  | cons c text =>
    simp only [scanSign]
    split <;> simp

private theorem scanExponent_text (text : List Char) :
    (scanExponent text).1 ++ (scanExponent text).2 = text := by
  cases text with
  | nil => rfl
  | cons c text =>
    simp only [scanExponent]
    split <;> simp [scanSign_text]

/-- The parts of a number are its text. -/
theorem scanNumber_text (scanned : scanNumber text = some (whole, part, left)) :
    text = whole ++ (part ++ left) ∧ ∃ c ∈ text.head?, c = '-' ∨ isDigit c = true := by
  obtain ⟨⟨digits, rest⟩, integer, same⟩ := Option.map_eq_some_iff.mp scanned
  simp only [Prod.mk.injEq] at same
  obtain ⟨rfl, rfl, rfl⟩ := same
  obtain ⟨split, head⟩ := scanInteger_text integer
  refine ⟨?_, head⟩
  rw [split, List.append_assoc, scanExponent_text, scanFraction_text]

end Parts

section Integers

theorem isDigit_iff (c : Char) : isDigit c = c.isDigit := by
  simp [isDigit, Char.isDigit, Char.le_def, Bool.decide_and]

theorem isDigit_toDigits {n : Nat} {c : Char} (member : c ∈ Nat.toDigits 10 n) : isDigit c = true := by
  rw [isDigit_iff]
  exact Nat.isDigit_of_mem_toDigits (by decide) (by decide) member

/-- Digits start with a zero only if they are the digits of zero. -/
theorem toDigits_cases (n : Nat) :
    (n = 0 ∧ Nat.toDigits 10 n = ['0']) ∨ ∃ c digits, Nat.toDigits 10 n = c :: digits ∧ c ≠ '0' := by
  induction n using Nat.strongRecOn with
  | ind n ih =>
    by_cases small : n < 10
    · by_cases zero : n = 0
      · exact .inl ⟨zero, by rw [zero, Nat.toDigits_zero]⟩
      · refine .inr ⟨_, _, Nat.toDigits_of_lt_base small, ?_⟩
        have check : ∀ n < 10, n ≠ 0 → n.digitChar ≠ '0' := by decide
        exact check n small zero
    · rw [Nat.toDigits_of_base_le (by decide) (by omega)]
      rcases ih (n / 10) (by omega) with ⟨zero, _⟩ | ⟨c, digits, same, positive⟩
      · omega
      · exact .inr ⟨c, _, by rw [same]; rfl, positive⟩

theorem scanWhole_toDigits (n : Nat) :
    scanInteger.scanWhole (Nat.toDigits 10 n) = some (Nat.toDigits 10 n, []) := by
  rcases toDigits_cases n with ⟨_, same⟩ | ⟨c, digits, same, positive⟩
  · rw [same]
    rfl
  · have all : ∀ d ∈ c :: digits, isDigit d = true := by
      intro d member
      exact isDigit_toDigits (same ▸ member)
    have rest : ∀ d ∈ digits, isDigit d = true := fun d member => all d (List.mem_cons_of_mem _ member)
    rw [same]
    simp [scanInteger.scanWhole, positive, all c List.mem_cons_self,
      List.takeWhile_eq_self_iff.mpr rest, List.dropWhile_eq_nil_iff.mpr rest]

private theorem minus_notMem_toDigits (n : Nat) : '-' ∉ Nat.toDigits 10 n := by
  intro member
  exact absurd (isDigit_toDigits member) (by decide)

private theorem scanInteger_toDigits (n : Nat) :
    scanInteger (Nat.toDigits 10 n) = some (Nat.toDigits 10 n, []) := by
  unfold scanInteger
  split
  · rename_i text same
    exact absurd (same ▸ List.mem_cons_self) (minus_notMem_toDigits n)
  · exact scanWhole_toDigits n

theorem scanNumber_intText (i : Int) : scanNumber (intText i) = some (intText i, [], []) := by
  have integer : scanInteger (intText i) = some (intText i, []) := by
    cases i with
    | ofNat n => exact scanInteger_toDigits n
    | negSucc n => simp [intText, scanInteger, scanWhole_toDigits]
  simp [scanNumber, integer, scanFraction, scanExponent]

theorem readInt_intText (i : Int) : readInt (intText i) = i := by
  cases i with
  | ofNat n =>
    unfold readInt
    split
    · rename_i digits same
      have member : '-' ∈ intText (.ofNat n) := same ▸ List.mem_cons_self
      exact absurd member (minus_notMem_toDigits n)
    · simp only [intText, Nat.ofDigitChars_ten_toDigits]
      rfl
  | negSucc n =>
    simp only [intText, readInt, Nat.ofDigitChars_ten_toDigits]
    rfl

end Integers
end Collector.Lib.JsonText
