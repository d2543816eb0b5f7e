import Collector.Lib.Regex
import Collector.Persistence.Core
import Mathlib.Data.List.DropRight

/-!
Texts and what the standard library does with them: whitespace, decimal digits, regular-expression
classes, and the escaping of HTML. What it looks up or computes there, the Unicode database, the
character references of HTML 5 and SHA-256, are parameters. The interpreter's limit on the digits
of an integer literal is a setting of the process and left out.
-/

namespace Collector.Translation
open Collector.Lib
open Collector.Persistence (Bytes isSpace)

/-- A `str` as its code points. -/
abbrev Text := List Char

instance : LawfulBEq Text := inferInstance

structure Tables where
  /-- The value of a decimal digit. -/
  decimal : Char → Option Nat
  /-- `str.isalnum` of one character. -/
  alnum : Char → Bool
  /-- Category `Cc`. -/
  control : Char → Bool
  /-- Category `Cf`. -/
  format : Char → Bool
  /-- `unicodedata.normalize("NFC", text)`. -/
  nfc : Text → Text
  /-- `html.entities.html5`, whose names may end in `;`. -/
  html5 : Text → Option Text
  /-- `str.lower`. -/
  lower : Text → Text
  /-- `hashlib.sha256(…).hexdigest()`. -/
  sha256Hex : Bytes → String

namespace Tables
variable (tables : Tables)

/-- `\d`. -/
def isDigit (c : Char) : Bool := (tables.decimal c).isSome

/-- `\w`. -/
def isWord (c : Char) : Bool := tables.alnum c || decide (c = '_')

/-- `int(text)` of decimal digits. -/
def int (digits : Text) : Nat :=
  digits.foldl (fun value c => 10 * value + (tables.decimal c).getD 0) 0

end Tables

/-- `text.lstrip()`. -/
def lstrip (text : Text) : Text := text.dropWhile isSpace

/-- `text.rstrip()`. -/
def rstrip (text : Text) : Text := text.rdropWhile isSpace

def strip (text : Text) : Text := rstrip (lstrip text)

/-- `text[start:stop]`. -/
def slice (text : Text) (start stop : Nat) : Text := (text.take stop).drop start

/-- `html.escape(text, quote=quote)`. -/
def escape (quote : Bool) (text : Text) : Text :=
  text.flatMap fun
    | '&' => "&amp;".toList
    | '<' => "&lt;".toList
    | '>' => "&gt;".toList
    | '"' => if quote then "&quot;".toList else ['"']
    | '\'' => if quote then "&#x27;".toList else ['\'']
    | c => [c]

/-- Escaped text begins no tag. -/
theorem lt_not_mem_escape (quote : Bool) (text : Text) : '<' ∉ escape quote text := by
  intro member
  obtain ⟨c, _, inside⟩ := List.mem_flatMap.mp member
  split at inside
  · revert inside
    decide
  · revert inside
    decide
  · revert inside
    decide
  · cases quote <;> revert inside <;> decide
  · cases quote <;> revert inside <;> decide
  · rename_i other _ _ _
    exact other (List.mem_singleton.mp inside).symm

section Unescape

def isAsciiDigit (c : Char) : Bool := decide ('0' ≤ c ∧ c ≤ '9')

/-- The value of a hexadecimal digit. -/
def hexValue (c : Char) : Option Nat :=
  if '0' ≤ c ∧ c ≤ '9' then some (c.toNat - '0'.toNat)
  else if 'a' ≤ c ∧ c ≤ 'f' then some (c.toNat - 'a'.toNat + 10)
  else if 'A' ≤ c ∧ c ≤ 'F' then some (c.toNat - 'A'.toNat + 10)
  else none

/-- `html._charref`. -/
def charref : Regex :=
  .all [.text ['&'], .group (.anyOf [
    .all [.text ['#'], .plus (.one isAsciiDigit), .opt (.text [';'])],
    .all [.text ['#'], .oneOf ['x', 'X'], .plus (.one fun c => (hexValue c).isSome),
      .opt (.text [';'])],
    .all [.noneOf ['\t', '\n', '\x0c', ' ', '<', '&', '#', ';'],
      .upTo 31 (.noneOf ['\t', '\n', '\x0c', ' ', '<', '&', '#', ';']), .opt (.text [';'])]])]

/-- `html._invalid_charrefs`. -/
def invalidCharrefs : List (Nat × Nat) := [
  (0x00, 0xfffd), (0x0d, 0x0d), (0x80, 0x20ac), (0x81, 0x81), (0x82, 0x201a), (0x83, 0x0192),
  (0x84, 0x201e), (0x85, 0x2026), (0x86, 0x2020), (0x87, 0x2021), (0x88, 0x02c6), (0x89, 0x2030),
  (0x8a, 0x0160), (0x8b, 0x2039), (0x8c, 0x0152), (0x8d, 0x8d), (0x8e, 0x017d), (0x8f, 0x8f),
  (0x90, 0x90), (0x91, 0x2018), (0x92, 0x2019), (0x93, 0x201c), (0x94, 0x201d), (0x95, 0x2022),
  (0x96, 0x2013), (0x97, 0x2014), (0x98, 0x02dc), (0x99, 0x2122), (0x9a, 0x0161), (0x9b, 0x203a),
  (0x9c, 0x0153), (0x9d, 0x9d), (0x9e, 0x017e), (0x9f, 0x0178)]

/-- `html._invalid_codepoints`. -/
def invalidCodepoint (n : Nat) : Bool :=
  decide (0x1 ≤ n ∧ n ≤ 0x8) || decide (0xe ≤ n ∧ n ≤ 0x1f) || decide (0x7f ≤ n ∧ n ≤ 0x9f) ||
    decide (0xfdd0 ≤ n ∧ n ≤ 0xfdef) || decide (n = 0xb) ||
    decide (n % 0x10000 = 0xfffe ∨ n % 0x10000 = 0xffff)

/-- A numeric character reference. -/
def numericCharref (n : Nat) : Text :=
  match invalidCharrefs.lookup n with
  | some code => [Char.ofNat code]
  | none =>
    if (0xd800 ≤ n ∧ n ≤ 0xdfff) ∨ 0x10ffff < n then ['\ufffd']
    else if invalidCodepoint n then []
    else [Char.ofNat n]

/-- The longest known name, of two characters or more, at the beginning of a reference. -/
def namedPrefix (tables : Tables) (name : Text) : Nat → Text
  | 0 | 1 => '&' :: name
  | n + 1 =>
    match tables.html5 (name.take (n + 1)) with
    | some value => value ++ name.drop (n + 1)
    | none => namedPrefix tables name n

/-- `html._replace_charref` of the group. -/
def replaceCharref (tables : Tables) (name : Text) : Text :=
  match name with
  | '#' :: digits =>
    match digits with
    | 'x' :: hex | 'X' :: hex =>
      numericCharref (hex.foldl (fun value c => ((hexValue c).map (16 * value + ·)).getD value) 0)
    | _ => numericCharref (tables.int (digits.filter isAsciiDigit))
  | _ =>
    match tables.html5 name with
    | some value => value
    | none => namedPrefix tables name (name.length - 1)

/-- `html.unescape`. -/
def unescape (tables : Tables) (text : Text) : Text :=
  charref.sub (fun hit => replaceCharref tables (hit.groups.headD [])) text

end Unescape
end Collector.Translation
