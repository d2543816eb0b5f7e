import Collector.Translation.Segments
import Mathlib.Data.List.Sort

/-!
The patterns of `preservation`: placeholders, tags, URLs, e-mail addresses, dates and numbers, and
the normal form of a number.
-/

namespace Collector.Translation
open Collector.Lib
open Collector.Persistence (isSpace)

/-- `PLACEHOLDER_TEMPLATE.format(id)`. -/
def placeholderText (id : Nat) : Text := "<x id=\"".toList ++ Nat.toDigits 10 id ++ "\"/>".toList

section Patterns
variable (tables : Tables)

def digit : Regex := .one tables.isDigit

def word : Regex := .one tables.isWord

def space : Regex := .one isSpace

/-- `<x\s+id="(\d+)"\s*/?>(?:\s*</x>)?`. -/
def placeholderRe : Regex :=
  .all [.text "<x".toList, .plus space, .text "id=\"".toList, .group (.plus (digit tables)),
    .text ['"'], .star space, .opt (.text ['/']), .text ['>'],
    .opt (.all [.star space, .text "</x>".toList])]

/-- `<!--(?:[^-<]|-(?!->))*-->`. -/
def commentRe : Regex :=
  .all [.text "<!--".toList,
    .star (.alt (.noneOf ['-', '<']) (.seq (.oneOf ['-']) (.notAhead (.text "->".toList)))),
    .text "-->".toList]

/-- `<[^<>]*>`. -/
def bracketRe : Regex :=
  .seq (.oneOf ['<']) (.seq (.star (.noneOf ['<', '>'])) (.oneOf ['>']))

/-- `_TAG_RE`. -/
def tagRe : Regex := .alt commentRe bracketRe

def groupSeparators : List Char := [' ', '\u00a0', '\u202f', '\'', '\u2019']

def currency : Regex :=
  .anyOf (["€", "$", "£", "zł", "Ft", "Kč", "lei", "kn", "CHF", "EUR", "USD", "GBP", "PLN", "HUF",
    "CZK", "RON", "SEK", "DKK", "NOK", "BGN", "UAH", "грн"].map fun name => .text name.toList)

/-- `_NUMBER`. -/
def number : Regex :=
  let fraction : Regex := .opt (.seq (.oneOf ['.', ',']) (.plus (digit tables)))
  .alt
    (.all [digit tables, .upTo 2 (digit tables),
      .plus (.seq (.oneOf (groupSeparators ++ ['.', ','])) (.times 3 (digit tables))), fraction,
      .notAhead (digit tables)])
    (.seq (.plus (digit tables)) fraction)

/-- A letter under `re.IGNORECASE`; the long s folds to `s`. -/
def letter (c : Char) : Regex :=
  .oneOf ([c, c.toUpper] ++ if c = 's' then ['\u017f'] else [])

/-- `(?:https?://|www\.)[^\s<>"'«»]+`. -/
def urlRe : Regex :=
  .seq
    (.alt
      (.all [letter 'h', letter 't', letter 't', letter 'p', .opt (letter 's'), .text "://".toList])
      (.all [letter 'w', letter 'w', letter 'w', .text ['.']]))
    (.plus (.one fun c => !isSpace c && decide (c ∉ ['<', '>', '"', '\'', '«', '»'])))

/-- `_URL_TRAILING`. -/
def urlTrailing : List Char := ".,;:!?)]\x7d»”’\"'".toList

/-- `(?<![\w.+-])[\w.+-]+@[\w-]+(?:\.[\w-]+)+`. -/
def emailRe : Regex :=
  let name (c : Char) : Bool := tables.isWord c || decide (c ∈ ['.', '+', '-'])
  let label : Regex := .plus (.one fun c => tables.isWord c || decide (c = '-'))
  .all [.notBehind name, .plus (.one name), .text ['@'], label, .plus (.seq (.text ['.']) label)]

/-- `(?<!\d)(?:\d{1,2}[./]\d{1,2}[./]\d{2,4}|\d{4}-\d{2}-\d{2})(?![\d])`. -/
def dateRe : Regex :=
  let d := digit tables
  let mark : Regex := .oneOf ['.', '/']
  .all [.notBehind tables.isDigit,
    .alt
      (.all [d, .upTo 1 d, mark, d, .upTo 1 d, mark, .times 2 d, .upTo 2 d])
      (.all [.times 4 d, .text ['-'], .times 2 d, .text ['-'], .times 2 d]),
    .notAhead d]

/-- `_AMOUNT_RE`. -/
def amountRe : Regex :=
  .all [.notBehind (fun c => tables.isWord c || decide (c ∈ ['.', ','])),
    .opt (.seq currency (.opt space)), number tables,
    .opt (.seq (.opt space)
      (.anyOf [.text ['%'], .text ['‰'], .seq currency (.notAhead (word tables))])),
    .notAhead (digit tables)]

/-- `_SIGNS`: hyphen, minus sign and en dash. -/
def signs : List Char := ['-', '\u2212', '\u2013']

/-- `_BARE_NUMBER_RE`. -/
def bareNumberRe : Regex :=
  .all [.notBehind (fun c => tables.isDigit c || decide (c ∈ ['.', ','])),
    .opt (.all [.notBehind (fun c => tables.isWord c || decide (c ∈ ['.', ','])), .oneOf signs,
      .ahead true (digit tables)]),
    number tables]

/-- `(?<!\w)term(?!\w)`. -/
def termRe (term : Text) : Regex :=
  .all [.notBehind tables.isWord, .text term, .notAhead (word tables)]

end Patterns

/-- The end of a URL, last character first, without its trailing punctuation; a `)` that closes a
`(` of the URL stays. -/
def trimUrl : Text → Text
  | [] => []
  | c :: rest =>
    if c ∈ urlTrailing then
      if c = ')' ∧ (c :: rest).count ')' ≤ (c :: rest).count '(' then c :: rest else trimUrl rest
    else c :: rest

def urlSpans (plain : Text) : List (Nat × Nat) :=
  (urlRe.spans plain).map fun (start, stop) =>
    (start, start + (trimUrl (slice plain start stop).reverse).length)

def urls (text : Text) : List Text :=
  (urlSpans text).map fun (start, stop) => slice text start stop

def emails (tables : Tables) (text : Text) : List Text :=
  ((emailRe tables).hits text).map Regex.Hit.text

def tags (fragment : Text) : List Text := (tagRe.hits fragment).map Regex.Hit.text

def visibleText (tables : Tables) (fragment : Text) : Text :=
  unescape tables (tagRe.sub (fun _ => [' ']) fragment)

section Numbers

/-- The parts of `text` around the last `mark`. -/
def rpartition (mark : Char) (text : Text) : Text × Text :=
  let tail := text.rtakeWhile fun c => decide (c ≠ mark)
  (text.take (text.length - tail.length - 1), tail)

def normalizeUnsigned (digits : Text) : Text :=
  let marks := digits.filter fun c => decide (c ∈ ['.', ','])
  match marks.getLast? with
  | none => digits
  | some last =>
    let (head, tail) := rpartition last digits
    if marks.any fun mark => decide (mark ≠ last) then
      head.filter (fun c => decide (c ∉ ['.', ','])) ++ '.' :: tail
    else if 1 < marks.length ∨ tail.length = 3 then digits.filter fun c => decide (c ≠ last)
    else head ++ '.' :: tail

def normalizeNumber (raw : Text) : Text :=
  let sign := if raw.head?.all fun c => decide (c ∈ signs) then ['-'] else []
  let digits := (raw.dropWhile fun c => decide (c ∈ signs)).filter fun c =>
    decide (c ∉ groupSeparators)
  sign ++ normalizeUnsigned digits

/-- `sorted` of pairs of positions. -/
def spanOrder (a b : Nat × Nat) : Prop := a.1 < b.1 ∨ a.1 = b.1 ∧ a.2 ≤ b.2

instance : DecidableRel spanOrder := fun a b =>
  inferInstanceAs (Decidable (a.1 < b.1 ∨ a.1 = b.1 ∧ a.2 ≤ b.2))

/-- What is left of a text, from a position on, between the spans, joined by spaces. -/
def cutOut (text : Text) : Nat → List (Nat × Nat) → Text
  | position, [] => text.drop position
  | position, (start, stop) :: spans =>
    if position ≤ start then slice text position start ++ ' ' :: cutOut text stop spans
    else cutOut text position spans

/-- The numbers of a text outside its URLs and e-mail addresses. -/
def numbers (tables : Tables) (text : Text) : List Text :=
  let spans := (urlSpans text ++ (emailRe tables).spans text).insertionSort spanOrder
  ((bareNumberRe tables).hits (cutOut text 0 spans)).map fun hit => normalizeNumber hit.text

end Numbers
end Collector.Translation
