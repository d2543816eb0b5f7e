import Collector.Lib.RegexRuns
import Collector.Translation.Preservation

/-!
Placeholders in a masked text. Where all other text is without `<`, the pattern finds exactly the
placeholders, each whole: neither the digits nor what stands behind one leaves it a choice.
-/

namespace Collector.Translation
open Collector.Lib
open Collector.Persistence (isSpace)

/-- The decimal digits of ASCII have their values, and the quotation mark has none. -/
structure Tables.Ascii (tables : Tables) : Prop where
  digit : ∀ c : Char, c.isDigit = true → tables.decimal c = some (c.toNat - '0'.toNat)
  quote : tables.decimal '"' = none

section Digits
variable {tables : Tables} (ascii : tables.Ascii)
include ascii

theorem Tables.Ascii.isDigit {c : Char} (digit : c.isDigit = true) : tables.isDigit c = true := by
  rw [Tables.isDigit, ascii.digit c digit]
  rfl

theorem Tables.Ascii.int_toDigits (n : Nat) : tables.int (Nat.toDigits 10 n) = n := by
  have same : ∀ (digits : List Char) (value : Nat), (∀ c ∈ digits, c.isDigit = true) →
      digits.foldl (fun value c => 10 * value + (tables.decimal c).getD 0) value =
        Nat.ofDigitChars 10 digits value := by
    intro digits
    induction digits with
    | nil => exact fun _ _ => rfl
    | cons c digits ih =>
      intro value each
      rw [List.forall_mem_cons] at each
      rw [List.foldl_cons, ih _ each.2, ascii.digit c each.1]
      rfl
  rw [Tables.int, same _ 0 fun c member => Nat.isDigit_of_mem_toDigits (by decide) (by decide) member]
  exact Nat.ofDigitChars_toDigits (by decide) (by decide)

end Digits

section Match
variable {tables : Tables}

/-- No `</x>` follows, not even behind spaces. -/
def Unclosed (rest : Text) : Prop := Regex.afterText "</x>".toList (rest.dropWhile isSpace) = none

theorem ends_closing {rest : Text} (unclosed : Unclosed rest) (before : Option Char)
    (groups : List (List Char)) :
    (Regex.seq (.opt (.all [.star space, .text "</x>".toList])) .empty).ends ⟨before, rest, groups⟩ =
      [⟨before, rest, groups⟩] := by
  have stuck : Regex.Stuck isSpace (Regex.seq (.text "</x>".toList) .empty).ends := by
    intro before c rest groups blank
    apply Regex.ends_text_seq_nil
    rintro ⟨⟩
    revert blank
    decide
  have missed : (Regex.all [.star space, .text "</x>".toList]).ends ⟨before, rest, groups⟩ = [] := by
    change (Regex.seq (.star space) (.seq (.text "</x>".toList) .empty)).ends _ = []
    have open' : (Regex.text "</x>".toList).ends (Regex.Place.pass isSpace ⟨before, rest, groups⟩) = [] :=
      (Regex.readsAs_text _).missed _ unclosed
    rw [space, Regex.ends_star_seq stuck, Regex.ends, open', List.flatMap_nil]
  rw [Regex.ends, Regex.opt, Regex.ends, missed]
  rfl

/-- What follows the number of a placeholder. -/
def placeholderEnd : Regex :=
  .all [.text ['"'], .star space, .opt (.text ['/']), .text ['>'],
    .opt (.all [.star space, .text "</x>".toList])]

/-- The end of a placeholder, behind its number. -/
theorem ends_mark {rest : Text} (unclosed : Unclosed rest) (before : Option Char)
    (groups : List (List Char)) :
    ∃ last, placeholderEnd.ends ⟨before, '"' :: '/' :: '>' :: rest, groups⟩ = [⟨last, rest, groups⟩] := by
  let closing : Regex := .seq (.opt (.all [.star space, .text "</x>".toList])) .empty
  let slash : Regex := .seq (.opt (.text ['/'])) (.seq (.text ['>']) closing)
  have stuck : Regex.Stuck isSpace slash.ends := by
    intro before c rest groups blank
    have neither : c ≠ '/' ∧ c ≠ '>' := by
      constructor <;> rintro rfl <;> revert blank <;> decide
    simp [slash, Regex.ends, Regex.opt, Regex.text, neither.1, neither.2]
  have stays : Regex.Place.pass isSpace ⟨some '"', '/' :: '>' :: rest, groups⟩ =
      ⟨some '"', '/' :: '>' :: rest, groups⟩ := by
    apply Regex.pass_of_not
    rintro c ⟨⟩
    decide
  have spaces : (Regex.seq (.star space) slash).ends ⟨some '"', '/' :: '>' :: rest, groups⟩ =
      slash.ends ⟨some '"', '/' :: '>' :: rest, groups⟩ := by
    rw [space, Regex.ends_star_seq stuck, stays]
  have quote : (Regex.seq (.text ['"']) (.seq (.star space) slash)).ends
      ⟨before, '"' :: '/' :: '>' :: rest, groups⟩ =
        (Regex.seq (.star space) slash).ends ⟨some '"', '/' :: '>' :: rest, groups⟩ := by
    simp [Regex.ends, Regex.text]
  have last : slash.ends ⟨some '"', '/' :: '>' :: rest, groups⟩ =
      closing.ends ⟨some '>', rest, groups⟩ := by
    simp [slash, Regex.ends, Regex.opt, Regex.text]
  exact ⟨some '>', quote.trans (spaces.trans (last.trans (ends_closing unclosed _ _)))⟩

/-- A placeholder up to its number. -/
theorem ends_opening {next : Regex} {rest : Text} (before : Option Char) :
    ∃ last, (Regex.seq (.text "<x".toList) (.seq (.plus space)
      (.seq (.text "id=\"".toList) next))).ends ⟨before, "<x id=\"".toList ++ rest, []⟩ =
        next.ends ⟨last, rest, []⟩ := by
  let name : Regex := .seq (.text "id=\"".toList) next
  have stuck : Regex.Stuck isSpace name.ends := by
    intro before c rest groups blank
    apply Regex.ends_text_seq_nil
    rintro ⟨⟩
    revert blank
    decide
  have stays : Regex.Place.pass isSpace ⟨some ' ', "id=\"".toList ++ rest, []⟩ =
      ⟨some ' ', "id=\"".toList ++ rest, []⟩ := by
    apply Regex.pass_of_not
    rintro c ⟨⟩
    decide
  have spaces : (Regex.seq (.plus space) name).ends ⟨some 'x', ' ' :: "id=\"".toList ++ rest, []⟩ =
      name.ends ⟨some ' ', "id=\"".toList ++ rest, []⟩ := by
    have one : (Regex.one isSpace).ends ⟨some 'x', ' ' :: "id=\"".toList ++ rest, []⟩ =
        [⟨some ' ', "id=\"".toList ++ rest, []⟩] := rfl
    have assoc : (Regex.seq (.plus space) name).ends ⟨some 'x', ' ' :: "id=\"".toList ++ rest, []⟩ =
        ((Regex.one isSpace).ends ⟨some 'x', ' ' :: "id=\"".toList ++ rest, []⟩).flatMap
          (Regex.seq (.star (.one isSpace)) name).ends := List.flatMap_assoc
    rw [assoc, one, List.flatMap_singleton, Regex.ends_star_seq stuck, stays]
  refine ⟨some '"', ?_⟩
  have start : (Regex.seq (.text "<x".toList) (.seq (.plus space) name)).ends
      ⟨before, "<x id=\"".toList ++ rest, []⟩ =
        (Regex.seq (.plus space) name).ends ⟨some 'x', ' ' :: "id=\"".toList ++ rest, []⟩ := by
    simp [Regex.ends, Regex.text]
  have last : name.ends ⟨some ' ', "id=\"".toList ++ rest, []⟩ = next.ends ⟨some '"', rest, []⟩ := by
    simp [name, Regex.ends, Regex.text]
  exact start.trans (spaces.trans last)

theorem placeholderText_append (id : Nat) (rest : Text) :
    placeholderText id ++ rest =
      "<x id=\"".toList ++ (Nat.toDigits 10 id ++ '"' :: '/' :: '>' :: rest) := by
  change ("<x id=\"".toList ++ Nat.toDigits 10 id ++ "\"/>".toList) ++ rest = _
  simp

theorem ends_number (ascii : tables.Ascii) (before : Option Char) (id : Nat) {rest : Text}
    (unclosed : Unclosed rest) :
    ∃ last, (Regex.seq (.group (.plus (digit tables))) placeholderEnd).ends
      ⟨before, Nat.toDigits 10 id ++ '"' :: '/' :: '>' :: rest, []⟩ =
        [⟨last, rest, [Nat.toDigits 10 id]⟩] := by
  obtain ⟨c, run, digits⟩ := List.exists_cons_of_ne_nil (Nat.toDigits_ne_nil (n := id) (b := 10))
  have meets : ∀ d ∈ c :: run, tables.isDigit d = true := by
    rw [← digits]
    exact fun d member => ascii.isDigit (Nat.isDigit_of_mem_toDigits (by decide) (by decide) member)
  have quote : tables.isDigit '"' = false := by
    rw [Tables.isDigit, ascii.quote]
    rfl
  have stuck : Regex.Stuck tables.isDigit placeholderEnd.ends := by
    intro before d rest groups digit
    apply Regex.ends_text_seq_nil
    intro same
    rw [Option.some.inj same, quote] at digit
    cases digit
  have other : ∀ d, ('"' :: '/' :: '>' :: rest).head? = some d → tables.isDigit d = false := by
    intro d same
    rw [← Option.some.inj same]
    exact quote
  obtain ⟨later, number⟩ := Regex.ends_group_plus_seq stuck meets other before []
  obtain ⟨last, closing⟩ := ends_mark unclosed later [c :: run]
  refine ⟨last, ?_⟩
  rw [digits]
  exact number.trans closing

/-- A placeholder that no `</x>` follows is matched whole. -/
theorem first_placeholder (ascii : tables.Ascii) (before : Option Char) (id : Nat) {rest : Text}
    (unclosed : Unclosed rest) :
    (placeholderRe tables).first before (placeholderText id ++ rest) =
      some ⟨placeholderText id, [Nat.toDigits 10 id]⟩ := by
  have forward : rest.length < (placeholderText id ++ rest).length := by
    rw [placeholderText_append]
    simp only [List.length_append, List.length_cons]
    omega
  have read : (placeholderText id ++ rest).take ((placeholderText id ++ rest).length - rest.length) =
      placeholderText id := by
    rw [List.length_append, Nat.add_sub_cancel]
    exact List.take_left
  obtain ⟨middle, opening⟩ : ∃ middle, (placeholderRe tables).ends
      ⟨before, "<x id=\"".toList ++ (Nat.toDigits 10 id ++ '"' :: '/' :: '>' :: rest), []⟩ =
        (Regex.seq (.group (.plus (digit tables))) placeholderEnd).ends
          ⟨middle, Nat.toDigits 10 id ++ '"' :: '/' :: '>' :: rest, []⟩ := ends_opening before
  obtain ⟨last, number⟩ := ends_number ascii middle id unclosed
  have found : (placeholderRe tables).ends ⟨before, placeholderText id ++ rest, []⟩ =
      [⟨last, rest, [Nat.toDigits 10 id]⟩] := by
    rw [placeholderText_append, opening, number]
  rw [Regex.first, found, List.find?_singleton, if_pos (decide_eq_true forward), Option.map_some,
    Regex.readBetween, read]

/-- Elsewhere than at a `<` nothing is matched. -/
theorem first_other (before : Option Char) {c : Char} {rest : Text} (other : c ≠ '<') :
    (placeholderRe tables).first before (c :: rest) = none := by
  have missed : (placeholderRe tables).ends ⟨before, c :: rest, []⟩ = [] :=
    Regex.ends_text_seq_nil fun same => other (Option.some.inj same)
  rw [Regex.first, missed]
  rfl

end Match

section Scan
variable {tables : Tables}

/-- A part of a masked text: text that was escaped, or a placeholder. -/
inductive MaskPart where
  | text (chars : Text)
  | mark (placeholder : Placeholder)

namespace MaskPart

def masked : MaskPart → Text
  | text chars => chars
  | mark placeholder => placeholderText placeholder.id

def restored : MaskPart → Text
  | text chars => chars
  | mark placeholder => placeholder.replacement

def placeholder? : MaskPart → Option Placeholder
  | text _ => none
  | mark placeholder => some placeholder

/-- Text without a `<`. -/
def Plain : MaskPart → Prop
  | text chars => '<' ∉ chars
  | mark _ => True

end MaskPart

/-- The match of a placeholder. -/
def hitOf (placeholder : Placeholder) : Regex.Hit :=
  ⟨placeholderText placeholder.id, [Nat.toDigits 10 placeholder.id]⟩

def MaskPart.pieces : MaskPart → List Regex.Piece
  | text chars => chars.map .char
  | mark placeholder => [.found (hitOf placeholder)]

theorem Unclosed.append {chars rest : Text} (free : '<' ∉ chars) (later : Unclosed rest) :
    Unclosed (chars ++ rest) := by
  induction chars with
  | nil => exact later
  | cons c chars ih =>
    rw [List.mem_cons, not_or] at free
    rw [List.cons_append, Unclosed]
    cases blank : isSpace c with
    | true =>
      rw [List.dropWhile_cons_of_pos blank]
      exact ih free.2
    | false =>
      have other : c ≠ '<' := fun same => free.1 same.symm
      rw [List.dropWhile_cons_of_neg (by rw [blank]; exact Bool.false_ne_true)]
      simp [Regex.afterText, Regex.afterOne, other]

/-- No masked text begins with `</x>`, with or without spaces before it. -/
theorem unclosed_parts {parts : List MaskPart} (plain : ∀ part ∈ parts, part.Plain) :
    Unclosed (parts.flatMap MaskPart.masked) := by
  induction parts with
  | nil => exact (by decide : Regex.afterText "</x>".toList [] = none)
  | cons part parts ih =>
    rw [List.forall_mem_cons] at plain
    rw [List.flatMap_cons]
    cases part with
    | text chars => exact Unclosed.append plain.1 (ih plain.2)
    | mark placeholder =>
      rw [MaskPart.masked, placeholderText_append, Unclosed]
      simp [Regex.afterText, Regex.afterOne, isSpace]

theorem scan_plain {chars rest : Text} (free : '<' ∉ chars) (before : Option Char) :
    ∃ last, (placeholderRe tables).scan before (chars ++ rest) 0 =
      chars.map .char ++ (placeholderRe tables).scan last rest 0 := by
  induction chars generalizing before with
  | nil => exact ⟨before, rfl⟩
  | cons c chars ih =>
    rw [List.mem_cons, not_or] at free
    obtain ⟨last, scanned⟩ := ih free.2 (some c)
    refine ⟨last, ?_⟩
    rw [List.cons_append, Regex.scan, first_other before fun same => free.1 same.symm, scanned]
    rfl

/-- The scan of a masked text finds its placeholders and nothing else. -/
theorem scan_parts (ascii : tables.Ascii) {parts : List MaskPart} (plain : ∀ part ∈ parts, part.Plain)
    (before : Option Char) :
    (placeholderRe tables).scan before (parts.flatMap MaskPart.masked) 0 = parts.flatMap MaskPart.pieces := by
  induction parts generalizing before with
  | nil => rfl
  | cons part parts ih =>
    rw [List.forall_mem_cons] at plain
    rw [List.flatMap_cons, List.flatMap_cons]
    cases part with
    | text chars =>
      obtain ⟨last, scanned⟩ := scan_plain plain.1 before
      rw [MaskPart.masked, scanned, ih plain.2, MaskPart.pieces]
    | mark placeholder =>
      have found := first_placeholder ascii before placeholder.id (unclosed_parts plain.2)
      obtain ⟨last, scanned⟩ := Regex.scan_of_first found
      rw [MaskPart.masked, scanned, List.drop_left, ih plain.2]
      rfl

theorem hits_parts (ascii : tables.Ascii) {parts : List MaskPart} (plain : ∀ part ∈ parts, part.Plain) :
    (placeholderRe tables).hits (parts.flatMap MaskPart.masked) =
      (parts.filterMap MaskPart.placeholder?).map hitOf := by
  rw [Regex.hits, scan_parts ascii plain]
  clear plain
  induction parts with
  | nil => rfl
  | cons part parts ih =>
    rw [List.flatMap_cons, List.filterMap_append, ih]
    cases part with
    | mark placeholder => rfl
    | text chars =>
      have none_found : (chars.map Regex.Piece.char).filterMap Regex.Piece.hit? = [] := by
        rw [List.filterMap_eq_nil_iff]
        intro piece member
        obtain ⟨c, _, rfl⟩ := List.mem_map.mp member
        rfl
      rw [MaskPart.pieces, none_found]
      rfl

/-- A substitution replaces the placeholders and keeps the other text. -/
theorem sub_parts (ascii : tables.Ascii) {parts : List MaskPart} (plain : ∀ part ∈ parts, part.Plain)
    {replace : Regex.Hit → Text}
    (replaced : ∀ placeholder ∈ parts.filterMap MaskPart.placeholder?,
      replace (hitOf placeholder) = placeholder.replacement) :
    (placeholderRe tables).sub replace (parts.flatMap MaskPart.masked) = parts.flatMap MaskPart.restored := by
  rw [Regex.sub, scan_parts ascii plain, List.flatMap_assoc]
  apply List.flatMap_congr
  intro part member
  cases part with
  | text chars =>
    rw [MaskPart.pieces, List.flatMap_map]
    exact List.flatMap_singleton' chars
  | mark placeholder =>
    rw [MaskPart.pieces, List.flatMap_singleton]
    exact replaced placeholder (List.mem_filterMap.mpr ⟨_, member, rfl⟩)

/-- Every `<` of a masked text begins a placeholder. -/
theorem count_parts {parts : List MaskPart} (plain : ∀ part ∈ parts, part.Plain) :
    (parts.flatMap MaskPart.masked).count '<' = (parts.filterMap MaskPart.placeholder?).length := by
  induction parts with
  | nil => rfl
  | cons part parts ih =>
    rw [List.forall_mem_cons] at plain
    rw [List.flatMap_cons, List.count_append, ih plain.2]
    cases part with
    | text chars =>
      rw [MaskPart.masked, List.count_eq_zero_of_not_mem plain.1, Nat.zero_add]
      rfl
    | mark placeholder =>
      have digits : (Nat.toDigits 10 placeholder.id).count '<' = 0 := by
        apply List.count_eq_zero_of_not_mem
        intro member
        exact absurd (Nat.isDigit_of_mem_toDigits (by decide) (by decide) member) (by decide)
      have one : (placeholderText placeholder.id).count '<' = 1 := by
        rw [← List.append_nil (placeholderText placeholder.id), placeholderText_append,
          List.count_append, List.count_append, digits]
        decide
      rw [MaskPart.masked, one, Nat.add_comm]
      rfl

end Scan
end Collector.Translation
