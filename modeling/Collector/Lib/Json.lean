import Collector.Lib.JsonText

/-!
JSON values, their compact text and a reader. Floats are a parameter: a text for each of them that
reads back and that no integer has.
-/

namespace Collector.Lib
open JsonText

/-- JSON values over finite floats `F`. -/
inductive Json (F : Type) where
  | null
  | bool (b : Bool)
  | int (i : Int)
  | float (x : F)
  | str (s : String)
  | arr (items : List (Json F))
  | obj (entries : List (String × Json F))
  deriving Repr

/-- The text of floats. -/
structure FloatText (F : Type) where
  text : F → List Char
  read : List Char → Option F
  read_text : ∀ x, read (text x) = some x
  /-- A float is written as a JSON number with a fraction or an exponent. -/
  literal : ∀ x, ∃ whole part, scanNumber (text x) = some (whole, part, []) ∧ part ≠ []

namespace Json
variable {F : Type}

@[elab_as_elim] theorem induct {P : Json F → Prop} (null : P null) (bool : ∀ b, P (bool b))
    (int : ∀ i, P (int i)) (float : ∀ x, P (float x)) (str : ∀ s, P (str s))
    (arr : ∀ items, (∀ item ∈ items, P item) → P (arr items))
    (obj : ∀ entries, (∀ entry ∈ entries, P entry.2) → P (obj entries)) : ∀ v, P v
  | .null => null
  | .bool b => bool b
  | .int i => int i
  | .float x => float x
  | .str s => str s
  | .arr items => arr items fun item _ => induct null bool int float str arr obj item
  | .obj entries => obj entries fun entry _ => induct null bool int float str arr obj entry.2
termination_by v => sizeOf v
decreasing_by
  · have := List.sizeOf_lt_of_mem ‹item ∈ items›
    simp only [Json.arr.sizeOf_spec]
    omega
  · have := List.sizeOf_lt_of_mem ‹entry ∈ entries›
    obtain ⟨key, item⟩ := entry
    simp only [Json.obj.sizeOf_spec, Prod.mk.sizeOf_spec] at *
    omega

section Text
variable (floats : FloatText F)

mutual

/-- The compact text of a value, entries as they come. -/
def text : Json F → List Char
  | null => ['n', 'u', 'l', 'l']
  | bool true => ['t', 'r', 'u', 'e']
  | bool false => ['f', 'a', 'l', 's', 'e']
  | int i => intText i
  | float x => floats.text x
  | str s => quote s
  | arr [] => ['[', ']']
  | arr (item :: items) => '[' :: (text item ++ (textItems items ++ [']']))
  | obj [] => ['\x7b', '\x7d']
  | obj ((key, item) :: entries) =>
    '\x7b' :: (quote key ++ ':' :: (text item ++ (textEntries entries ++ ['\x7d'])))

/-- The further items, each after its comma. -/
def textItems : List (Json F) → List Char
  | [] => []
  | item :: items => ',' :: (text item ++ textItems items)

def textEntries : List (String × Json F) → List Char
  | [] => []
  | (key, item) :: entries =>
    ',' :: (quote key ++ ':' :: (text item ++ textEntries entries))

end

end Text

section Reader
variable (floats : FloatText F)

def skipSpace (text : List Char) : List Char :=
  text.dropWhile fun c => decide (c = ' ' ∨ c = '\t' ∨ c = '\n' ∨ c = '\r')

/-- The rest of the text after a word. -/
def readWord (word text : List Char) : Option (List Char) :=
  if text.take word.length = word then some (text.drop word.length) else none

/-- A number is an integer unless it has a fraction or an exponent. -/
def readNumber (text : List Char) : Option (Json F × List Char) :=
  (scanNumber text).bind fun (whole, part, rest) =>
    if part = [] then some (int (readInt whole), rest)
    else (floats.read (whole ++ part)).map fun x => (float x, rest)

/-- A later entry of an object replaces an earlier one of its key. -/
def setEntry {α : Type} (entries : List (String × α)) (entry : String × α) : List (String × α) :=
  if entry.1 ∈ entries.map Prod.fst then
    entries.map fun old => if old.1 = entry.1 then entry else old
  else entries ++ [entry]

mutual

def readValue : Nat → List Char → Option (Json F × List Char)
  | 0, _ => none
  | fuel + 1, text =>
    match skipSpace text with
    | [] => none
    | c :: text =>
      if c = '"' then
        (readChars fuel text).map fun (chars, rest) => (str (.ofList chars), rest)
      else if c = '[' then
        if (skipSpace text).head? = some ']' then some (arr [], (skipSpace text).tail)
        else (readItems fuel text).map fun (items, rest) => (arr items, rest)
      else if c = '\x7b' then
        if (skipSpace text).head? = some '\x7d' then some (obj [], (skipSpace text).tail)
        else (readEntries fuel text).map fun (entries, rest) =>
          (obj (entries.foldl setEntry []), rest)
      else if c = 'n' then (readWord ['u', 'l', 'l'] text).map fun rest => (null, rest)
      else if c = 't' then (readWord ['r', 'u', 'e'] text).map fun rest => (bool true, rest)
      else if c = 'f' then (readWord ['a', 'l', 's', 'e'] text).map fun rest => (bool false, rest)
      else readNumber floats (c :: text)

/-- The items of an array up to its closing bracket. -/
def readItems : Nat → List Char → Option (List (Json F) × List Char)
  | 0, _ => none
  | fuel + 1, text =>
    (readValue fuel text).bind fun (item, text) =>
      match skipSpace text with
      | [] => none
      | c :: text =>
        if c = ',' then (readItems fuel text).map fun (items, rest) => (item :: items, rest)
        else if c = ']' then some ([item], text)
        else none

/-- The entries of an object up to its closing brace. -/
def readEntries : Nat → List Char → Option (List (String × Json F) × List Char)
  | 0, _ => none
  | fuel + 1, text =>
    match skipSpace text with
    | [] => none
    | c :: text =>
      if c = '"' then
        (readChars fuel text).bind fun (key, text) =>
          match skipSpace text with
          | [] => none
          | c :: text =>
            if c = ':' then
              (readValue fuel text).bind fun (item, text) =>
                match skipSpace text with
                | [] => none
                | c :: text =>
                  if c = ',' then
                    (readEntries fuel text).map fun (entries, rest) =>
                      ((.ofList key, item) :: entries, rest)
                  else if c = '\x7d' then some ([(.ofList key, item)], text)
                  else none
            else none
      else none

end

/-- The value of a text. -/
def read (text : List Char) : Option (Json F) :=
  (readValue floats (2 * text.length) text).bind fun (v, rest) =>
    if skipSpace rest = [] then some v else none

end Reader

section Entries
variable {α : Type} {entry other : String × α} {entries : List (String × α)}

theorem mem_setEntry_self : entry ∈ setEntry entries entry := by
  unfold setEntry
  split
  · rename_i known
    obtain ⟨old, member, same⟩ := List.mem_map.mp known
    exact List.mem_map.mpr ⟨old, member, if_pos same⟩
  · exact List.mem_append_right _ (List.mem_singleton.mpr rfl)

theorem mem_setEntry_of_ne (different : other.1 ≠ entry.1) :
    other ∈ setEntry entries entry ↔ other ∈ entries := by
  unfold setEntry
  split
  · rw [List.mem_map]
    constructor
    · rintro ⟨old, member, rfl⟩
      split at different
      · exact absurd rfl different
      · rwa [if_neg ‹_›]
    · intro member
      exact ⟨other, member, if_neg different⟩
  · have apart : other ≠ entry := fun same => different (congrArg Prod.fst same)
    simp [apart]

theorem mem_of_mem_setEntry (member : other ∈ setEntry entries entry) :
    other = entry ∨ other ∈ entries := by
  unfold setEntry at member
  split at member
  · obtain ⟨old, here, rfl⟩ := List.mem_map.mp member
    split
    · exact .inl rfl
    · exact .inr here
  · simpa [or_comm] using member

theorem mem_of_mem_foldl_setEntry {added : List (String × α)}
    (member : other ∈ added.foldl setEntry entries) : other ∈ entries ∨ other ∈ added := by
  induction added generalizing entries with
  | nil => exact .inl member
  | cons entry added ih =>
    rcases ih member with old | new
    · rcases mem_of_mem_setEntry old with rfl | before
      · exact .inr List.mem_cons_self
      · exact .inl before
    · exact .inr (List.mem_cons_of_mem _ new)

theorem mem_foldl_setEntry_of_ne {added : List (String × α)}
    (different : ∀ entry ∈ added, other.1 ≠ entry.1) :
    other ∈ added.foldl setEntry entries ↔ other ∈ entries := by
  induction added generalizing entries with
  | nil => exact Iff.rfl
  | cons entry added ih =>
    rw [List.foldl_cons, ih fun entry member => different entry (List.mem_cons_of_mem _ member),
      mem_setEntry_of_ne (different entry List.mem_cons_self)]

end Entries

end Json
end Collector.Lib
