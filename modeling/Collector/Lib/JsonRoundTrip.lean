import Collector.Lib.Json

/-!
The round trip of JSON: everything written from a value whose objects have no key twice is read
back as that value, so such values have different texts.
-/

namespace Collector.Lib.Json
open JsonText
variable {F : Type}

/-- No object has a key twice, at any depth. -/
inductive Distinct : Json F → Prop
  | null : Distinct null
  | bool (b : Bool) : Distinct (bool b)
  | int (i : Int) : Distinct (int i)
  | float (x : F) : Distinct (float x)
  | str (s : String) : Distinct (str s)
  | arr {items : List (Json F)} (each : ∀ item ∈ items, Distinct item) : Distinct (arr items)
  | obj {entries : List (String × Json F)} (keys : (entries.map Prod.fst).Nodup)
      (each : ∀ entry ∈ entries, Distinct entry.2) : Distinct (obj entries)

theorem foldl_setEntry {α : Type} (entries before : List (String × α))
    (keys : ((before ++ entries).map Prod.fst).Nodup) :
    entries.foldl setEntry before = before ++ entries := by
  induction entries generalizing before with
  | nil => simp
  | cons entry entries ih =>
    have fresh : entry.1 ∉ before.map Prod.fst := by
      intro member
      rw [List.map_append, List.nodup_append] at keys
      exact keys.2.2 _ member _ List.mem_cons_self rfl
    rw [List.foldl_cons, setEntry, if_neg fresh, ih]
    · simp
    · simpa using keys

section RoundTrip
variable (floats : FloatText F)

private theorem skipSpace_cons {c : Char} (text : List Char)
    (visible : c ≠ ' ' ∧ c ≠ '\t' ∧ c ≠ '\n' ∧ c ≠ '\r') : skipSpace (c :: text) = c :: text := by
  obtain ⟨space, tab, newline, carriage⟩ := visible
  simp [skipSpace, space, tab, newline, carriage]

/-- The first character of a number is no other token. -/
private theorem number_head {c : Char} (head : c = '-' ∨ isDigit c = true) :
    (c ≠ ' ' ∧ c ≠ '\t' ∧ c ≠ '\n' ∧ c ≠ '\r') ∧ c ≠ '"' ∧ c ≠ '[' ∧ c ≠ ']' ∧ c ≠ '\x7b' ∧
      c ≠ '\x7d' ∧ c ≠ 'n' ∧ c ≠ 't' ∧ c ≠ 'f' := by
  have other : ∀ d, ¬ (d = '-' ∨ isDigit d = true) → c ≠ d := by
    rintro d unlike rfl
    exact unlike head
  refine ⟨⟨?_, ?_, ?_, ?_⟩, ?_, ?_, ?_, ?_, ?_, ?_, ?_, ?_⟩ <;> exact other _ (by decide)

/-- The text of a value starts with a token that closes nothing. -/
private theorem text_head (v : Json F) :
    ∃ c rest, text floats v = c :: rest ∧ (c ≠ ' ' ∧ c ≠ '\t' ∧ c ≠ '\n' ∧ c ≠ '\r') ∧ c ≠ ']' := by
  have number {chars whole part : List Char} (scanned : scanNumber chars = some (whole, part, [])) :
      ∃ c rest, chars = c :: rest ∧ (c ≠ ' ' ∧ c ≠ '\t' ∧ c ≠ '\n' ∧ c ≠ '\r') ∧ c ≠ ']' := by
    obtain ⟨_, c, first, head⟩ := scanNumber_text scanned
    obtain ⟨rest, rfl⟩ := List.head?_eq_some_iff.mp first
    exact ⟨c, rest, rfl, (number_head head).1, (number_head head).2.2.2.1⟩
  cases v with
  | null => exact ⟨_, _, by rw [text], by decide, by decide⟩
  | bool b => cases b <;> exact ⟨_, _, by rw [text], by decide, by decide⟩
  | int i =>
    rw [text]
    exact number (scanNumber_intText i)
  | float x =>
    obtain ⟨whole, part, scanned, _⟩ := floats.literal x
    rw [text]
    exact number scanned
  | str s => exact ⟨_, _, by rw [text, quote, List.cons_append], by decide, by decide⟩
  | arr items => cases items <;> exact ⟨_, _, by rw [text], by decide, by decide⟩
  | obj entries => cases entries <;> exact ⟨_, _, by rw [text], by decide, by decide⟩

private theorem readValue_number {chars rest whole part : List Char} {fuel : Nat}
    (scanned : scanNumber chars = some (whole, part, [])) (stops : Stops rest) :
    readValue floats (fuel + 1) (chars ++ rest) =
      if part = [] then some (int (readInt whole), rest)
      else (floats.read chars).map fun x => (float x, rest) := by
  obtain ⟨split, c, first, head⟩ := scanNumber_text scanned
  obtain ⟨tail, rfl⟩ := List.head?_eq_some_iff.mp first
  obtain ⟨visible, quoted, array, _, object, _, null, true_, false_⟩ := number_head head
  have number := scanNumber_append stops scanned
  rw [List.append_nil] at split
  simp only [List.cons_append] at number ⊢
  simp only [readValue, skipSpace_cons _ visible, quoted, array, object, null, true_, false_,
    if_false, readNumber, number, Option.bind_some, ← split]

private theorem stops_cons {c : Char} (text : List Char)
    (closing : c = ',' ∨ c = ']' ∨ c = '\x7d') : Stops (c :: text) := by
  rintro d ⟨⟩
  rcases closing with rfl | rfl | rfl <;> decide

private theorem readChars_key (s : String) {fuel : Nat} (rest : List Char)
    (enough : (quote s).length ≤ fuel + 1) :
    readChars fuel (s.toList.flatMap escape ++ '"' :: rest) = some (s.toList, rest) := by
  have length := length_quote s
  exact readChars_quote _ _ (by omega)

/-- The value is read back, whatever may follow it. -/
private def ReadsBack (v : Json F) : Prop :=
  ∀ fuel rest, 2 * (text floats v).length ≤ fuel → Stops rest →
    readValue floats fuel (text floats v ++ rest) = some (v, rest)

private theorem length_pos (v : Json F) : 0 < (text floats v).length := by
  obtain ⟨c, rest, same, _⟩ := text_head floats v
  simp [same]

private theorem readItems_text {item : Json F} {items : List (Json F)} {fuel : Nat}
    (each : ∀ v ∈ item :: items, ReadsBack floats v) (rest : List Char)
    (enough : 2 * (text floats item ++ textItems floats items).length < fuel) :
    readItems floats fuel (text floats item ++ (textItems floats items ++ ']' :: rest)) =
      some (item :: items, rest) := by
  induction items generalizing item fuel with
  | nil =>
    obtain ⟨fuel, rfl⟩ := Nat.exists_eq_add_one_of_ne_zero (by omega : fuel ≠ 0)
    simp only [textItems, List.append_nil] at enough
    have first := each item List.mem_cons_self fuel (']' :: rest) (by omega) (stops_cons _ (by simp))
    simp [textItems, readItems, first, skipSpace_cons]
  | cons next items ih =>
    obtain ⟨fuel, rfl⟩ := Nat.exists_eq_add_one_of_ne_zero (by omega : fuel ≠ 0)
    simp only [textItems, List.length_append, List.length_cons] at enough
    have first := each item List.mem_cons_self fuel
      (',' :: (text floats next ++ (textItems floats items ++ ']' :: rest))) (by omega)
      (stops_cons _ (by simp))
    have others := @ih next fuel
      (fun v member => each v (List.mem_cons_of_mem _ member))
      (by simp only [List.length_append]; omega)
    simp [textItems, readItems, first, skipSpace_cons, others]

/-- The first entry is read; what comes next decides. -/
private theorem readEntries_first {key : String} {item : Json F} {fuel : Nat} {c : Char}
    (rest : List Char) (back : ReadsBack floats item) (closing : c = ',' ∨ c = ']' ∨ c = '\x7d')
    (enough : 2 * ((quote key).length + (text floats item).length) ≤ fuel) :
    readEntries floats (fuel + 1) (quote key ++ ':' :: (text floats item ++ c :: rest)) =
      if c = ',' then
        (readEntries floats fuel rest).map fun (entries, rest) => ((key, item) :: entries, rest)
      else if c = '\x7d' then some ([(key, item)], rest)
      else none := by
  have name := readChars_key key (':' :: (text floats item ++ c :: rest))
    (by omega : _ ≤ fuel + 1)
  have value := back fuel (c :: rest) (by omega) (stops_cons _ closing)
  have visible : c ≠ ' ' ∧ c ≠ '\t' ∧ c ≠ '\n' ∧ c ≠ '\r' := by
    rcases closing with rfl | rfl | rfl <;> decide
  simp [readEntries, quote, skipSpace_cons, name, value, visible]

private theorem readEntries_text {key : String} {item : Json F} {entries : List (String × Json F)}
    {fuel : Nat} (each : ∀ entry ∈ (key, item) :: entries, ReadsBack floats entry.2)
    (rest : List Char)
    (enough : 2 * (quote key ++ ':' :: (text floats item ++ textEntries floats entries)).length < fuel) :
    readEntries floats fuel
      (quote key ++ ':' :: (text floats item ++ (textEntries floats entries ++ '\x7d' :: rest))) =
      some ((key, item) :: entries, rest) := by
  induction entries generalizing key item fuel with
  | nil =>
    obtain ⟨fuel, rfl⟩ := Nat.exists_eq_add_one_of_ne_zero (by omega : fuel ≠ 0)
    simp only [textEntries, List.append_nil, List.length_append, List.length_cons] at enough
    have back : ReadsBack floats item := each (key, item) List.mem_cons_self
    rw [textEntries, List.nil_append, readEntries_first floats rest back (by simp) (by omega)]
    simp
  | cons next entries ih =>
    obtain ⟨other, value⟩ := next
    obtain ⟨fuel, rfl⟩ := Nat.exists_eq_add_one_of_ne_zero (by omega : fuel ≠ 0)
    simp only [textEntries, List.length_append, List.length_cons] at enough
    have others := @ih other value fuel
      (fun entry member => each entry (List.mem_cons_of_mem _ member))
      (by simp only [List.length_append, List.length_cons]; omega)
    have back : ReadsBack floats item := each (key, item) List.mem_cons_self
    rw [textEntries, List.cons_append, readEntries_first floats _ back (by simp) (by omega)]
    simp only [List.append_assoc, List.cons_append, others, if_true, Option.map_some]

private theorem readsBack_of_succ {v : Json F}
    (step : ∀ fuel rest, 2 * (text floats v).length ≤ fuel + 1 → Stops rest →
      readValue floats (fuel + 1) (text floats v ++ rest) = some (v, rest)) : ReadsBack floats v := by
  intro fuel rest enough
  have written := length_pos floats v
  obtain ⟨fuel, rfl⟩ := Nat.exists_eq_add_one_of_ne_zero (by omega : fuel ≠ 0)
  exact step fuel rest enough

private theorem readsBack (v : Json F) (distinct : v.Distinct) : ReadsBack floats v := by
  induction v using induct with
  | null =>
    refine readsBack_of_succ floats fun fuel rest enough _ => ?_
    simp [text, readValue, skipSpace_cons, readWord]
  | bool b =>
    refine readsBack_of_succ floats fun fuel rest enough _ => ?_
    cases b <;> simp [text, readValue, skipSpace_cons, readWord]
  | int i =>
    refine readsBack_of_succ floats fun fuel rest enough stops => ?_
    rw [text, readValue_number floats (scanNumber_intText i) stops, if_pos rfl, readInt_intText]
  | float x =>
    refine readsBack_of_succ floats fun fuel rest enough stops => ?_
    obtain ⟨whole, part, scanned, fractional⟩ := floats.literal x
    rw [text, readValue_number floats scanned stops, if_neg fractional, floats.read_text]
    rfl
  | str s =>
    refine readsBack_of_succ floats fun fuel rest enough _ => ?_
    rw [text] at enough
    have chars := readChars_key s rest (by omega : _ ≤ fuel + 1)
    simp [text, quote, readValue, skipSpace_cons, chars]
  | arr items ih =>
    refine readsBack_of_succ floats fun fuel rest enough _ => ?_
    cases distinct with
    | arr each =>
    cases items with
    | nil => simp [text, readValue, skipSpace_cons]
    | cons item items =>
      obtain ⟨c, tail, same, visible, opens⟩ := text_head floats item
      have all := readItems_text floats (fun v member => ih v member (each v member)) rest (by
        simp only [text, List.length_append, List.length_cons] at enough ⊢
        omega : _ < fuel)
      have head : (skipSpace (text floats item ++ (textItems floats items ++ ']' :: rest))).head? ≠
          some ']' := by
        rw [same, List.cons_append, skipSpace_cons _ visible]
        simpa using opens
      simp [text, readValue, skipSpace_cons, head, all]
  | obj entries ih =>
    refine readsBack_of_succ floats fun fuel rest enough _ => ?_
    cases distinct with
    | obj keys each =>
    cases entries with
    | nil => simp [text, readValue, skipSpace_cons]
    | cons entry entries =>
      obtain ⟨key, item⟩ := entry
      have all := readEntries_text floats (fun v member => ih v member (each v member)) rest (by
        simp only [text, List.length_append, List.length_cons] at enough ⊢
        omega : _ < fuel)
      have folded := foldl_setEntry ((key, item) :: entries) [] keys
      have head : (skipSpace (quote key ++ ':' ::
          (text floats item ++ (textEntries floats entries ++ '\x7d' :: rest)))).head? ≠
          some '\x7d' := by
        simp [quote, skipSpace_cons]
      simp only [List.nil_append] at folded
      simp [text, readValue, skipSpace_cons, head, all, folded]

/-- **Round trip.** What is written is read back. -/
theorem read_text {v : Json F} (distinct : v.Distinct) : read floats (text floats v) = some v := by
  have back := readsBack floats v distinct (2 * (text floats v).length) [] (Nat.le_refl _)
    (by simp [Stops])
  rw [List.append_nil] at back
  rw [read, back, Option.bind_some]
  exact if_pos rfl

/-- Distinct values have different texts. -/
theorem text_injective {v w : Json F} (left : v.Distinct) (right : w.Distinct)
    (same : text floats v = text floats w) : v = w := by
  have first := read_text floats left
  rw [same, read_text floats right] at first
  exact (Option.some.inj first).symm

end RoundTrip
end Collector.Lib.Json
