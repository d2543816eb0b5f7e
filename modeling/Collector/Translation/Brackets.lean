import Collector.Translation.Patterns

/-!
Angle brackets. The tag pattern matches at a `<` exactly when the next angle bracket is a `>`, and
no match runs past another `<`; so it counts the `<` that are closed and is blind to the others.
-/

namespace Collector.Translation
open Collector.Lib

/-- The first angle bracket of a text. -/
def nextBracket (text : Text) : Option Char :=
  text.find? fun c => decide (c = '<' ∨ c = '>')

theorem nextBracket_cons_of_ne {c : Char} (opens : c ≠ '<') (closes : c ≠ '>') (text : Text) :
    nextBracket (c :: text) = nextBracket text := by
  simp [nextBracket, opens, closes]

/-- Up to a `>` there is another `>`, or this one comes first. -/
theorem nextBracket_append_gt {v : Text} (plain : '<' ∉ v) (w : Text) :
    nextBracket (v ++ '>' :: w) = some '>' := by
  induction v with
  | nil => rfl
  | cons c v ih =>
    have rest := ih fun member => plain (List.mem_cons_of_mem c member)
    have head : c ≠ '<' := fun same => plain (same ▸ List.mem_cons_self)
    by_cases closes : c = '>'
    · simp [nextBracket, closes]
    · rw [List.cons_append, nextBracket_cons_of_ne head closes, rest]

theorem eq_of_nextBracket {text : Text} (closes : nextBracket text = some '>') :
    ∃ v w, text = v ++ '>' :: w ∧ ∀ c ∈ v, c ∉ ['<', '>'] := by
  induction text with
  | nil => cases closes
  | cons c text ih =>
    by_cases opens : c = '<'
    · simp [nextBracket, opens] at closes
    · by_cases here : c = '>'
      · exact ⟨[], text, by rw [here, List.nil_append], fun _ member => absurd member List.not_mem_nil⟩
      · rw [nextBracket_cons_of_ne opens here] at closes
        obtain ⟨v, w, rfl, plain⟩ := ih closes
        refine ⟨c :: v, w, rfl, List.forall_mem_cons.mpr ⟨?_, plain⟩⟩
        simp [opens, here]

/-- Every `<` of the text is closed in it: the next angle bracket is a `>`. -/
def Closes : Text → Prop
  | [] => True
  | c :: rest => (c = '<' → nextBracket rest = some '>') ∧ Closes rest

/-- The `<` that are closed. -/
def closedCount : Text → Nat
  | [] => 0
  | c :: rest => (if c = '<' ∧ nextBracket rest = some '>' then 1 else 0) + closedCount rest

theorem closes_of_not_mem {text : Text} (plain : '<' ∉ text) : Closes text := by
  induction text with
  | nil => trivial
  | cons c rest ih =>
    rw [List.mem_cons, not_or] at plain
    exact ⟨fun here => absurd here.symm plain.1, ih plain.2⟩

theorem nextBracket_append {u v : Text} {c : Char} (found : nextBracket u = some c) :
    nextBracket (u ++ v) = some c := by
  rw [nextBracket, List.find?_append, ← nextBracket, found]
  rfl

theorem Closes.append {u v : Text} (left : Closes u) (right : Closes v) : Closes (u ++ v) := by
  induction u with
  | nil => exact right
  | cons c u ih => exact ⟨fun here => nextBracket_append (left.1 here), ih left.2⟩

theorem closes_flatMap {α : Type} {f : α → Text} {items : List α}
    (each : ∀ item ∈ items, Closes (f item)) : Closes (items.flatMap f) := by
  induction items with
  | nil => trivial
  | cons item items ih =>
    rw [List.forall_mem_cons] at each
    exact each.1.append (ih each.2)

theorem closedCount_of_closes {text : Text} (closes : Closes text) :
    closedCount text = text.count '<' := by
  induction text with
  | nil => rfl
  | cons c rest ih =>
    rw [closedCount, ih closes.2]
    by_cases here : c = '<'
    · rw [if_pos ⟨here, closes.1 here⟩, here, List.count_cons_self, Nat.add_comm]
    · rw [if_neg fun opens => here opens.1, List.count_cons_of_ne here, Nat.zero_add]

/-- A `<` before text without `<` does not change what is counted behind it. -/
theorem closedCount_append_of_not_mem {u : Text} (plain : '<' ∉ u) (v : Text) :
    closedCount (u ++ v) = closedCount v := by
  induction u with
  | nil => rfl
  | cons c u ih =>
    rw [List.mem_cons, not_or] at plain
    rw [List.cons_append, closedCount, if_neg fun opens => plain.1 opens.1.symm, ih plain.2,
      Nat.zero_add]

/-- A match of the tag pattern is a `<`, text without `<`, and a `>`. -/
theorem eq_of_reads_tagRe {u : Text} (read : Regex.Reads tagRe u) :
    ∃ v, u = '<' :: v ++ ['>'] ∧ '<' ∉ v := by
  cases read with
  | left comment =>
    cases comment with
    | seq head tail =>
      cases tail with
      | seq body tail =>
        cases tail with
        | seq last tail =>
          cases tail with
          | empty =>
            have plain := Regex.not_mem_of_reads (x := '<') body ⟨rfl, rfl, trivial⟩
            rename_i inner _
            rw [Regex.eq_of_reads_text head, Regex.eq_of_reads_text last]
            refine ⟨"!--".toList ++ inner ++ "--".toList, by simp, ?_⟩
            simp [plain]
  | right bracket =>
    cases bracket with
    | seq head tail =>
      cases tail with
      | seq body last =>
        have plain := Regex.not_mem_of_reads (x := '<') body rfl
        cases head with
        | one opens =>
          cases last with
          | one closes =>
            rename_i inner c d
            have here : c = '<' := by simpa using opens
            have there : d = '>' := by simpa using closes
            exact ⟨inner, by rw [here, there]; rfl, plain⟩

/-- The tag pattern matches at every `<` that is closed. -/
theorem first_tagRe_isSome {rest : Text} (before : Option Char)
    (closes : nextBracket rest = some '>') : (tagRe.first before ('<' :: rest)).isSome = true := by
  obtain ⟨v, w, rfl, plain⟩ := eq_of_nextBracket closes
  obtain ⟨last, reached⟩ := Regex.mem_rounds_one (p := fun c => decide (c ∉ ['<', '>']))
    (u := v) (v := '>' :: w) (v ++ '>' :: w).length (some '<') []
    (fun c member => decide_eq_true (plain c member)) (by simp)
  have arrives : (⟨some '>', w, []⟩ : Regex.Place) ∈
      tagRe.ends ⟨before, '<' :: (v ++ '>' :: w), []⟩ := by
    apply List.mem_append_right
    apply List.mem_flatMap.mpr ⟨⟨some '<', v ++ '>' :: w, []⟩, by simp [Regex.oneOf, Regex.ends], ?_⟩
    apply List.mem_flatMap.mpr ⟨_, reached, ?_⟩
    simp [Regex.oneOf, Regex.ends]
  apply Regex.first_isSome arrives
  simp
  omega

theorem first_tagRe_eq_some {before : Option Char} {c : Char} {rest : Text} {hit : Regex.Hit}
    (found : tagRe.first before (c :: rest) = some hit) :
    ∃ v w, c = '<' ∧ rest = v ++ '>' :: w ∧ '<' ∉ v ∧ hit.text.length = v.length + 2 := by
  obtain ⟨d, u, w, text, here, read⟩ := Regex.first_eq_some found
  obtain ⟨v, shape, plain⟩ := eq_of_reads_tagRe read
  obtain ⟨rfl, rfl⟩ := List.cons.inj here
  rw [text] at shape
  obtain ⟨rfl, rfl⟩ := List.cons.inj shape
  exact ⟨v, w, rfl, by simp, plain, by simp [text]⟩

theorem length_hits_scan (before : Option Char) (text : Text) (skip : Nat)
    (inside : '<' ∉ text.take skip) :
    ((tagRe.scan before text skip).filterMap Regex.Piece.hit?).length = closedCount text := by
  induction text generalizing before skip with
  | nil => rfl
  | cons c rest ih =>
    cases skip with
    | succ skip =>
      rw [List.take_succ_cons, List.mem_cons, not_or] at inside
      rw [Regex.scan, ih _ _ inside.2, closedCount, if_neg fun opens => inside.1 opens.1.symm,
        Nat.zero_add]
    | zero =>
      cases found : tagRe.first before (c :: rest) with
      | some hit =>
        obtain ⟨v, w, rfl, rfl, plain, size⟩ := first_tagRe_eq_some found
        have skipped : '<' ∉ (v ++ '>' :: w).take (hit.text.length - 1) := by
          rw [size, show v.length + 2 - 1 = v.length + 1 from rfl, List.take_append,
            List.take_of_length_le (Nat.le_succ _), Nat.add_sub_cancel_left, List.mem_append]
          simp [plain]
        simp only [Regex.scan, found, List.filterMap_cons, Regex.Piece.hit?, List.length_cons,
          ih _ _ skipped]
        rw [closedCount, if_pos ⟨rfl, nextBracket_append_gt plain w⟩, Nat.add_comm]
      | none =>
        have open' : ¬(c = '<' ∧ nextBracket rest = some '>') := by
          rintro ⟨rfl, closes⟩
          exact Option.isSome_iff_ne_none.mp (first_tagRe_isSome before closes) found
        simp only [Regex.scan, found, List.filterMap_cons, Regex.Piece.hit?,
          ih _ _ (by simp : '<' ∉ rest.take 0)]
        rw [closedCount, if_neg open', Nat.zero_add]

/-- The tag pattern finds as many tags as there are closed `<`. -/
theorem length_tags (fragment : Text) : (tags fragment).length = closedCount fragment := by
  rw [tags, List.length_map]
  exact length_hits_scan none fragment 0 (by simp)

end Collector.Translation
