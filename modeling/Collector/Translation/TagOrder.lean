import Collector.Lib.Nesting
import Collector.Translation.ChunkPairs
import Collector.Translation.Preservation

/-!
Tags in another order. The pairing of tags is a matching of brackets by name; the check of a
translation looks at the order within each pair and at pairs that cross, two at a time. Where all
tags are paired, an order in which the check sees nothing is one in which the same pairs are found.
-/

namespace Collector.Translation
open Collector.Lib

section Pairing

/-- What a token is to the pairing of tags. -/
def Token.mark (token : Token) : Nesting.Mark Text :=
  if token.kind ≠ .tag ∨ token.name ∈ voidTags then .other
  else if token.closing = false then .opens token.name
  else .closes token.name

def marked (items : List (Token × Nat)) : List (Nesting.Mark Text × Nat) :=
  items.map fun item => (item.1.mark, item.2)

def Pairing.state (pairing : Pairing) : Nesting.State Nat Text := ⟨pairing.stack, pairing.pairs⟩

theorem Pairing.state_next (pairing : Pairing) (token : Token) (index : Nat) :
    (pairing.next (token, index)).state = pairing.state.next (token.mark, index) := by
  obtain ⟨stack, pairs⟩ := pairing
  unfold Pairing.next Token.mark
  dsimp only
  split
  · rfl
  · split
    · rfl
    · cases stack with
      | nil => rfl
      | cons entry stack =>
        obtain ⟨opened, name⟩ := entry
        dsimp only
        by_cases same : name = token.name
        · simp [Pairing.state, Nesting.State.next, same]
        · simp [Pairing.state, Nesting.State.next, same]

/-- The pairing of the tags is the matching of their marks. -/
theorem state_foldl_next (items : List (Token × Nat)) (pairing : Pairing) :
    (items.foldl Pairing.next pairing).state =
      (marked items).foldl Nesting.State.next pairing.state := by
  induction items generalizing pairing with
  | nil => rfl
  | cons item items ih => rw [List.foldl_cons, ih, Pairing.state_next]; rfl

theorem matchedTagPairs_eq (tokens : List Token) :
    matchedTagPairs tokens = (Nesting.run (marked tokens.zipIdx)).pairs :=
  congrArg Nesting.State.pairs (state_foldl_next tokens.zipIdx ⟨[], []⟩)

end Pairing

section Order

/-- `position` of `_tags_reordered`. -/
def lastPosition (found : List Nat) (id : Nat) : Option Nat :=
  (found.reverse.idxOf? id).map (found.length - 1 - ·)

theorem lastPosition_getElem {found : List Nat} (distinct : found.Nodup) {index : Nat}
    (inside : index < found.length) : lastPosition found found[index] = some index := by
  have here : found.reverse.idxOf? found[index] = some (found.length - 1 - index) := by
    rw [List.idxOf?_eq_some_iff]
    refine ⟨by rw [List.length_reverse]; omega, ?_, ?_⟩
    · rw [List.getElem_reverse, distinct.getElem_inj_iff]
      omega
    · intro earlier before
      rw [List.getElem_reverse, distinct.getElem_inj_iff]
      omega
  rw [lastPosition, here, Option.map_some]
  congr 1
  omega

/-- Where every identifier occurs once, the positions go up along the list. -/
theorem pairwise_lastPosition {found : List Nat} (distinct : found.Nodup) :
    found.Pairwise fun a b => ∃ start stop, lastPosition found a = some start ∧
      lastPosition found b = some stop ∧ start < stop := by
  rw [List.pairwise_iff_getElem]
  intro start stop inside inside' ordered
  exact ⟨start, stop, lastPosition_getElem distinct inside, lastPosition_getElem distinct inside', ordered⟩

section Clean
variable {pairs : List (Nat × Nat)} {found : List Nat}

/-- A pair with both positions is among the spans of the check. -/
theorem mem_spans {pair : Nat × Nat} (member : pair ∈ pairs) {start stop : Nat}
    (opens : lastPosition found pair.1 = some start) (closes : lastPosition found pair.2 = some stop) :
    (start, stop) ∈ pairs.filterMap fun pair => (lastPosition found pair.1).bind fun start =>
      (lastPosition found pair.2).map fun stop => (start, stop) := by
  refine List.mem_filterMap.mpr ⟨pair, member, ?_⟩
  rw [opens, closes]
  rfl

theorem not_swapped (distinct : found.Nodup) (clean : tagsReordered pairs found = false)
    {pair : Nat × Nat} (member : pair ∈ pairs) : ¬[pair.2, pair.1].Sublist found := by
  intro swapped
  obtain ⟨stop, start, closes, opens, before⟩ :=
    List.pairwise_pair.mp ((pairwise_lastPosition distinct).sublist swapped)
  rw [tagsReordered, Bool.or_eq_false_iff, List.any_eq_false] at clean
  exact clean.1 _ (mem_spans member opens closes) (decide_eq_true before)

theorem not_crossed (distinct : found.Nodup) (clean : tagsReordered pairs found = false)
    {a b : Nat × Nat} (one : a ∈ pairs) (other : b ∈ pairs) : ¬[a.1, b.1, a.2, b.2].Sublist found := by
  intro crossed
  have spread := (pairwise_lastPosition distinct).sublist crossed
  simp only [List.pairwise_cons, List.mem_cons, List.not_mem_nil, or_false, forall_eq_or_imp, forall_eq] at spread
  obtain ⟨⟨⟨aStart, bStart, aOpens, bOpens, first⟩, _⟩, ⟨⟨bStart', aStop, bOpens', aCloses, second⟩, _⟩,
    ⟨aStop', bStop, aCloses', bCloses, third⟩, _⟩ := spread
  cases bOpens.symm.trans bOpens'
  cases aCloses.symm.trans aCloses'
  rw [tagsReordered, Bool.or_eq_false_iff, List.any_eq_false] at clean
  have crossing := clean.2
  rw [List.any_eq_false] at crossing
  apply crossing _ (mem_spans one aOpens aCloses)
  rw [List.any_eq_true]
  exact ⟨_, mem_spans other bOpens bCloses, decide_eq_true ⟨first, second, third⟩⟩

end Clean

end Order

/-- Every tag that is not void belongs to a matched pair. -/
def FullyPaired (tokens : List Token) : Prop :=
  ∀ item ∈ tokens.zipIdx, item.1.kind = .tag → item.1.name ∉ voidTags →
    ∃ pair ∈ matchedTagPairs tokens, pair.1 = item.2 ∨ pair.2 = item.2

instance (tokens : List Token) : Decidable (FullyPaired tokens) :=
  inferInstanceAs (Decidable (∀ item ∈ tokens.zipIdx, item.1.kind = .tag → item.1.name ∉ voidTags →
    ∃ pair ∈ matchedTagPairs tokens, pair.1 = item.2 ∨ pair.2 = item.2))

section Nested
variable {tokens : List Token} {order : List (Token × Nat)}

theorem mark_opens {token : Token} {name : Text} (opens : token.mark = .opens name) :
    token.kind = .tag ∧ token.name ∉ voidTags := by
  unfold Token.mark at opens
  split at opens
  · cases opens
  · rename_i bracket
    rw [not_or, not_not] at bracket
    exact bracket

theorem mark_closes {token : Token} {name : Text} (closes : token.mark = .closes name) :
    token.kind = .tag ∧ token.name ∉ voidTags := by
  unfold Token.mark at closes
  split at closes
  · cases closes
  · rename_i bracket
    rw [not_or, not_not] at bracket
    exact bracket

theorem mem_marked {items : List (Token × Nat)} {mark : Nesting.Mark Text} {index : Nat} :
    (mark, index) ∈ marked items ↔ ∃ token, (token, index) ∈ items ∧ token.mark = mark := by
  rw [marked, List.mem_map]
  constructor
  · rintro ⟨⟨token, own⟩, member, same⟩
    cases same
    exact ⟨token, member, rfl⟩
  · rintro ⟨token, member, rfl⟩
    exact ⟨(token, index), member, rfl⟩

/-- The tags of a matched pair have one name. -/
theorem tokens_of_pair {pair : Nat × Nat} (member : pair ∈ matchedTagPairs tokens) :
    ∃ name opening closing, (tokens[pair.1]? = some opening ∧ opening.mark = .opens name) ∧
      tokens[pair.2]? = some closing ∧ closing.mark = .closes name := by
  rw [matchedTagPairs_eq] at member
  obtain ⟨name, opens, closes⟩ := (Nesting.drawn_run (marked tokens.zipIdx)).pairs pair member
  obtain ⟨opening, here, marksOpen⟩ := mem_marked.mp opens
  obtain ⟨closing, there, marksClose⟩ := mem_marked.mp closes
  exact ⟨name, opening, closing, ⟨List.mem_zipIdx_iff_getElem?.mp here, marksOpen⟩,
    List.mem_zipIdx_iff_getElem?.mp there, marksClose⟩

theorem pair_of_opening (full : FullyPaired tokens) {index : Nat} {token : Token} {name : Text}
    (here : tokens[index]? = some token) (opens : token.mark = .opens name) :
    ∃ pair ∈ matchedTagPairs tokens, pair.1 = index := by
  obtain ⟨kind, solid⟩ := mark_opens opens
  obtain ⟨pair, member, first | second⟩ := full (token, index) (List.mem_zipIdx_iff_getElem?.mpr here) kind solid
  · exact ⟨pair, member, first⟩
  · obtain ⟨_, _, closing, _, there, closes⟩ := tokens_of_pair member
    rw [second, here] at there
    cases there
    rw [opens] at closes
    cases closes

theorem pair_of_closing (full : FullyPaired tokens) {index : Nat} {token : Token} {name : Text}
    (here : tokens[index]? = some token) (closes : token.mark = .closes name) :
    ∃ pair ∈ matchedTagPairs tokens, pair.2 = index := by
  obtain ⟨kind, solid⟩ := mark_closes closes
  obtain ⟨pair, member, first | second⟩ := full (token, index) (List.mem_zipIdx_iff_getElem?.mpr here) kind solid
  · obtain ⟨_, opening, _, ⟨there, opens⟩, _⟩ := tokens_of_pair member
    rw [first, here] at there
    cases there
    rw [closes] at opens
    cases opens
  · exact ⟨pair, member, second⟩

theorem within_of_pair {pair : Nat × Nat} (member : pair ∈ matchedTagPairs tokens) :
    pair.1 < tokens.length ∧ pair.2 < tokens.length := by
  obtain ⟨_, _, _, ⟨here, _⟩, there, _⟩ := tokens_of_pair member
  exact ⟨(List.getElem?_eq_some_iff.mp here).1, (List.getElem?_eq_some_iff.mp there).1⟩

/-- Markup put into an order in which no pair is swapped or crossed is nested by the same pairs. -/
theorem nested_of_order (full : FullyPaired tokens)
    (same : ∀ token index, (token, index) ∈ order ↔ tokens[index]? = some token ∧ token.kind ≠ .text)
    (labels : (order.map Prod.snd).Nodup)
    (ordered : ∀ pair ∈ matchedTagPairs tokens, ¬[pair.2, pair.1].Sublist (order.map Prod.snd))
    (uncrossed : ∀ a ∈ matchedTagPairs tokens, ∀ b ∈ matchedTagPairs tokens,
      ¬[a.1, b.1, a.2, b.2].Sublist (order.map Prod.snd)) :
    Nesting.Nested (marked order) (matchedTagPairs tokens) := by
  obtain ⟨pairing, sound, own⟩ := matchedTagPairs_sound tokens
  obtain ⟨_, once, _⟩ := List.nodup_append.mp sound.once
  rw [own] at once
  obtain ⟨openings, closings, _⟩ := List.nodup_append.mp once
  have shown : (marked order).map Prod.snd = order.map Prod.snd := by
    rw [marked, List.map_map]
    rfl
  have markup {token : Token} {index : Nat} (here : tokens[index]? = some token)
      (kind : token.kind = .tag) : (token, index) ∈ order := by
    rw [same]
    exact ⟨here, by rw [kind]; rintro ⟨⟩⟩
  constructor
  · rwa [shown]
  · exact openings
  · exact closings
  · intro pair member
    obtain ⟨name, opening, closing, ⟨here, opens⟩, there, closes⟩ := tokens_of_pair member
    exact ⟨name, mem_marked.mpr ⟨opening, markup here (mark_opens opens).1, opens⟩,
      mem_marked.mpr ⟨closing, markup there (mark_closes closes).1, closes⟩⟩
  · intro name index member
    obtain ⟨token, here, opens⟩ := mem_marked.mp member
    exact pair_of_opening full ((same token index).mp here).1 opens
  · intro name index member
    obtain ⟨token, here, closes⟩ := mem_marked.mp member
    exact pair_of_closing full ((same token index).mp here).1 closes
  · rwa [shown]
  · rwa [shown]

/-- The index that a position of the order stands for. -/
def indexAt (order : List (Token × Nat)) (position : Nat) : Nat := (order.map Prod.snd).getD position 0

theorem indexAt_eq {position index : Nat} {token : Token} (here : order[position]? = some (token, index)) :
    indexAt order position = index := by
  rw [indexAt, List.getD_eq_getElem?_getD, List.getElem?_map, here]
  rfl

theorem indexAt_inj (distinct : (order.map Prod.snd).Nodup) {a b : Nat} (one : a < order.length)
    (other : b < order.length) (same : indexAt order a = indexAt order b) : a = b := by
  rw [indexAt_eq (List.getElem?_eq_getElem one), indexAt_eq (List.getElem?_eq_getElem other)] at same
  have first : a < (order.map Prod.snd).length := by rwa [List.length_map]
  have second : b < (order.map Prod.snd).length := by rwa [List.length_map]
  have labels : (order.map Prod.snd)[a] = (order.map Prod.snd)[b] := by
    rw [List.getElem_map, List.getElem_map]
    exact same
  exact distinct.getElem_inj_iff.mp labels

/-- The pairing of reordered tokens, read with their own indexes. -/
theorem relabeled_pairs (order : List (Token × Nat)) :
    (matchedTagPairs (order.map Prod.fst)).map (fun pair => (indexAt order pair.1, indexAt order pair.2)) =
      (Nesting.run (marked order)).pairs := by
  have own : marked order = (marked (order.map Prod.fst).zipIdx).map
      fun item => (item.1, indexAt order item.2) := by
    apply List.ext_getElem?
    intro position
    simp only [marked, List.map_map, List.getElem?_map, List.getElem?_zipIdx, Function.comp_def]
    cases here : order[position]? with
    | none => rfl
    | some item => simp [indexAt_eq here]
  rw [own, Nesting.run_relabel, matchedTagPairs_eq]
  rfl

end Nested

end Collector.Translation
