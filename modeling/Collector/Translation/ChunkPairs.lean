import Collector.Translation.Segments
import Mathlib.Data.List.Nodup

/-!
What splitting a run keeps: the text of its tokens in their order, and the two tags of every
matched pair in one chunk. A cut is made where the depth is zero, and the depth is the number of
pairs that are open there.
-/

namespace Collector.Translation
open Collector.Lib

section Text

theorem flatten_cutAt (text : Text) {position : Nat} {starts : List Nat}
    (chain : List.IsChain (· ≤ ·) (position :: starts)) :
    (cutAt text position starts).flatten = text.drop position := by
  induction starts generalizing position with
  | nil => simp [cutAt]
  | cons start starts ih =>
    rw [List.isChain_cons_cons] at chain
    have rest : text.drop start = (text.drop position).drop (start - position) := by
      rw [List.drop_drop, Nat.add_sub_cancel' chain.1]
    rw [cutAt, List.flatten_cons, ih chain.2, slice, List.drop_take, rest, List.take_append_drop]

theorem flatten_splitKeepingWhitespace (raw : Text) :
    (splitKeepingWhitespace raw).flatten = raw := by
  rw [splitKeepingWhitespace, List.flatten_filter_ne_nil, flatten_cutAt, List.drop_zero]
  exact Regex.isChain_spansFrom _ 0

/-- The raw text of tokens with their indexes. -/
def rawOf (items : List Indexed) : Text := items.flatMap fun item => item.1.raw

theorem rawOf_append (first second : List Indexed) :
    rawOf (first ++ second) = rawOf first ++ rawOf second := List.flatMap_append

theorem rawOf_sentenceUnits (index : Nat) (unit : List Indexed) (sentences : List Text) :
    rawOf ((sentenceUnits index unit sentences).1.flatten ++
      (sentenceUnits index unit sentences).2) = rawOf unit ++ sentences.flatten := by
  induction sentences generalizing unit with
  | nil => simp [sentenceUnits]
  | cons sentence sentences ih =>
    rw [sentenceUnits]
    split
    · rw [ih, rawOf_append]
      simp [rawOf]
    · have rest := ih []
      simp only [List.flatten_cons, List.append_assoc, rawOf_append] at rest ⊢
      rw [rest]
      simp [rawOf]

theorem rawOf_unitsOf (pairs : List (Nat × Nat)) (depth : Int) (unit items : List Indexed) :
    rawOf (unitsOf pairs depth unit items).flatten = rawOf unit ++ rawOf items := by
  induction items generalizing depth unit with
  | nil => simp [unitsOf, rawOf]
  | cons item items ih =>
    obtain ⟨token, index⟩ := item
    rw [unitsOf]
    dsimp only
    split
    · rw [ih, rawOf_append]
      simp [rawOf]
    · have sentences := rawOf_sentenceUnits index unit (splitKeepingWhitespace token.raw)
      rw [flatten_splitKeepingWhitespace, rawOf_append] at sentences
      rw [List.flatten_append, rawOf_append, ih, ← List.append_assoc, sentences]
      simp [rawOf]

theorem rawOf_addUnit (tables : Tables) (limit : Int) (chunks : List (List Indexed))
    (unit : List Indexed) :
    rawOf (addUnit tables limit chunks unit).flatten = rawOf chunks.flatten ++ rawOf unit := by
  unfold addUnit
  split
  · rename_i last found
    have split := List.dropLast_append_getLast? last found
    split
    · conv_rhs => rw [← split]
      simp [rawOf]
    · split
      · simp [*, rawOf]
      · simp [rawOf]
  · split
    · simp [*, rawOf]
    · simp [rawOf]

theorem rawOf_foldl_addUnit (tables : Tables) (limit : Int) (units chunks : List (List Indexed)) :
    rawOf (units.foldl (addUnit tables limit) chunks).flatten =
      rawOf chunks.flatten ++ rawOf units.flatten := by
  induction units generalizing chunks with
  | nil => simp [rawOf]
  | cons unit units ih =>
    rw [List.foldl_cons, ih, rawOf_addUnit, List.flatten_cons, rawOf_append, List.append_assoc]

theorem rawOf_zipIdx (tokens : List Token) (start : Nat) :
    rawOf (tokens.zipIdx start) = tokens.flatMap Token.raw := by
  induction tokens generalizing start with
  | nil => rfl
  | cons token tokens ih =>
    rw [List.zipIdx_cons, List.flatMap_cons, ← ih (start + 1)]
    rfl

/-- The chunks hold the text of the run. -/
theorem raw_chunksOf (tables : Tables) (maxChars : Option Int) (tokens : List Token) :
    (chunksOf tables maxChars tokens).flatten.flatMap Token.raw = tokens.flatMap Token.raw := by
  have whole : rawOf (indexedChunks tables maxChars tokens).flatten = tokens.flatMap Token.raw := by
    have single : rawOf [tokens.zipIdx].flatten = tokens.flatMap Token.raw := by
      rw [List.flatten_singleton, rawOf_zipIdx]
    unfold indexedChunks
    split
    · exact single
    · split
      · exact single
      · rw [rawOf_foldl_addUnit, rawOf_unitsOf, rawOf_zipIdx]
        rfl
  rw [← whole, chunksOf, ← List.map_flatten, List.flatMap_map, rawOf]

end Text

section Pairs

/-- The indexes that a pairing has seen: open tags, opening and closing tags of pairs. -/
def Pairing.used (pairing : Pairing) : List Nat :=
  pairing.stack.map Prod.fst ++ (pairing.pairs.map Prod.fst ++ pairing.pairs.map Prod.snd)

/-- Every tag is used once, and a pair opens before it closes. -/
structure Pairing.Sound (tokens : List Token) (bound : Nat) (pairing : Pairing) : Prop where
  once : pairing.used.Nodup
  tagged : ∀ index ∈ pairing.used,
    index < bound ∧ ∃ token, tokens[index]? = some token ∧ token.kind = .tag
  ordered : ∀ pair ∈ pairing.pairs, pair.1 < pair.2

theorem Pairing.Sound.next {tokens : List Token} {bound : Nat} {pairing : Pairing} {token : Token}
    (sound : pairing.Sound tokens bound) (here : tokens[bound]? = some token) :
    (pairing.next (token, bound)).Sound tokens (bound + 1) := by
  have wider : ∀ index ∈ pairing.used, index < bound + 1 ∧
      ∃ token, tokens[index]? = some token ∧ token.kind = .tag := fun index member =>
    ⟨Nat.lt_succ_of_lt (sound.tagged index member).1, (sound.tagged index member).2⟩
  have fresh : bound ∉ pairing.used := fun member => lt_irrefl _ (sound.tagged bound member).1
  unfold Pairing.next
  dsimp only
  split
  · exact ⟨sound.once, wider, sound.ordered⟩
  · rename_i isTag
    have kind : token.kind = .tag := by
      by_contra other
      exact isTag (.inl other)
    have extends' : ∀ index ∈ bound :: pairing.used, index < bound + 1 ∧
        ∃ token, tokens[index]? = some token ∧ token.kind = .tag :=
      List.forall_mem_cons.mpr ⟨⟨Nat.lt_succ_self bound, token, here, kind⟩, wider⟩
    split
    · exact ⟨List.nodup_cons.mpr ⟨fresh, sound.once⟩, extends', sound.ordered⟩
    · split
      · rename_i opened name stack shape
        split
        · have moved : (Pairing.used ⟨stack, pairing.pairs ++ [(opened, bound)]⟩).Perm
              (bound :: pairing.used) := by
            rw [Pairing.used, Pairing.used, shape]
            rw [List.perm_iff_count]
            intro index
            simp only [List.map_append, List.map_cons, List.map_nil, List.count_append,
              List.count_cons, List.count_nil]
            omega
          refine ⟨moved.nodup_iff.mpr (List.nodup_cons.mpr ⟨fresh, sound.once⟩), ?_, ?_⟩
          · exact fun index member => extends' index (moved.mem_iff.mp member)
          · intro pair member
            rcases List.mem_append.mp member with old | new
            · exact sound.ordered pair old
            · cases List.mem_singleton.mp new
              exact (sound.tagged opened (by simp [Pairing.used, shape])).1
        · exact ⟨sound.once, wider, sound.ordered⟩
      · exact ⟨sound.once, wider, sound.ordered⟩

theorem foldl_next_sound {tokens rest : List Token} {bound : Nat} {pairing : Pairing}
    (sound : pairing.Sound tokens bound) (shape : tokens.drop bound = rest) :
    ((rest.zipIdx bound).foldl Pairing.next pairing).Sound tokens tokens.length := by
  induction rest generalizing bound pairing with
  | nil =>
    rw [List.drop_eq_nil_iff] at shape
    refine ⟨sound.once, fun index member => ?_, sound.ordered⟩
    obtain ⟨_, token, found, kind⟩ := sound.tagged index member
    exact ⟨(List.getElem?_eq_some_iff.mp found).1, token, found, kind⟩
  | cons token rest ih =>
    rw [List.zipIdx_cons, List.foldl_cons]
    have here : tokens[bound]? = some token := by
      rw [← List.head?_drop, shape]
      rfl
    apply ih (sound.next here)
    rw [← List.drop_drop, shape]
    rfl

theorem matchedTagPairs_sound (tokens : List Token) :
    ∃ pairing : Pairing, pairing.Sound tokens tokens.length ∧
      pairing.pairs = matchedTagPairs tokens :=
  ⟨_, foldl_next_sound ⟨by simp [Pairing.used], by simp [Pairing.used], by simp⟩ List.drop_zero, rfl⟩

/-- What the depth counts: the pairs that open before an index, less those that close before it. -/
def balance (pairs : List (Nat × Nat)) (index : Nat) : Int :=
  (pairs.countP fun pair => decide (pair.1 < index)) -
    (pairs.countP fun pair => decide (pair.2 < index))

theorem countP_lt_succ {α : Type} (f : α → Nat) (items : List α) (index : Nat) :
    items.countP (fun item => decide (f item < index + 1)) =
      items.countP (fun item => decide (f item < index)) + (items.map f).count index := by
  induction items with
  | nil => rfl
  | cons item items ih =>
    simp only [List.countP_cons, List.map_cons, List.count_cons, ih, decide_eq_true_eq, beq_iff_eq]
    split <;> split <;> split <;> omega

theorem Pairing.Sound.balance_succ {tokens : List Token} {bound : Nat} {pairing : Pairing}
    (sound : pairing.Sound tokens bound) (index : Nat) :
    balance pairing.pairs (index + 1) =
      balance pairing.pairs index + depthChange pairing.pairs index := by
  obtain ⟨_, once, _⟩ := List.nodup_append.mp sound.once
  obtain ⟨opens, closes, apart⟩ := List.nodup_append.mp once
  unfold balance depthChange
  rw [countP_lt_succ, countP_lt_succ]
  by_cases closing : index ∈ pairing.pairs.map Prod.snd
  · have opening : index ∉ pairing.pairs.map Prod.fst := fun member =>
      apart index member index closing rfl
    rw [if_pos closing, List.count_eq_one_of_mem closes closing, List.count_eq_zero_of_not_mem opening]
    omega
  · rw [if_neg closing, List.count_eq_zero_of_not_mem closing]
    by_cases opening : index ∈ pairing.pairs.map Prod.fst
    · rw [if_pos opening, List.count_eq_one_of_mem opens opening]
      omega
    · rw [if_neg opening, List.count_eq_zero_of_not_mem opening]
      omega

/-- Where the depth is zero, every pair that is open is closed. -/
theorem closed_of_balance {pairs : List (Nat × Nat)} {index : Nat}
    (ordered : ∀ pair ∈ pairs, pair.1 < pair.2) (level : balance pairs index = 0) :
    ∀ pair ∈ pairs, pair.1 < index → pair.2 < index := by
  induction pairs with
  | nil => exact fun _ member => absurd member List.not_mem_nil
  | cons pair pairs ih =>
    rw [List.forall_mem_cons] at ordered
    have fewer : pairs.countP (fun pair => decide (pair.2 < index)) ≤
        pairs.countP (fun pair => decide (pair.1 < index)) := by
      apply List.countP_mono_left
      intro other member closes
      rw [decide_eq_true_eq] at closes ⊢
      exact (ordered.2 other member).trans closes
    have first := ordered.1
    simp only [balance, List.countP_cons, decide_eq_true_eq] at level
    rw [List.forall_mem_cons]
    constructor
    · intro opens
      rw [if_pos opens] at level
      by_contra late
      rw [if_neg late] at level
      omega
    · apply ih ordered.2
      unfold balance
      split at level <;> split at level <;> omega

/-- The indexes of a list of tokens. -/
def indexesOf (items : List Indexed) : List Nat := items.map Prod.snd

theorem indexesOf_append (first second : List Indexed) :
    indexesOf (first ++ second) = indexesOf first ++ indexesOf second := List.map_append

/-- The unit that is being filled goes on in one of the units. -/
theorem unit_grows_sentences (index : Nat) (unit : List Indexed) (sentences : List Text) :
    (∃ first ∈ (sentenceUnits index unit sentences).1, unit <+: first) ∨
      unit <+: (sentenceUnits index unit sentences).2 := by
  induction sentences generalizing unit with
  | nil => exact .inr (List.prefix_refl unit)
  | cons sentence sentences ih =>
    rw [sentenceUnits]
    split
    · rcases ih (unit ++ [(⟨.text, sentence, [], false⟩, index)]) with ⟨first, member, grows⟩ | grows
      · exact .inl ⟨first, member, (List.prefix_append _ _).trans grows⟩
      · exact .inr ((List.prefix_append _ _).trans grows)
    · exact .inl ⟨_, List.mem_cons_self, List.prefix_append _ _⟩

theorem unit_grows (pairs : List (Nat × Nat)) (depth : Int) (unit items : List Indexed) :
    ∃ first ∈ unitsOf pairs depth unit items, unit <+: first := by
  induction items generalizing depth unit with
  | nil => exact ⟨unit, List.mem_singleton_self unit, List.prefix_refl unit⟩
  | cons item items ih =>
    obtain ⟨token, index⟩ := item
    rw [unitsOf]
    dsimp only
    split
    · obtain ⟨first, member, grows⟩ := ih (depth + depthChange pairs index) (unit ++ [(token, index)])
      exact ⟨first, member, (List.prefix_append _ _).trans grows⟩
    · rcases unit_grows_sentences index unit (splitKeepingWhitespace token.raw) with
        ⟨first, member, grows⟩ | grows
      · exact ⟨first, List.mem_append_left _ member, grows⟩
      · obtain ⟨first, member, later⟩ := ih (depth + depthChange pairs index)
          (sentenceUnits index unit (splitKeepingWhitespace token.raw)).2
        exact ⟨first, List.mem_append_right _ member, grows.trans later⟩

/-- Both tags of a pair are in one of the lists. -/
def Together (units : List (List Indexed)) (pair : Nat × Nat) : Prop :=
  ∃ unit ∈ units, pair.1 ∈ indexesOf unit ∧ pair.2 ∈ indexesOf unit

theorem mem_indexesOf_prefix {unit first : List Indexed} (grows : unit <+: first) {index : Nat}
    (member : index ∈ indexesOf unit) : index ∈ indexesOf first :=
  (grows.map Prod.snd).subset member

/-- The units keep a pair together whose opening tag is in the unit being filled or still to
come. -/
theorem together_unitsOf {tokens rest : List Token} {pairing : Pairing}
    (sound : pairing.Sound tokens tokens.length) {index : Nat} {unit : List Indexed}
    (shape : tokens.drop index = rest)
    (filled : ∀ pair ∈ pairing.pairs, index ≤ pair.2 → pair.1 < index → pair.1 ∈ indexesOf unit) :
    ∀ pair ∈ pairing.pairs, index ≤ pair.2 →
      Together (unitsOf pairing.pairs (balance pairing.pairs index) unit (rest.zipIdx index)) pair := by
  induction rest generalizing index unit with
  | nil =>
    intro pair member open'
    have used : pair.2 ∈ pairing.used := by
      simp only [Pairing.used, List.mem_append, List.mem_map]
      exact .inr (.inr ⟨pair, member, rfl⟩)
    have bounded := (sound.tagged pair.2 used).1
    rw [List.drop_eq_nil_iff] at shape
    omega
  | cons token rest ih =>
    have here : tokens[index]? = some token := by
      rw [← List.head?_drop, shape]
      rfl
    have next : tokens.drop (index + 1) = rest := by
      rw [← List.drop_drop, shape]
      rfl
    intro pair member open'
    rw [List.zipIdx_cons, unitsOf]
    dsimp only
    rw [← sound.balance_succ]
    by_cases stays : token.kind ≠ .text ∨ balance pairing.pairs (index + 1) ≠ 0
    · rw [if_pos stays]
      have ordered := sound.ordered pair member
      by_cases closing : pair.2 = index
      · obtain ⟨first, chosen, grows⟩ := unit_grows pairing.pairs (balance pairing.pairs (index + 1))
          (unit ++ [(token, index)]) (rest.zipIdx (index + 1))
        refine ⟨first, chosen, mem_indexesOf_prefix grows ?_, mem_indexesOf_prefix grows ?_⟩
        · rw [indexesOf_append]
          exact List.mem_append_left _ (filled pair member open' (by omega))
        · simp [indexesOf, closing]
      · apply ih next ?_ pair member (by omega)
        intro other known later opened
        rw [indexesOf_append, List.mem_append]
        by_cases new : other.1 = index
        · exact .inr (by simp [indexesOf, new])
        · exact .inl (filled other known (by omega) (by omega))
    · rw [if_neg stays]
      rw [not_or, not_not, not_not] at stays
      have closed := closed_of_balance sound.ordered stays.2
      have later : pair.2 ≠ index := by
        intro closing
        have used : pair.2 ∈ pairing.used := by
          simp only [Pairing.used, List.mem_append, List.mem_map]
          exact .inr (.inr ⟨pair, member, rfl⟩)
        obtain ⟨_, tag, found, kind⟩ := sound.tagged pair.2 used
        rw [closing, here, Option.some.injEq] at found
        rw [← found, stays.1] at kind
        cases kind
      have none : ∀ other ∈ pairing.pairs, index + 1 ≤ other.2 → other.1 < index + 1 →
          other.1 ∈ indexesOf (sentenceUnits index unit (splitKeepingWhitespace token.raw)).2 := by
        intro other known later opened
        have := closed other known opened
        omega
      obtain ⟨found, chosen, together⟩ := ih next none pair member (by omega)
      exact ⟨found, List.mem_append_right _ chosen, together⟩

/-- Every unit with tokens is within one of the chunks. -/
def Covered (chunks units : List (List Indexed)) : Prop :=
  ∀ unit ∈ units, unit ≠ [] → ∃ chunk ∈ chunks, indexesOf unit ⊆ indexesOf chunk

theorem covered_addUnit (tables : Tables) (limit : Int) {chunks done : List (List Indexed)}
    (covered : Covered chunks done) (unit : List Indexed) :
    Covered (addUnit tables limit chunks unit) (done ++ [unit]) := by
  have alone : unit ≠ [] → Covered (chunks ++ [unit]) (done ++ [unit]) := by
    intro _ other member filled
    rcases List.mem_append.mp member with old | new
    · obtain ⟨chunk, found, within⟩ := covered other old filled
      exact ⟨chunk, List.mem_append_left _ found, within⟩
    · rw [List.mem_singleton.mp new]
      exact ⟨unit, List.mem_append_right _ (List.mem_singleton_self unit), List.Subset.refl _⟩
  have nothing : unit = [] → Covered chunks (done ++ [unit]) := by
    intro empty other member filled
    rcases List.mem_append.mp member with old | new
    · exact covered other old filled
    · exact absurd ((List.mem_singleton.mp new).trans empty) filled
  unfold addUnit
  split
  · rename_i last found
    split
    · have split := List.dropLast_append_getLast? last found
      intro other member filled
      rcases List.mem_append.mp member with old | new
      · obtain ⟨chunk, chosen, within⟩ := covered other old filled
        rw [← split] at chosen
        rcases List.mem_append.mp chosen with earlier | final
        · exact ⟨chunk, List.mem_append_left _ earlier, within⟩
        · rw [List.mem_singleton.mp final] at within
          refine ⟨last ++ unit, List.mem_append_right _ (List.mem_singleton_self _), ?_⟩
          rw [indexesOf_append]
          exact List.subset_append_of_subset_left _ within
      · refine ⟨last ++ unit, List.mem_append_right _ (List.mem_singleton_self _), ?_⟩
        rw [List.mem_singleton.mp new, indexesOf_append]
        exact List.subset_append_right _ _
    · split
      · exact nothing ‹_›
      · exact alone ‹_›
  · split
    · exact nothing ‹_›
    · exact alone ‹_›

theorem covered_foldl (tables : Tables) (limit : Int) {chunks done : List (List Indexed)}
    (covered : Covered chunks done) (units : List (List Indexed)) :
    Covered (units.foldl (addUnit tables limit) chunks) (done ++ units) := by
  induction units generalizing chunks done with
  | nil =>
    rw [List.append_nil]
    exact covered
  | cons unit units ih =>
    have rest := ih (covered_addUnit tables limit covered unit)
    rwa [List.append_assoc, List.singleton_append] at rest

/-- No chunk boundary separates the tags of a pair. -/
theorem together_chunks (tables : Tables) (maxChars : Option Int) (tokens : List Token) :
    ∀ pair ∈ matchedTagPairs tokens, Together (indexedChunks tables maxChars tokens) pair := by
  obtain ⟨pairing, sound, same⟩ := matchedTagPairs_sound tokens
  intro pair member
  rw [← same] at member
  have used : pair.1 ∈ pairing.used ∧ pair.2 ∈ pairing.used := by
    simp only [Pairing.used, List.mem_append, List.mem_map]
    exact ⟨.inr (.inl ⟨pair, member, rfl⟩), .inr (.inr ⟨pair, member, rfl⟩)⟩
  have whole : Together [tokens.zipIdx] pair := by
    refine ⟨_, List.mem_singleton_self _, ?_, ?_⟩
    · rw [indexesOf, List.zipIdx_map_snd, List.mem_range'_1]
      exact ⟨Nat.zero_le _, by have := (sound.tagged _ used.1).1; omega⟩
    · rw [indexesOf, List.zipIdx_map_snd, List.mem_range'_1]
      exact ⟨Nat.zero_le _, by have := (sound.tagged _ used.2).1; omega⟩
  unfold indexedChunks
  split
  · exact whole
  · rename_i limit
    split
    · exact whole
    · have level : balance pairing.pairs 0 = 0 := by simp [balance]
      have none : ∀ pair ∈ pairing.pairs, 0 ≤ pair.2 → pair.1 < 0 → pair.1 ∈ indexesOf [] :=
        fun _ _ _ early => absurd early (Nat.not_lt_zero _)
      obtain ⟨unit, chosen, opening, closing⟩ :=
        together_unitsOf sound List.drop_zero none pair member (Nat.zero_le _)
      rw [level, same] at chosen
      have filled : unit ≠ [] := by
        rintro rfl
        cases opening
      have nothing : Covered [] [] := fun _ absent => absurd absent List.not_mem_nil
      obtain ⟨chunk, found, within⟩ := covered_foldl tables limit nothing _ unit chosen filled
      exact ⟨chunk, found, within opening, within closing⟩

end Pairs
end Collector.Translation
