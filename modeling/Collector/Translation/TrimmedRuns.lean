import Collector.Translation.ChunkPairs
import Collector.Translation.Segmenter

/-!
The unmatched tags at the ends of a run stay outside its segments. What is between them has the
matched tags of the run, at the same distance from its beginning, because a tag that is never
closed never answers a closing tag.
-/

namespace Collector.Translation
open Collector.Lib

/-- A pair further to the right. -/
def shifted (shift : Nat) (pair : Nat × Nat) : Nat × Nat := (pair.1 + shift, pair.2 + shift)

namespace Pairing

/-- A token adds at most the pair that it closes. -/
theorem next_pairs (pairing : Pairing) (item : Indexed) :
    ∃ more, (pairing.next item).pairs = pairing.pairs ++ more ∧
      ∀ pair ∈ more, pair.2 = item.2 := by
  have same : ∃ more, pairing.pairs = pairing.pairs ++ more ∧ ∀ pair ∈ more, pair.2 = item.2 :=
    ⟨[], (List.append_nil _).symm, fun _ none => absurd none List.not_mem_nil⟩
  obtain ⟨token, index⟩ := item
  unfold next
  dsimp only at same ⊢
  split
  · exact same
  · split
    · exact same
    · split
      · split
        · exact ⟨_, rfl, fun pair member => by rw [List.mem_singleton.mp member]⟩
        · exact same
      · exact same

/-- Tokens add pairs that they close. -/
theorem foldl_pairs (pairing : Pairing) (items : List Indexed) :
    ∃ more, (items.foldl next pairing).pairs = pairing.pairs ++ more ∧
      ∀ pair ∈ more, pair.2 ∈ indexesOf items := by
  induction items generalizing pairing with
  | nil => exact ⟨[], (List.append_nil _).symm, fun _ none => absurd none List.not_mem_nil⟩
  | cons item items ih =>
    obtain ⟨first, step, closes⟩ := pairing.next_pairs item
    obtain ⟨rest, run, later⟩ := ih (pairing.next item)
    refine ⟨first ++ rest, ?_, fun pair member => ?_⟩
    · rw [List.foldl_cons, run, step, List.append_assoc]
    · rw [indexesOf, List.map_cons, List.mem_cons]
      rcases List.mem_append.mp member with now | behind
      · exact .inl (closes pair now)
      · exact .inr (later pair behind)

/-- The tags that are open stand among the tokens. -/
theorem foldl_stack (pairing : Pairing) (items : List Indexed) :
    ∀ entry ∈ (items.foldl next pairing).stack,
      entry ∈ pairing.stack ∨ entry.1 ∈ indexesOf items := by
  induction items generalizing pairing with
  | nil => exact fun entry member => .inl member
  | cons item items ih =>
    intro entry member
    rw [indexesOf, List.map_cons, List.mem_cons]
    rcases ih (pairing.next item) entry member with now | later
    · have step : entry ∈ pairing.stack ∨ entry.1 = item.2 := by
        revert now
        unfold next
        split
        split
        · exact .inl
        · split
          · intro now
            rcases List.mem_cons.mp now with new | old
            · exact .inr (congrArg Prod.fst new)
            · exact .inl old
          · split
            · rename_i shape
              split
              · exact fun now => .inl (shape ▸ List.mem_cons_of_mem _ now)
              · exact .inl
            · exact .inl
      exact step.imp_right .inl
    · exact .inr (.inr later)

/-- One pairing is the other, moved to the right, over tags that are open before it. -/
structure Behind (shift : Nat) (bottom : List (Nat × Text)) (whole part : Pairing) : Prop where
  stack : whole.stack = part.stack.map (fun entry => (entry.1 + shift, entry.2)) ++ bottom
  pairs : whole.pairs = part.pairs.map (shifted shift)

theorem Behind.next {shift : Nat} {bottom : List (Nat × Text)} {whole part : Pairing}
    (behind : Behind shift bottom whole part) (token : Token) (index : Nat)
    (loose : ∀ pair ∈ (whole.next (token, index + shift)).pairs,
      pair.1 ∉ bottom.map Prod.fst) :
    Behind shift bottom (whole.next (token, index + shift)) (part.next (token, index)) := by
  obtain ⟨stack, pairs⟩ := part
  obtain ⟨whole, found⟩ := whole
  obtain ⟨rfl, rfl⟩ : whole = _ ∧ found = _ := ⟨behind.stack, behind.pairs⟩
  unfold Pairing.next at loose ⊢
  dsimp only at loose ⊢
  by_cases aside : token.kind ≠ .tag ∨ token.name ∈ voidTags
  · rw [if_pos aside, if_pos aside]
    exact ⟨rfl, rfl⟩
  · rw [if_neg aside] at loose
    rw [if_neg aside, if_neg aside]
    by_cases opening : token.closing = false
    · rw [if_pos opening, if_pos opening]
      exact ⟨rfl, rfl⟩
    · rw [if_neg opening] at loose
      rw [if_neg opening, if_neg opening]
      cases stack with
      | cons entry rest =>
        rw [List.map_cons, List.cons_append]
        dsimp only
        by_cases answers : entry.2 = token.name
        · rw [if_pos answers, if_pos answers]
          refine ⟨rfl, ?_⟩
          rw [List.map_append]
          rfl
        · rw [if_neg answers, if_neg answers]
          exact ⟨rfl, rfl⟩
      | nil =>
        rw [List.map_nil, List.nil_append] at loose ⊢
        cases bottom with
        | nil => exact ⟨rfl, rfl⟩
        | cons entry bottom =>
          dsimp only at loose ⊢
          by_cases answers : entry.2 = token.name
          · -- The tag below would be closed here.
            rw [if_pos answers] at loose
            have closed := loose _ (List.mem_append_right _ (List.mem_singleton_self _))
            exact absurd List.mem_cons_self closed
          · rw [if_neg answers]
            exact ⟨rfl, rfl⟩

theorem Behind.foldl {shift : Nat} {bottom : List (Nat × Text)} {whole part : Pairing}
    (behind : Behind shift bottom whole part) (tokens : List Token) (start : Nat)
    (loose : ∀ pair ∈ ((tokens.zipIdx (start + shift)).foldl Pairing.next whole).pairs,
      pair.1 ∉ bottom.map Prod.fst) :
    Behind shift bottom ((tokens.zipIdx (start + shift)).foldl Pairing.next whole)
      ((tokens.zipIdx start).foldl Pairing.next part) := by
  induction tokens generalizing start whole part with
  | nil => exact behind
  | cons token tokens ih =>
    rw [List.zipIdx_cons, List.foldl_cons] at loose ⊢
    rw [List.zipIdx_cons, List.foldl_cons]
    rw [show start + shift + 1 = start + 1 + shift by omega] at loose ⊢
    apply ih (behind.next token start ?_) (start + 1) loose
    intro pair member
    obtain ⟨more, grown, _⟩ := foldl_pairs (whole.next (token, start + shift))
      (tokens.zipIdx (start + 1 + shift))
    apply loose pair
    rw [grown]
    exact List.mem_append_left _ member

end Pairing

/-- Two pieces of a numbered list are numbered. -/
theorem zipIdx_eq_append {tokens : List Token} {start : Nat} {first second : List Indexed}
    (split : tokens.zipIdx start = first ++ second) :
    first = (first.map Prod.fst).zipIdx start ∧
      second = (second.map Prod.fst).zipIdx (start + first.length) := by
  have whole := congrArg (List.map Prod.fst) split
  rw [List.zipIdx_map_fst, List.map_append] at whole
  rw [whole, List.zipIdx_append, List.length_map] at split
  have parts := List.append_inj split (by rw [List.length_zipIdx, List.length_map])
  exact ⟨parts.1.symm, parts.2.symm⟩

section TrimRun
variable (run : List Token)

/-- The tags that have no partner. -/
def loose (item : Indexed) : Bool :=
  decide (item.1.kind = .tag) &&
    decide (item.2 ∉ (matchedTagPairs run).flatMap fun (opened, closed) => [opened, closed])

def leading : List Indexed := run.zipIdx.takeWhile (loose run)
def middle : List Indexed := (run.zipIdx.dropWhile (loose run)).rdropWhile (loose run)
def trailing : List Indexed := (run.zipIdx.dropWhile (loose run)).rtakeWhile (loose run)

theorem trimRun_eq : Segmenter.trimRun run =
    ((leading run).map Prod.fst, (middle run).map Prod.fst, (trailing run).map Prod.fst) := rfl

theorem zipIdx_eq_trimmed : run.zipIdx = leading run ++ (middle run ++ trailing run) := by
  rw [middle, trailing, List.rdropWhile_append_rtakeWhile, leading, List.takeWhile_append_dropWhile]

theorem trimRun_append :
    (Segmenter.trimRun run).1 ++ ((Segmenter.trimRun run).2.1 ++ (Segmenter.trimRun run).2.2) =
      run := by
  rw [trimRun_eq, ← List.map_append, ← List.map_append, ← zipIdx_eq_trimmed, List.zipIdx_map_fst]

variable {run}

theorem not_matched {item : Indexed} (found : loose run item = true) {pair : Nat × Nat}
    (member : pair ∈ matchedTagPairs run) : pair.1 ≠ item.2 ∧ pair.2 ≠ item.2 := by
  have free := (Bool.and_eq_true_iff.mp found).2
  rw [decide_eq_true_eq, List.mem_flatMap] at free
  exact ⟨fun same => free ⟨pair, member, by simp [same]⟩,
    fun same => free ⟨pair, member, by simp [same]⟩⟩

theorem matchedTagPairs_trimRun (run : List Token) :
    matchedTagPairs run = (matchedTagPairs (Segmenter.trimRun run).2.1).map
      (shifted (Segmenter.trimRun run).1.length) := by
  have shape := zipIdx_eq_trimmed run
  obtain ⟨first, later⟩ := zipIdx_eq_append shape
  obtain ⟨second, _⟩ := zipIdx_eq_append later.symm
  have found : matchedTagPairs run = ((trailing run).foldl Pairing.next
      ((middle run).foldl Pairing.next ((leading run).foldl Pairing.next ⟨[], []⟩))).pairs := by
    rw [← List.foldl_append, ← List.foldl_append, ← shape, matchedTagPairs]
  generalize ahead : (leading run).foldl Pairing.next ⟨[], []⟩ = before at found
  generalize inside : (middle run).foldl Pairing.next before = between at found
  obtain ⟨early, fromLeading, closesEarly⟩ := Pairing.foldl_pairs ⟨[], []⟩ (leading run)
  obtain ⟨kept, fromMiddle, _⟩ := Pairing.foldl_pairs before (middle run)
  obtain ⟨late, fromTrailing, closesLate⟩ := Pairing.foldl_pairs between (trailing run)
  rw [ahead, List.nil_append] at fromLeading
  rw [inside] at fromMiddle
  rw [← found] at fromTrailing
  have noneEarly : early = [] := by
    rw [List.eq_nil_iff_forall_not_mem]
    intro pair member
    obtain ⟨item, placed, same⟩ := List.mem_map.mp (closesEarly pair member)
    have free : loose run item = true := List.mem_takeWhile_imp placed
    apply (not_matched free ?_).2 same.symm
    rw [fromTrailing, fromMiddle, fromLeading]
    exact List.mem_append_left _ (List.mem_append_left _ member)
  have noneLate : late = [] := by
    rw [List.eq_nil_iff_forall_not_mem]
    intro pair member
    obtain ⟨item, placed, same⟩ := List.mem_map.mp (closesLate pair member)
    have free : loose run item = true := List.mem_rtakeWhile_imp placed
    apply (not_matched free ?_).2 same.symm
    rw [fromTrailing]
    exact List.mem_append_right _ member
  rw [noneLate, List.append_nil] at fromTrailing
  have start : Pairing.Behind (leading run).length before.stack before ⟨[], []⟩ :=
    ⟨rfl, by rw [fromLeading, noneEarly]; rfl⟩
  have apart : ∀ pair ∈ between.pairs, pair.1 ∉ before.stack.map Prod.fst := by
    intro pair member below
    obtain ⟨entry, waiting, same⟩ := List.mem_map.mp below
    rw [← ahead] at waiting
    rcases Pairing.foldl_stack _ _ entry waiting with none | among
    · cases none
    · obtain ⟨item, placed, index⟩ := List.mem_map.mp among
      have free : loose run item = true := List.mem_takeWhile_imp placed
      exact (not_matched free (fromTrailing ▸ member)).1 (same.symm.trans index.symm)
  rw [second, Nat.zero_add] at inside
  have run := start.foldl ((middle run).map Prod.fst) 0 (by rwa [Nat.zero_add, inside])
  rw [Nat.zero_add, inside] at run
  rw [fromTrailing, run.pairs, trimRun_eq, List.length_map]
  rfl

end TrimRun
end Collector.Translation
