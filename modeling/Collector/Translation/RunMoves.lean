import Collector.Translation.RoundTrip
import Collector.Translation.RunTexts

/-!
The texts that wait in the run of the segmenter. An event of the parser that holds text goes on with
the text that is arriving; every other event ends it, and keeps the texts that wait or flushes them
into the text segments.
-/

namespace Collector.Translation
open Collector.Lib

/-- The events that hold text. -/
def ParserEvent.isText : ParserEvent → Bool
  | .data _ | .entityref _ | .charref _ => true
  | _ => false

namespace Segmenter

/-- The text that is arriving. -/
def current (s : Segmenter) : Option Text :=
  if s.pendingText = [] then none else some s.pendingText.flatten

/-- The texts that wait for a flush. -/
def waitingTexts (s : Segmenter) : List Text := textsOf s.run ++ s.current.toList

/-- The last token of a run is no text. -/
def Settled (run : List Token) : Prop := ∀ last, run.getLast? = some last → last.kind ≠ .text

section Moves
variable (tables : Tables) (maxChars : Option Int)

/-- Texts have come into the text segments. -/
def Passed (flushed before after : List Text) : Prop :=
  ∃ pieces parts, Cuts maxChars flushed pieces ∧ after = before ++ parts ∧ Lands tables pieces parts

variable {tables maxChars}

theorem Passed.refl (texts : List Text) : Passed tables maxChars [] texts texts :=
  ⟨[], [], .nil, (List.append_nil texts).symm, .nil⟩

theorem Passed.trans {flushed flushed' first second third : List Text}
    (one : Passed tables maxChars flushed first second)
    (other : Passed tables maxChars flushed' second third) :
    Passed tables maxChars (flushed ++ flushed') first third := by
  obtain ⟨pieces, parts, cuts, rfl, lands⟩ := one
  obtain ⟨pieces', parts', cuts', rfl, lands'⟩ := other
  exact ⟨_, _, cuts.append cuts', List.append_assoc .., lands.append lands'⟩

variable (tables maxChars) in
/-- A move that ends the text run: the texts that waited still wait or have come into segments. -/
structure Moves (s s' : Segmenter) : Prop where
  pending : s'.pendingText = []
  ends : s'.skip = none → Settled s'.run
  texts : ∃ flushed, s.waitingTexts = flushed ++ textsOf s'.run ∧
    Passed tables maxChars flushed (segmentTexts s.segments) (segmentTexts s'.segments)

/-- The parts of the state that hold texts are the same. -/
structure SameTexts (s s' : Segmenter) : Prop where
  run : s'.run = s.run
  pending : s'.pendingText = s.pendingText
  segments : segmentTexts s'.segments = segmentTexts s.segments

variable {s s' s'' : Segmenter}

theorem SameTexts.moves (same : SameTexts s s') (moves : Moves tables maxChars s' s'') :
    Moves tables maxChars s s'' := by
  refine ⟨moves.pending, moves.ends, ?_⟩
  have texts := moves.texts
  rw [waitingTexts, current, same.run, same.pending, same.segments] at texts
  exact texts

theorem Moves.same (moves : Moves tables maxChars s s') (same : SameTexts s' s'')
    (skip : s''.skip = none → s'.skip = none) : Moves tables maxChars s s'' := by
  refine ⟨same.pending.trans moves.pending, ?_, ?_⟩
  · rw [same.run]
    exact fun idle => moves.ends (skip idle)
  · rw [same.run, same.segments]
    exact moves.texts

theorem waitingTexts_materializeText (s : Segmenter) :
    textsOf s.materializeText.run = s.waitingTexts ∧ s.materializeText.pendingText = [] ∧
      s.materializeText.segments = s.segments ∧ s.materializeText.skip = s.skip := by
  unfold materializeText waitingTexts current
  split
  · rename_i nothing
    exact ⟨(List.append_nil _).symm, nothing, rfl, rfl⟩
  · exact ⟨textsOf_append s.run _, rfl, rfl, rfl⟩

theorem moves_append (s : Segmenter) {token : Token} (markup : token.kind ≠ .text) :
    Moves tables maxChars s (s.append token) := by
  obtain ⟨texts, pending, segments, _⟩ := waitingTexts_materializeText s
  rw [append, if_neg markup]
  refine ⟨pending, ?_, [], ?_, ?_⟩
  · intro _ last found
    rw [push, List.getLast?_concat] at found
    cases found
    exact markup
  · rw [List.nil_append, push, textsOf_append, textsOf_cons_markup markup, ← texts]
    exact (List.append_nil _).symm
  · rw [push, segments]
    exact .refl _

/-- What emitting leaves alone. -/
structure Undisturbed (s s' : Segmenter) : Prop where
  run : s'.run = s.run
  pending : s'.pendingText = s.pendingText
  skip : s'.skip = s.skip
  unterminated : s'.unterminated = s.unterminated

variable (tables) in
theorem undisturbed_foldl_emit (s : Segmenter) (chunks : List (List Token)) :
    Undisturbed s (chunks.foldl (emit tables) s) := by
  induction chunks generalizing s with
  | nil => exact ⟨rfl, rfl, rfl, rfl⟩
  | cons chunk chunks ih =>
    have first : Undisturbed s (s.emit tables chunk) := by
      unfold emit
      dsimp only
      split
      · split
        · exact ⟨rfl, rfl, rfl, rfl⟩
        · exact ⟨rfl, rfl, rfl, rfl⟩
      · exact ⟨rfl, rfl, rfl, rfl⟩
    have rest := ih (s.emit tables chunk)
    exact ⟨rest.run.trans first.run, rest.pending.trans first.pending, rest.skip.trans first.skip,
      rest.unterminated.trans first.unterminated⟩

/-- The texts of a run are between its loose ends. -/
theorem textsOf_trimRun (run : List Token) : textsOf (trimRun run).2.1 = textsOf run := by
  have loose_tags {items : List Indexed} (all : ∀ item ∈ items, loose run item = true) :
      textsOf (items.map Prod.fst) = [] := by
    apply textsOf_eq_nil
    intro token member
    obtain ⟨item, placed, rfl⟩ := List.mem_map.mp member
    have tag := (Bool.and_eq_true_iff.mp (all item placed)).1
    rw [of_decide_eq_true tag]
    rintro ⟨⟩
  conv_rhs => rw [← trimRun_append run, textsOf_append, textsOf_append]
  rw [trimRun_eq]
  dsimp only
  have first : textsOf ((leading run).map Prod.fst) = [] :=
    loose_tags fun item member => List.mem_takeWhile_imp member
  have last : textsOf ((trailing run).map Prod.fst) = [] :=
    loose_tags fun item member => List.mem_rtakeWhile_imp member
  rw [first, last, List.nil_append, List.append_nil]

variable (tables maxChars) in
/-- A flush brings all texts that wait into the text segments. -/
theorem moves_flush (s : Segmenter) : Moves tables maxChars s (s.flush tables maxChars) ∧
    (s.flush tables maxChars).run = [] ∧ (s.flush tables maxChars).skip = s.skip ∧
      (s.flush tables maxChars).unterminated = s.unterminated := by
  obtain ⟨texts, pending, segments, skip⟩ := waitingTexts_materializeText s
  have same : s.materializeText.unterminated = s.unterminated := by
    unfold materializeText
    split <;> rfl
  have settled : Settled [] := fun last found => by cases found
  unfold flush
  generalize s.materializeText = t at texts pending segments skip same ⊢
  dsimp only
  by_cases nothing : t.run = []
  · rw [if_pos nothing]
    refine ⟨⟨pending, fun _ => nothing ▸ settled, [], texts.symm, ?_⟩, nothing, skip, same⟩
    rw [segments]
    exact .refl _
  · rw [if_neg nothing]
    have middle := textsOf_trimRun t.run
    generalize trimRun t.run = pieces at middle ⊢
    obtain ⟨leading, middle', trailing⟩ := pieces
    dsimp only at middle ⊢
    have quiet := undisturbed_foldl_emit tables ({ t with run := [] }.addParts (rawParts leading))
      (chunksOf tables maxChars middle')
    obtain ⟨parts, shown, lands⟩ := lands_foldl_emit tables
      ({ t with run := [] }.addParts (rawParts leading)) (chunksOf tables maxChars middle')
    refine ⟨⟨quiet.pending.trans pending, ?_, s.waitingTexts, ?_, ?_⟩, quiet.run, quiet.skip.trans skip,
      quiet.unterminated.trans same⟩
    · intro _
      exact quiet.run ▸ settled
    · change s.waitingTexts = s.waitingTexts ++ textsOf (List.foldl (emit tables) _ _).run
      rw [quiet.run]
      exact (List.append_nil _).symm
    · refine ⟨_, parts, ?_, ?_, lands⟩
      · rw [← texts, ← middle]
        exact cuts_chunksOf tables middle'
      · rw [← segments]
        exact shown

theorem moves_keepRaw (idle : s.skip = none) (raw : Text) : Moves tables maxChars s (s.keepRaw raw) := by
  rw [keepRaw, idle]
  dsimp only
  split
  · exact moves_append s (by rintro ⟨⟩)
  · rename_i nothing
    rw [not_or, not_not, not_not] at nothing
    refine ⟨nothing.2, fun _ last found => ?_, [], ?_, .refl _⟩
    · change s.run.getLast? = _ at found
      rw [nothing.1] at found
      cases found
    · rw [waitingTexts, current, if_pos nothing.2]
      exact List.append_nil _

/-- Nothing is pending in a protected or skipped element; the run waits only for a protected one. -/
def Waiting (s : Segmenter) : Prop :=
  ∀ skip ∈ s.skip, s.pendingText = [] ∧ (skip.toRun = false → s.run = [])

theorem moves_keep {skip : Skip} (waiting : Waiting s) (skipping : s.skip = some skip) (next : Skip)
    (raw : Text) : Moves tables maxChars s (s.keep next raw) := by
  have pending := (waiting skip skipping).1
  refine ⟨pending, (by rintro ⟨⟩), [], ?_, .refl _⟩
  rw [waitingTexts, current, if_pos pending]
  exact List.append_nil _

variable (tables maxChars) in
theorem moves_endSkip {skip : Skip} (waiting : Waiting s) (skipping : s.skip = some skip) :
    Moves tables maxChars s s.endSkip ∧ s.endSkip.skip = none := by
  obtain ⟨pending, aside⟩ := waiting skip skipping
  rw [endSkip, skipping]
  dsimp only
  split
  · have same : SameTexts s { s with skip := none } := ⟨rfl, rfl, rfl⟩
    refine ⟨same.moves (moves_append _ (by rintro ⟨⟩)), ?_⟩
    rw [append, if_neg (by rintro ⟨⟩), push]
    exact (waitingTexts_materializeText _).2.2.2
  · rename_i outside
    have empty : s.run = [] := aside (by simpa using outside)
    refine ⟨⟨pending, fun _ last found => ?_, [], ?_, .refl _⟩, rfl⟩
    · change s.run.getLast? = _ at found
      rw [empty] at found
      cases found
    · rw [waitingTexts, current, if_pos pending]
      exact List.append_nil _

theorem sameTexts_pops {t : Segmenter} (pops : t = s ∨ ∃ position, t = s.popTo position) :
    SameTexts s t ∧ t.skip = s.skip := by
  rcases pops with rfl | ⟨position, rfl⟩
  · exact ⟨⟨rfl, rfl, rfl⟩, rfl⟩
  · exact ⟨⟨rfl, rfl, rfl⟩, rfl⟩

variable (tables maxChars)

theorem moves_blockStart (s : Segmenter) (tag raw : Text) (lang : Option Text) (void : Bool) :
    Moves tables maxChars s (s.blockStart tables maxChars tag raw lang void) := by
  obtain ⟨flushed, _⟩ := moves_flush tables maxChars s
  obtain ⟨first, idle⟩ := sameTexts_pops (closeParagraph_pops (s.flush tables maxChars))
  obtain ⟨second, idle'⟩ := sameTexts_pops (closeImplied_pops (s.flush tables maxChars).closeParagraph tag)
  have moved := (flushed.same first fun none => idle ▸ none).same second fun none => idle' ▸ none
  unfold blockStart
  dsimp only
  split
  · exact moved.same ⟨rfl, rfl, rfl⟩ id
  · exact moved.same ⟨rfl, rfl, rfl⟩ id

theorem moves_closeTag (s : Segmenter) (tag raw : Text) :
    Moves tables maxChars s (s.closeTag tables maxChars tag raw) := by
  unfold closeTag
  split
  · exact moves_append s (by rintro ⟨⟩)
  · obtain ⟨flushed, _⟩ := moves_flush tables maxChars s
    obtain ⟨same, idle⟩ := sameTexts_pops
      (closeElement_pops ((s.flush tables maxChars).addParts [.raw raw]) tag)
    have added : Moves tables maxChars s ((s.flush tables maxChars).addParts [.raw raw]) :=
      flushed.same ⟨rfl, rfl, rfl⟩ id
    exact added.same same fun none => idle ▸ none

variable (attributes : List Text)

/-- The segments of attributes hold no text of the run. -/
theorem sameTexts_attributeSlots (s : Segmenter) (raw tag : Text) (lang : Option Text) :
    SameTexts s (s.attributeSlots tables attributes raw tag lang).2 ∧
      (s.attributeSlots tables attributes raw tag lang).2.skip = s.skip := by
  have run : ∀ (items : List (Text × Nat × Nat)) (state : List Text × List (Nat × Nat × Nat) × Segmenter),
      SameTexts s state.2.2 ∧ state.2.2.skip = s.skip →
        SameTexts s (items.foldl (attributeSlot tables attributes raw tag lang) state).2.2 ∧
          (items.foldl (attributeSlot tables attributes raw tag lang) state).2.2.skip = s.skip := by
    intro items
    induction items with
    | nil => exact fun state same => same
    | cons item items ih =>
      intro state same
      apply ih
      obtain ⟨seen, slots, t⟩ := state
      obtain ⟨name, start, stop⟩ := item
      unfold attributeSlot
      dsimp only at same ⊢
      split
      · exact same
      · split
        · exact same
        · refine ⟨⟨same.1.run, same.1.pending, ?_⟩, same.2⟩
          rw [← same.1.segments]
          exact (segmentTexts_append t.segments _).trans (List.append_nil _)
  exact run (attributeValues tables raw) ([], [], s) ⟨⟨rfl, rfl, rfl⟩, rfl⟩

theorem moves_beginSkip (s : Segmenter) (tag raw : Text) (inline : Bool) :
    Moves tables maxChars s (s.beginSkip tables maxChars tag raw inline) := by
  have finish {t : Segmenter} (texts : ∃ flushed, s.waitingTexts = flushed ++ textsOf t.run ∧
      Passed tables maxChars flushed (segmentTexts s.segments) (segmentTexts t.segments))
      (pending : t.pendingText = []) (skip : Skip) : Moves tables maxChars s { t with skip := some skip } :=
    ⟨pending, (by rintro ⟨⟩), texts⟩
  unfold beginSkip
  dsimp only
  cases inline with
  | true =>
    obtain ⟨texts, pending, segments, _⟩ := waitingTexts_materializeText s
    refine finish ⟨[], texts.symm, ?_⟩ pending _
    rw [segments]
    exact .refl _
  | false =>
    obtain ⟨flushed, _⟩ := moves_flush tables maxChars s
    have still : (s.flush tables maxChars).materializeText = s.flush tables maxChars := by
      rw [materializeText, if_pos flushed.pending]
    rw [← still] at flushed
    exact finish flushed.texts flushed.pending _

theorem moves_openTag (idle : s.skip = none) (tag : Text) (attrs : List (Text × Option Text)) (raw : Text)
    (void : Bool) : Moves tables maxChars s (s.openTag tables attributes maxChars tag attrs raw void) := by
  have counted : SameTexts s (s.countTopLevel (attributeOf tables attrs "lang")) ∧
      (s.countTopLevel (attributeOf tables attrs "lang")).skip = s.skip := by
    unfold countTopLevel
    split
    · exact ⟨⟨rfl, rfl, rfl⟩, rfl⟩
    · exact ⟨⟨rfl, rfl, rfl⟩, rfl⟩
  unfold openTag
  dsimp only
  generalize s.countTopLevel (attributeOf tables attrs "lang") = t at counted ⊢
  apply counted.1.moves
  have idle' := counted.2.trans idle
  split
  · split
    · split
      · exact moves_keepRaw idle' raw
      · exact moves_blockStart tables maxChars t ..
    · exact moves_beginSkip tables maxChars t ..
  · obtain ⟨slots, _⟩ := sameTexts_attributeSlots tables attributes t raw tag (attributeOf tables attrs "lang")
    apply slots.moves
    split
    · exact moves_append _ (by rintro ⟨⟩)
    · exact moves_blockStart tables maxChars _ ..

/-- Moves one after the other. -/
theorem Moves.trans {tables : Tables} {maxChars : Option Int} (first : Moves tables maxChars s s')
    (second : Moves tables maxChars s' s'') : Moves tables maxChars s s'' := by
  obtain ⟨flushed, texts, passed⟩ := first.texts
  obtain ⟨flushed', texts', passed'⟩ := second.texts
  refine ⟨second.pending, second.ends, flushed ++ flushed', ?_, passed.trans passed'⟩
  rw [waitingTexts, current, if_pos first.pending, Option.toList_none, List.append_nil] at texts'
  rw [texts, texts', List.append_assoc]

theorem moves_startTag (waiting : Waiting s) (tag : Text) (attrs : List (Text × Option Text)) (raw : Text)
    (void : Bool) : Moves tables maxChars s (s.startTag tables attributes maxChars tag attrs raw void) := by
  unfold startTag
  cases skipping : s.skip with
  | none => exact moves_openTag tables maxChars attributes skipping ..
  | some skip =>
    dsimp only
    split
    · obtain ⟨ended, idle⟩ := moves_endSkip tables maxChars waiting skipping
      exact ended.trans (moves_openTag tables maxChars attributes idle ..)
    · split
      · exact moves_keep waiting skipping _ raw
      · split
        · exact moves_keep waiting skipping _ raw
        · exact moves_keep waiting skipping _ raw

theorem moves_endTag (waiting : Waiting s) (tag raw : Text) :
    Moves tables maxChars s (s.endTag tables maxChars tag raw) := by
  unfold endTag
  cases skipping : s.skip with
  | none => exact moves_closeTag tables maxChars s tag raw
  | some skip =>
    dsimp only
    split
    · exact moves_keep waiting skipping _ raw
    · split
      · have kept : Moves tables maxChars s (s.keep { skip with depth := skip.depth - 1 } raw) :=
          moves_keep waiting skipping _ raw
        split
        · have still : Waiting (s.keep { skip with depth := skip.depth - 1 } raw) := by
            rintro _ ⟨⟩
            exact waiting skip skipping
          exact kept.trans (moves_endSkip tables maxChars still rfl).1
        · exact kept
      · split
        · exact moves_keep waiting skipping _ raw
        · obtain ⟨ended, _⟩ := moves_endSkip tables maxChars waiting skipping
          exact ended.trans (moves_closeTag tables maxChars _ tag raw)

/-- An event that holds text leaves the run as it is; any other ends the text run. -/
theorem moves_handle (waiting : Waiting s) (event : ParserEvent)
    (other : event.isText = true → s.skip ≠ none) :
    Moves tables maxChars s (s.handle tables attributes maxChars event) := by
  have kept (raw : Text) (skipping : s.skip ≠ none) :
      Moves tables maxChars s (s.text raw) ∧ Moves tables maxChars s (s.keepRaw raw) := by
    obtain ⟨skip, same⟩ := Option.ne_none_iff_exists'.mp skipping
    rw [Segmenter.text, keepRaw, same]
    exact ⟨moves_keep waiting same skip raw, moves_keep waiting same skip raw⟩
  have opaque' (raw : Text) : Moves tables maxChars s (s.keepRaw raw) := by
    by_cases idle : s.skip = none
    · exact moves_keepRaw idle raw
    · exact (kept raw idle).2
  cases event with
  | starttag | startendtag => exact moves_startTag tables maxChars attributes waiting ..
  | endtag => exact moves_endTag tables maxChars waiting ..
  | data | entityref | charref => exact (kept _ (other rfl)).1
  | comment | decl | unknownDecl | pi => exact opaque' _

/-- What arrives goes on with the text run, or begins one. -/
theorem current_text (idle : s.skip = none) (ends : s.pendingText = [] → Settled s.run) (raw : Text) :
    (s.text raw).run = s.run ∧ (s.text raw).current = some (s.current.getD [] ++ raw) ∧
      (s.text raw).skip = none ∧ (s.text raw).segments = s.segments ∧ (s.text raw).pendingText ≠ [] := by
  unfold Segmenter.text
  rw [idle]
  dsimp only
  by_cases nothing : s.pendingText = []
  · rw [if_neg (not_not.mpr nothing)]
    have fresh : current { s with skip := none, pendingText := [raw] } = some (s.current.getD [] ++ raw) := by
      simp [current, nothing]
    cases found : s.run.getLast? with
    | none => exact ⟨rfl, fresh, rfl, rfl, List.cons_ne_nil _ _⟩
    | some last =>
      dsimp only
      rw [if_neg (ends nothing last found)]
      exact ⟨rfl, fresh, rfl, rfl, List.cons_ne_nil _ _⟩
  · rw [if_pos nothing]
    refine ⟨rfl, ?_, rfl, rfl, by simp⟩
    simp [current, nothing]

end Moves

end Segmenter
end Collector.Translation
