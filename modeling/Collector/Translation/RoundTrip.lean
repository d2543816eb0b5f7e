import Collector.Translation.SegmentText
import Collector.Translation.TrimmedRuns

/-!
Segmentation keeps the text. A flush hands the run over to the parts, trimmed and in chunks; every
handler of the parser writes its event; and a document whose segments are put back unchanged is
the text of its events.
-/

namespace Collector.Translation
open Collector.Lib
namespace Segmenter

variable {kinds : SegmentKind → Prop} {s s' : Segmenter}

section Emit
variable (tables : Tables)

theorem flatMap_raw_filter (tokens : List Token) :
    (tokens.filter fun token => decide (token.raw ≠ [])).flatMap Token.raw =
      tokens.flatMap Token.raw := by
  induction tokens with
  | nil => rfl
  | cons token tokens ih =>
    by_cases blank : token.raw = []
    · rw [List.filter_cons_of_neg (by simpa using blank), ih, List.flatMap_cons, blank, List.nil_append]
    · rw [List.filter_cons_of_pos (by simpa using blank), List.flatMap_cons, ih, List.flatMap_cons]

theorem trimHead_spec (segments : List Segment) (tokens : List Token) :
    (trimHead tokens).1.flatMap (Part.text segments) ++ (trimHead tokens).2.flatMap Token.raw =
        tokens.flatMap Token.raw ∧
      (trimHead tokens).1.filterMap Part.slot? = [] := by
  unfold trimHead
  split
  · rename_i first rest
    split
    · have whole := List.suffix_iff_eq_append.mp (List.dropWhile_suffix Persistence.isSpace (l := first.raw))
      refine ⟨?_, rfl⟩
      rw [List.flatMap_singleton, List.flatMap_cons, List.flatMap_cons, ← List.append_assoc]
      exact congrArg (· ++ _) whole
    · exact ⟨rfl, rfl⟩
  · exact ⟨rfl, rfl⟩

theorem trimTail_spec (tokens : List Token) :
    (trimTail tokens).1.flatMap Token.raw ++ (trimTail tokens).2 = tokens.flatMap Token.raw := by
  unfold trimTail
  split
  · rename_i last found
    have split := List.dropLast_append_getLast? last found
    split
    · have whole := List.prefix_iff_eq_append.mp (List.rdropWhile_prefix Persistence.isSpace last.raw)
      conv_rhs => rw [← split]
      rw [List.flatMap_append, List.flatMap_append, List.flatMap_singleton, List.flatMap_singleton,
        List.append_assoc]
      exact congrArg (_ ++ ·) whole
    · exact List.append_nil _
  · exact List.append_nil _

/-- Where nothing waits, the text is in the parts. -/
theorem written_of_empty (idle : s.skip = none) (empty : Empty s) :
    s.written = s.parts.flatMap (Part.text s.segments) := by
  simp [written, empty.run, empty.pending, idle]

/-- Raw parts do not depend on the segments. -/
theorem text_of_raws {raws : List Part} (raw : raws.filterMap Part.slot? = [])
    (segments others : List Segment) :
    raws.flatMap (Part.text segments) = raws.flatMap (Part.text others) := by
  apply List.flatMap_congr
  intro part member
  cases part with
  | raw text => rfl
  | slot index =>
    have listed : index ∈ raws.filterMap Part.slot? := List.mem_filterMap.mpr ⟨_, member, rfl⟩
    rw [raw] at listed
    cases listed

/-- The next text segment, behind raw parts. -/
theorem writes_segment (idle : Idle kinds s) (empty : Empty s) {head : List Part}
    (segment : Segment) (raw : head.filterMap Part.slot? = []) (text : kinds .text)
    (index : segment.index = s.segments.length) (kind : segment.kind = .text) :
    Writes kinds s ({ s with segments := s.segments ++ [segment] }.addParts
      (head ++ [Part.slot s.segments.length])) (head.flatMap (Part.text s.segments) ++ segment.html) := by
  have place : (head ++ [Part.slot s.segments.length]).filterMap Part.slot? =
      if segment.kind = .text then [s.segments.length] else [] := by
    rw [if_pos kind, List.filterMap_append, raw]
    rfl
  refine ⟨⟨idle.layout.addSegment index (kind ▸ text) place, idle.idle⟩, ?_⟩
  rw [written_of_empty idle.idle empty]
  generalize after : { s with segments := s.segments ++ [segment] }.addParts
    (head ++ [Part.slot s.segments.length]) = t
  have clear : Empty t := after ▸ ⟨empty.run, empty.pending⟩
  rw [written_of_empty (after ▸ idle.idle) clear, ← after]
  change (s.parts ++ (head ++ [Part.slot s.segments.length])).flatMap
    (Part.text (s.segments ++ [segment])) = _
  rw [List.flatMap_append, List.flatMap_append, idle.layout.text_append,
    text_of_raws raw _ s.segments, List.flatMap_singleton, Part.text, List.getElem?_concat_length]
  rfl

theorem writes_emit (text : kinds .text) (idle : Idle kinds s) (empty : Empty s)
    (tokens : List Token) :
    Writes kinds s (s.emit tables tokens) (tokens.flatMap Token.raw) ∧
      Empty (s.emit tables tokens) := by
  unfold emit
  rw [← flatMap_raw_filter tokens]
  generalize tokens.filter (fun token => decide (token.raw ≠ [])) = tokens
  dsimp only
  split
  · obtain ⟨headText, headSlots⟩ := trimHead_spec s.segments tokens
    generalize trimHead tokens = trimmed at headText headSlots ⊢
    obtain ⟨head, inner⟩ := trimmed
    have tailText := trimTail_spec inner
    generalize trimTail inner = trimmed at tailText ⊢
    obtain ⟨core, tail⟩ := trimmed
    dsimp only at headText headSlots tailText ⊢
    have middle := writes_segment idle empty ⟨s.segments.length, .text, s.runContext.1,
      s.runContext.2, core.filter fun token => decide (token.raw ≠ [])⟩ headSlots text rfl rfl
    rw [Segment.html, flatMap_raw_filter] at middle
    rw [← headText, ← tailText, ← List.append_assoc]
    split
    · rename_i none
      rw [none, List.append_nil]
      exact ⟨middle, ⟨empty.run, empty.pending⟩⟩
    · have last := writes_raw middle.idle ⟨empty.run, empty.pending⟩ tail
      exact ⟨middle.trans last, ⟨empty.run, empty.pending⟩⟩
  · have step := writes_addParts idle empty (slots_rawParts tokens)
    rw [text_rawParts] at step
    exact ⟨step, ⟨empty.run, empty.pending⟩⟩

theorem writes_foldl_emit (text : kinds .text) (idle : Idle kinds s) (empty : Empty s)
    (chunks : List (List Token)) :
    Writes kinds s (chunks.foldl (emit tables) s) (chunks.flatten.flatMap Token.raw) ∧
      Empty (chunks.foldl (emit tables) s) := by
  induction chunks generalizing s with
  | nil => exact ⟨.refl idle, empty⟩
  | cons chunk chunks ih =>
    obtain ⟨first, between⟩ := writes_emit tables text idle empty chunk
    obtain ⟨rest, after⟩ := ih first.idle between
    rw [List.foldl_cons, List.flatten_cons, List.flatMap_append]
    exact ⟨first.trans rest, after⟩

/-- A flush moves the run into the parts. -/
theorem writes_flush (text : kinds .text) (idle : Idle kinds s) (maxChars : Option Int) :
    Writes kinds s (s.flush tables maxChars) [] ∧ Empty (s.flush tables maxChars) := by
  obtain ⟨start, pending⟩ := materializeText_spec idle
  unfold flush
  generalize s.materializeText = t at start pending ⊢
  dsimp only
  by_cases nothing : t.run = []
  · rw [if_pos nothing]
    exact ⟨start, ⟨nothing, pending⟩⟩
  · rw [if_neg nothing]
    have whole := congrArg (List.flatMap Token.raw) (trimRun_append t.run)
    generalize trimRun t.run = pieces at whole ⊢
    obtain ⟨leading, middle, trailing⟩ := pieces
    rw [List.flatMap_append, List.flatMap_append] at whole
    dsimp only at whole ⊢
    have cleared : Idle kinds { t with run := [] } := ⟨start.idle.layout, start.idle.idle⟩
    have first := writes_addParts cleared ⟨rfl, pending⟩ (slots_rawParts leading)
    rw [text_rawParts] at first
    obtain ⟨second, between⟩ := writes_foldl_emit tables text first.idle ⟨rfl, pending⟩
      (chunksOf tables maxChars middle)
    rw [raw_chunksOf] at second
    have third := writes_addParts second.idle between (slots_rawParts trailing)
    rw [text_rawParts] at third
    have moved := (first.trans second).trans third
    refine ⟨⟨moved.idle, ?_⟩, ⟨between.run, between.pending⟩⟩
    have before : s.written = { t with run := [] }.written ++ t.run.flatMap Token.raw := by
      rw [← List.append_nil s.written, ← start.written]
      simp [written, pending, start.idle.idle]
    rw [moved.written, before, ← whole, List.append_assoc, List.append_assoc, List.append_nil]

end Emit
section Tags
variable (tables : Tables) (maxChars : Option Int)

/-- The stack of open elements has no text. -/
theorem writes_pops (idle : Idle kinds s) (empty : Empty s) {t : Segmenter}
    (pops : t = s ∨ ∃ position, t = s.popTo position) : Writes kinds s t [] ∧ Empty t := by
  rcases pops with rfl | ⟨position, rfl⟩
  · exact ⟨.refl idle, empty⟩
  · exact ⟨⟨⟨idle.layout, idle.idle⟩, (List.append_nil _).symm⟩, ⟨empty.run, empty.pending⟩⟩

theorem closeParagraph_pops (s : Segmenter) :
    s.closeParagraph = s ∨ ∃ position, s.closeParagraph = s.popTo position := by
  unfold closeParagraph
  split
  · exact .inr ⟨_, rfl⟩
  · exact .inl rfl

theorem closeImplied_pops (s : Segmenter) (tag : Text) :
    s.closeImplied tag = s ∨ ∃ position, s.closeImplied tag = s.popTo position := by
  unfold closeImplied
  dsimp only
  split
  · split
    · exact .inr ⟨_, rfl⟩
    · exact .inl rfl
  · exact .inl rfl

theorem closeElement_pops (s : Segmenter) (tag : Text) :
    s.closeElement tag = s ∨ ∃ position, s.closeElement tag = s.popTo position := by
  unfold closeElement
  split
  · split
    · exact .inr ⟨_, rfl⟩
    · exact .inl rfl
  · exact .inl rfl

theorem writes_blockStart (text : kinds .text) (idle : Idle kinds s) (tag raw : Text)
    (lang : Option Text) (void : Bool) :
    Writes kinds s (s.blockStart tables maxChars tag raw lang void) raw := by
  obtain ⟨flushed, empty⟩ := writes_flush tables text idle maxChars
  obtain ⟨first, between⟩ := writes_pops flushed.idle empty (closeParagraph_pops _)
  obtain ⟨second, after⟩ := writes_pops first.idle between (closeImplied_pops _ tag)
  have step := ((flushed.trans first).trans second).trans (writes_raw second.idle after raw)
  unfold blockStart
  dsimp only
  split
  · exact step
  · exact ⟨⟨step.idle.layout, step.idle.idle⟩, step.written⟩

theorem writes_closeTag (text : kinds .text) (idle : Idle kinds s) (tag raw : Text) :
    Writes kinds s (s.closeTag tables maxChars tag raw) raw := by
  unfold closeTag
  split
  · exact writes_append idle nofun
  · obtain ⟨flushed, empty⟩ := writes_flush tables text idle maxChars
    have first := flushed.trans (writes_raw flushed.idle empty raw)
    have second := writes_pops first.idle ⟨empty.run, empty.pending⟩ (closeElement_pops _ tag)
    have step := first.trans second.1
    rwa [List.append_nil] at step

variable (attributes : List Text)

/-- Attribute segments have no part of their own. -/
theorem writes_attributeSegment (idle : Idle kinds s) (allowed : kinds .attribute)
    {segment : Segment} (index : segment.index = s.segments.length)
    (kind : segment.kind = .attribute) :
    Writes kinds s { s with segments := s.segments ++ [segment] } [] := by
  have place : [].filterMap Part.slot? =
      if segment.kind = .text then [s.segments.length] else [] := by
    rw [kind]
    rfl
  have layout := idle.layout.addSegment index (kind ▸ allowed) place
  rw [List.append_nil] at layout
  refine ⟨⟨layout, idle.idle⟩, ?_⟩
  simp only [written, idle.layout.text_append, List.append_nil]

theorem writes_attributeSlot (raw tag : Text) (lang : Option Text)
    (allowed : attributes ≠ [] → kinds .attribute)
    {state : List Text × List (Nat × Nat × Nat) × Segmenter} (item : Text × Nat × Nat)
    (writes : Writes kinds s state.2.2 []) (none : attributes = [] → state.2.1 = []) :
    Writes kinds s (attributeSlot tables attributes raw tag lang state item).2.2 [] ∧
      (attributes = [] → (attributeSlot tables attributes raw tag lang state item).2.1 = []) := by
  obtain ⟨seen, slots, t⟩ := state
  obtain ⟨name, start, stop⟩ := item
  unfold attributeSlot
  dsimp only at writes none ⊢
  split
  · exact ⟨writes, none⟩
  · split
    · exact ⟨writes, none⟩
    · rename_i translated
      have listed : name ∈ attributes := by
        by_contra absent
        exact translated (.inl absent)
      have some' : attributes ≠ [] := List.ne_nil_of_mem listed
      constructor
      · apply writes.trans (v := [])
        exact writes_attributeSegment writes.idle (allowed some') rfl rfl
      · exact fun empty => absurd empty some'

/-- Without attributes to translate, a tag stays as it is. -/
theorem writes_attributeSlots (idle : Idle kinds s) (allowed : attributes ≠ [] → kinds .attribute)
    (raw tag : Text) (lang : Option Text) :
    Writes kinds s (s.attributeSlots tables attributes raw tag lang).2 [] ∧
      (attributes = [] → (s.attributeSlots tables attributes raw tag lang).1 = raw) := by
  have run : ∀ (items : List (Text × Nat × Nat)) (state), Writes kinds s state.2.2 [] →
      (attributes = [] → state.2.1 = []) →
      Writes kinds s (items.foldl (attributeSlot tables attributes raw tag lang) state).2.2 [] ∧
        (attributes = [] →
          (items.foldl (attributeSlot tables attributes raw tag lang) state).2.1 = []) := by
    intro items
    induction items with
    | nil => exact fun state writes none => ⟨writes, none⟩
    | cons item items ih =>
      intro state writes none
      obtain ⟨step, still⟩ :=
        writes_attributeSlot tables attributes raw tag lang allowed item writes none
      exact ih _ step still
  obtain ⟨writes, none⟩ := run (attributeValues tables raw) ([], [], s) (.refl idle) fun _ => rfl
  unfold attributeSlots
  refine ⟨writes, fun empty => ?_⟩
  dsimp only
  rw [none empty]
  rfl

theorem writes_countTopLevel (idle : Idle kinds s) (lang : Option Text) :
    Writes kinds s (s.countTopLevel lang) [] := by
  unfold countTopLevel
  split
  · exact ⟨⟨idle.layout, idle.idle⟩, (List.append_nil _).symm⟩
  · exact .refl idle

theorem wrote_beginSkip (text : kinds .text) (idle : Idle kinds s) (tag raw : Text)
    (inline : Bool) : Wrote kinds s (s.beginSkip tables maxChars tag raw inline) raw := by
  have start : Writes kinds s (if inline then s else s.flush tables maxChars) [] ∧
      (inline = false → (if inline then s else s.flush tables maxChars).run = [] ∧
        (if inline then s else s.flush tables maxChars).pendingText = []) := by
    cases inline
    · obtain ⟨flushed, empty⟩ := writes_flush tables text idle maxChars
      exact ⟨flushed, fun _ => ⟨empty.run, empty.pending⟩⟩
    · refine ⟨.refl idle, fun outside => ?_⟩
      cases outside
  unfold beginSkip
  generalize (if inline then s else s.flush tables maxChars) = t at start ⊢
  obtain ⟨first, empty⟩ := start
  obtain ⟨second, pending⟩ := materializeText_spec first.idle
  refine ⟨⟨second.idle.layout, ?_⟩, ?_⟩
  · intro skip begun
    cases begun
    refine ⟨pending, fun aside => ?_⟩
    obtain ⟨run, nothing⟩ := empty aside
    dsimp only
    rw [materializeText, if_pos nothing, run]
  · have moved := (first.trans second).written
    simp only [written, second.idle.idle, Option.map_none, Option.getD_none, List.append_nil]
      at moved
    simp [written, moved]

/-- An event that writes its text, apart from the attributes that are translated. -/
structure WroteTag (kinds : SegmentKind → Prop) (attributes : List Text) (s s' : Segmenter)
    (raw : Text) : Prop where
  wrote : ∃ text, Wrote kinds s s' text ∧ (attributes = [] → text = raw)

variable {attributes} in
theorem Wrote.tag {raw : Text} (wrote : Wrote kinds s s' raw) : WroteTag kinds attributes s s' raw :=
  ⟨raw, wrote, fun _ => rfl⟩

theorem wrote_openTag (text : kinds .text) (allowed : attributes ≠ [] → kinds .attribute)
    (idle : Idle kinds s) (tag : Text) (attrs : List (Text × Option Text)) (raw : Text)
    (void : Bool) :
    WroteTag kinds attributes s (s.openTag tables attributes maxChars tag attrs raw void) raw := by
  have start := writes_countTopLevel idle (attributeOf tables attrs "lang")
  unfold openTag
  dsimp only
  split
  · apply Wrote.tag
    apply start.then
    split
    · split
      · exact (writes_keepRaw start.idle raw).wrote
      · exact (writes_blockStart tables maxChars text start.idle ..).wrote
    · exact wrote_beginSkip tables maxChars text start.idle ..
  · obtain ⟨slots, same⟩ := writes_attributeSlots tables attributes start.idle allowed raw tag
      (attributeOf tables attrs "lang")
    refine ⟨_, (start.trans slots).then ?_, same⟩
    split
    · apply Writes.wrote
      apply writes_append slots.idle
      exact nofun
    · exact (writes_blockStart tables maxChars text slots.idle ..).wrote

theorem wrote_startTag (text : kinds .text) (allowed : attributes ≠ [] → kinds .attribute)
    (sound : Sound kinds s) (tag : Text) (attrs : List (Text × Option Text)) (raw : Text)
    (void : Bool) :
    WroteTag kinds attributes s (s.startTag tables attributes maxChars tag attrs raw void) raw := by
  unfold startTag
  cases skipping : s.skip with
  | none => exact wrote_openTag tables maxChars attributes text allowed ⟨sound.layout, skipping⟩ ..
  | some skip =>
    dsimp only
    split
    · have ended := writes_endSkip sound skipping
      obtain ⟨opened, wrote, same⟩ := wrote_openTag tables maxChars attributes text allowed
        ended.idle tag attrs raw void
      exact ⟨opened, ended.then wrote, same⟩
    · apply Wrote.tag
      split
      · exact wrote_keep sound skipping ⟨rfl, rfl⟩ raw
      · split
        · exact wrote_keep sound skipping (by exact ⟨rfl, rfl⟩) raw
        · exact wrote_keep sound skipping (by exact ⟨rfl, rfl⟩) raw

theorem wrote_endTag (text : kinds .text) (sound : Sound kinds s) (tag raw : Text) :
    Wrote kinds s (s.endTag tables maxChars tag raw) raw := by
  unfold endTag
  cases skipping : s.skip with
  | none => exact (writes_closeTag tables maxChars text ⟨sound.layout, skipping⟩ tag raw).wrote
  | some skip =>
    dsimp only
    split
    · exact wrote_keep sound skipping (by exact ⟨rfl, rfl⟩) raw
    · split
      · have kept : Wrote kinds s (s.keep { skip with depth := skip.depth - 1 } raw) raw :=
          wrote_keep sound skipping (by exact ⟨rfl, rfl⟩) raw
        split
        · have ended := (writes_endSkip kept.sound rfl).wrote
          exact ⟨ended.sound, by rw [ended.written, kept.written, List.append_nil]⟩
        · exact kept
      · split
        · exact wrote_keep sound skipping ⟨rfl, rfl⟩ raw
        · have ended := writes_endSkip sound skipping
          exact ended.then (writes_closeTag tables maxChars text ended.idle tag raw).wrote

/-- Every handler writes its event. -/
theorem wrote_handle (text : kinds .text) (allowed : attributes ≠ [] → kinds .attribute)
    (sound : Sound kinds s) (event : ParserEvent) :
    WroteTag kinds attributes s (s.handle tables attributes maxChars event) event.raw := by
  cases event with
  | starttag | startendtag => exact wrote_startTag tables maxChars attributes text allowed sound ..
  | endtag => exact (wrote_endTag tables maxChars text sound ..).tag
  | data | entityref | charref => exact (wrote_text sound _).tag
  | comment | decl | unknownDecl | pi => exact (wrote_keepRaw sound _).tag

/-- A run of the parser writes its events. -/
theorem wrote_events (text : kinds .text) (allowed : attributes ≠ [] → kinds .attribute)
    (sound : Sound kinds s) (events : List ParserEvent) :
    WroteTag kinds attributes s (events.foldl (handle tables attributes maxChars) s)
      (events.flatMap ParserEvent.raw) := by
  induction events generalizing s with
  | nil => exact ⟨[], ⟨sound, (List.append_nil _).symm⟩, fun _ => rfl⟩
  | cons event events ih =>
    obtain ⟨now, wrote, first⟩ := wrote_handle tables maxChars attributes text allowed sound event
    obtain ⟨later, rest, second⟩ := ih wrote.sound
    refine ⟨now ++ later, ⟨rest.sound, ?_⟩, fun none => ?_⟩
    · rw [List.foldl_cons, rest.written, wrote.written, List.append_assoc]
    · rw [first none, second none, List.flatMap_cons]

theorem writes_close (text : kinds .text) (sound : Sound kinds s) :
    Writes kinds s (s.close tables maxChars) [] ∧ Empty (s.close tables maxChars) := by
  have ended : Writes kinds s
      (if s.skip.isSome then { s.endSkip with unterminated := true } else s) [] := by
    cases skipping : s.skip with
    | none => exact .refl ⟨sound.layout, skipping⟩
    | some skip =>
      have step := writes_endSkip sound skipping
      exact ⟨⟨step.idle.layout, step.idle.idle⟩, step.written⟩
  obtain ⟨flushed, empty⟩ := writes_flush tables text ended.idle maxChars
  exact ⟨ended.trans flushed, empty⟩

end Tags
end Segmenter

/-- A document is laid out, and holds its events. -/
theorem segmentEvents_layout (kinds : SegmentKind → Prop) (tables : Tables)
    (attributes : List Text) (maxChars : Option Int) (events : List ParserEvent)
    (text : kinds .text) (allowed : attributes ≠ [] → kinds .attribute) :
    let document := segmentEvents tables attributes maxChars events
    Layout kinds document.parts document.segments ∧ (attributes = [] →
      document.parts.flatMap (Part.text document.segments) = events.flatMap ParserEvent.raw) := by
  have start : Segmenter.Sound kinds Segmenter.start :=
    ⟨⟨rfl, rfl, fun _ none => absurd none List.not_mem_nil⟩, fun _ none => nomatch none⟩
  obtain ⟨run, wrote, same⟩ :=
    Segmenter.wrote_events tables maxChars attributes text allowed start events
  obtain ⟨closed, empty⟩ := Segmenter.writes_close tables maxChars text wrote.sound
  refine ⟨closed.idle.layout, fun none => ?_⟩
  have held := Segmenter.written_of_empty closed.idle.idle empty
  rw [closed.written, wrote.written, List.append_nil, same none] at held
  exact held.symm

theorem mapM_some {α β : Type} {f : α → Option β} {g : α → β} {items : List α}
    (each : ∀ item ∈ items, f item = some (g item)) : items.mapM f = some (items.map g) := by
  induction items with
  | nil => rfl
  | cons item items ih =>
    rw [List.forall_mem_cons] at each
    rw [List.mapM_cons, each.1, ih each.2]
    rfl

/-- Putting every segment back in its place gives the text of the parts. -/
theorem reassemble_own {document : SegmentedDocument} (tables : Tables)
    (layout : Layout (· = .text) document.parts document.segments) :
    reassemble tables document (document.segments.map Segment.html) =
      some (document.parts.flatMap (Part.text document.segments)) := by
  have pieces : document.parts.mapM (Part.fill (document.segments.map Segment.html)) =
      some (document.parts.map (Part.text document.segments)) := by
    apply mapM_some
    intro part member
    cases part with
    | raw text => rfl
    | slot index =>
      have here := List.getElem?_eq_getElem (layout.slot_lt member)
      simp [Part.fill, Part.text, here]
  have plain : document.segments.any (fun segment => decide (segment.kind = .attribute)) = false := by
    rw [List.any_eq_false]
    intro segment member
    simp [layout.allowed segment member]
  unfold reassemble
  rw [pieces, List.length_map, List.flatMap_def]
  simp [plain]

/-- Segmentation without translated attributes, for every sequence of events and every limit: the
segments put back unchanged give the text of the events, segments and slots are numbered in their
order, and both tags of every matched pair of a run stay in one chunk of what is left of the run
between its unmatched edges. -/
theorem segmentation_keeps_everything (tables : Tables) (maxChars : Option Int)
    (events : List ParserEvent) (run : List Token) :
    (let document := segmentEvents tables [] maxChars events
    reassemble tables document (document.segments.map Segment.html) =
        some (events.flatMap ParserEvent.raw) ∧
      document.segments.map Segment.index = List.range document.segments.length ∧
      document.parts.filterMap Part.slot? = List.range document.segments.length) ∧
    ∀ pair ∈ matchedTagPairs run, ∃ inner,
      shifted (Segmenter.trimRun run).1.length inner = pair ∧
      Together (indexedChunks tables maxChars (Segmenter.trimRun run).2.1) inner := by
  constructor
  · obtain ⟨layout, whole⟩ := segmentEvents_layout (· = .text) tables [] maxChars events rfl
      fun some' => absurd rfl some'
    refine ⟨(reassemble_own tables layout).trans (congrArg some (whole rfl)), layout.numbered, ?_⟩
    have texts : (segmentEvents tables [] maxChars events).segments.filter
        (fun segment => decide (segment.kind = .text)) =
        (segmentEvents tables [] maxChars events).segments := by
      rw [List.filter_eq_self]
      exact fun segment member => decide_eq_true (layout.allowed segment member)
    rw [layout.slots, texts, layout.numbered]
  · intro pair member
    rw [matchedTagPairs_trimRun] at member
    obtain ⟨inner, found, same⟩ := List.mem_map.mp member
    exact ⟨inner, same, together_chunks tables maxChars _ inner found⟩

end Collector.Translation
