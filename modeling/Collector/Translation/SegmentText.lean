import Collector.Translation.Segmenter

/-!
Where the text of a document is while it is segmented. At every moment the parts with their
segments, the run, the pending text and the buffer of a skipped element, in this order, hold the
text of the events so far; every handler writes the text of its event at the end and moves the
rest without changing it.
-/

namespace Collector.Translation
open Collector.Lib

def Part.text (segments : List Segment) : Part → Text
  | .raw text => text
  | .slot index => (segments[index]?.map Segment.html).getD []

/-- Segments are numbered in their order, the text segments have one slot each in that order, and
their kinds are among the given ones. -/
structure Layout (kinds : SegmentKind → Prop) (parts : List Part) (segments : List Segment) : Prop
    where
  numbered : segments.map Segment.index = List.range segments.length
  slots : parts.filterMap Part.slot? =
    (segments.filter fun segment => decide (segment.kind = .text)).map Segment.index
  allowed : ∀ segment ∈ segments, kinds segment.kind

namespace Layout
variable {kinds : SegmentKind → Prop} {parts : List Part} {segments : List Segment}

theorem slot_lt (layout : Layout kinds parts segments) {index : Nat}
    (member : Part.slot index ∈ parts) : index < segments.length := by
  have placed : index ∈ parts.filterMap Part.slot? := List.mem_filterMap.mpr ⟨_, member, rfl⟩
  rw [layout.slots] at placed
  obtain ⟨segment, kept, same⟩ := List.mem_map.mp placed
  have listed : segment.index ∈ segments.map Segment.index :=
    List.mem_map_of_mem (List.mem_filter.mp kept).1
  rw [layout.numbered, List.mem_range] at listed
  omega

/-- More segments leave the text of the parts as it is. -/
theorem text_append (layout : Layout kinds parts segments) (more : List Segment) :
    parts.flatMap (Part.text (segments ++ more)) = parts.flatMap (Part.text segments) := by
  apply List.flatMap_congr
  intro part member
  cases part with
  | raw text => rfl
  | slot index => rw [Part.text, List.getElem?_append_left (layout.slot_lt member), ← Part.text]

theorem addRaw (layout : Layout kinds parts segments) {raws : List Part}
    (raw : raws.filterMap Part.slot? = []) : Layout kinds (parts ++ raws) segments := by
  refine ⟨layout.numbered, ?_, layout.allowed⟩
  rw [List.filterMap_append, raw, List.append_nil, layout.slots]

/-- A segment and what its kind puts into the parts. -/
theorem addSegment (layout : Layout kinds parts segments) {segment : Segment} {more : List Part}
    (next : segment.index = segments.length) (allowed : kinds segment.kind)
    (place : more.filterMap Part.slot? =
      if segment.kind = .text then [segments.length] else []) :
    Layout kinds (parts ++ more) (segments ++ [segment]) := by
  constructor
  · rw [List.map_append, layout.numbered, List.length_append, List.length_singleton,
      List.range_succ, List.map_singleton, next]
  · rw [List.filterMap_append, layout.slots, place, List.filter_append, List.map_append]
    by_cases isText : segment.kind = .text
    · simp [isText, next]
    · simp [isText]
  · intro other member
    rcases List.mem_append.mp member with old | new
    · exact layout.allowed other old
    · exact List.mem_singleton.mp new ▸ allowed

end Layout

namespace Segmenter

/-- The text of the events so far. -/
def written (s : Segmenter) : Text :=
  s.parts.flatMap (Part.text s.segments) ++ s.run.flatMap Token.raw ++ s.pendingText.flatten ++
    (s.skip.map fun skip => skip.buffer.flatten).getD []

/-- No element is being skipped. -/
structure Idle (kinds : SegmentKind → Prop) (s : Segmenter) : Prop where
  layout : Layout kinds s.parts s.segments
  idle : s.skip = none

/-- While an element is skipped, no text is pending, and the run is empty unless the element goes
there. -/
structure Sound (kinds : SegmentKind → Prop) (s : Segmenter) : Prop where
  layout : Layout kinds s.parts s.segments
  waiting : ∀ skip ∈ s.skip, s.pendingText = [] ∧ (skip.toRun = false → s.run = [])

/-- A move between idle states that writes a text. -/
structure Writes (kinds : SegmentKind → Prop) (s s' : Segmenter) (raw : Text) : Prop where
  idle : Idle kinds s'
  written : s'.written = s.written ++ raw

/-- A move that writes a text. -/
structure Wrote (kinds : SegmentKind → Prop) (s s' : Segmenter) (raw : Text) : Prop where
  sound : Sound kinds s'
  written : s'.written = s.written ++ raw

variable {kinds : SegmentKind → Prop} {s s' s'' : Segmenter} {u v : Text}

theorem Writes.trans (first : Writes kinds s s' u) (second : Writes kinds s' s'' v) :
    Writes kinds s s'' (u ++ v) :=
  ⟨second.idle, by rw [second.written, first.written, List.append_assoc]⟩

theorem Writes.refl (idle : Idle kinds s) : Writes kinds s s [] := ⟨idle, (List.append_nil _).symm⟩

theorem Writes.wrote (writes : Writes kinds s s' u) : Wrote kinds s s' u :=
  ⟨⟨writes.idle.layout, fun skip member => by rw [writes.idle.idle] at member; cases member⟩,
    writes.written⟩

theorem Writes.then (first : Writes kinds s s' u) (second : Wrote kinds s' s'' v) :
    Wrote kinds s s'' (u ++ v) :=
  ⟨second.sound, by rw [second.written, first.written, List.append_assoc]⟩

/-- Nothing waits in the run or in the pending text. -/
structure Empty (s : Segmenter) : Prop where
  run : s.run = []
  pending : s.pendingText = []

theorem writes_push (idle : Idle kinds s) (pending : s.pendingText = []) (token : Token) :
    Writes kinds s (s.push token) token.raw := by
  refine ⟨⟨idle.layout, idle.idle⟩, ?_⟩
  simp [written, push, pending, idle.idle]

theorem materializeText_spec (idle : Idle kinds s) :
    Writes kinds s s.materializeText [] ∧ s.materializeText.pendingText = [] := by
  unfold materializeText
  split
  · rename_i pending
    exact ⟨.refl idle, pending⟩
  · refine ⟨⟨⟨idle.layout, idle.idle⟩, ?_⟩, rfl⟩
    simp [written, push, idle.idle]

theorem writes_append (idle : Idle kinds s) {token : Token} (markup : token.kind ≠ .text) :
    Writes kinds s (s.append token) token.raw := by
  obtain ⟨materialized, pending⟩ := materializeText_spec idle
  rw [append, if_neg markup]
  exact materialized.trans (writes_push materialized.idle pending token)

theorem writes_addParts (idle : Idle kinds s) (empty : Empty s) {raws : List Part}
    (raw : raws.filterMap Part.slot? = []) :
    Writes kinds s (s.addParts raws) (raws.flatMap (Part.text s.segments)) := by
  refine ⟨⟨idle.layout.addRaw raw, idle.idle⟩, ?_⟩
  simp [written, addParts, empty.run, empty.pending, idle.idle]

theorem writes_raw (idle : Idle kinds s) (empty : Empty s) (raw : Text) :
    Writes kinds s (s.addParts [.raw raw]) raw := by
  have none : [Part.raw raw].filterMap Part.slot? = [] := rfl
  have step := writes_addParts idle empty none
  rwa [List.flatMap_singleton] at step

theorem slots_rawParts (tokens : List Token) : (rawParts tokens).filterMap Part.slot? = [] := by
  simp [rawParts, Part.slot?]

theorem text_rawParts (segments : List Segment) (tokens : List Token) :
    (rawParts tokens).flatMap (Part.text segments) = tokens.flatMap Token.raw := by
  simp [rawParts, List.flatMap_map, Part.text]

theorem writes_endSkip {skip : Skip} (sound : Sound kinds s) (skipping : s.skip = some skip) :
    Writes kinds s s.endSkip [] := by
  obtain ⟨pending, run⟩ := sound.waiting skip skipping
  have start : Idle kinds { s with skip := none } := ⟨sound.layout, rfl⟩
  have before : { s with skip := none }.written ++ skip.buffer.flatten = s.written ++ [] := by
    simp [written, skipping]
  rw [endSkip, skipping]
  dsimp only
  split
  · have step : Writes kinds { s with skip := none } ({ s with skip := none }.append
        ⟨.protectedBlock, skip.buffer.flatten, [], false⟩) skip.buffer.flatten :=
      writes_append start nofun
    exact ⟨step.idle, step.written.trans before⟩
  · rename_i aside
    have empty : Empty { s with skip := none } := ⟨run (by simpa using aside), pending⟩
    have step := writes_raw start empty skip.buffer.flatten
    exact ⟨step.idle, step.written.trans before⟩

theorem wrote_keep {skip next : Skip} (sound : Sound kinds s) (skipping : s.skip = some skip)
    (same : next.buffer = skip.buffer ∧ next.toRun = skip.toRun) (raw : Text) :
    Wrote kinds s (s.keep next raw) raw := by
  obtain ⟨pending, run⟩ := sound.waiting skip skipping
  constructor
  · refine ⟨sound.layout, ?_⟩
    rintro _ ⟨⟩
    exact ⟨pending, fun aside => run (same.2 ▸ aside)⟩
  · simp [written, keep, skipping, same.1]

theorem wrote_text (sound : Sound kinds s) (raw : Text) : Wrote kinds s (s.text raw) raw := by
  unfold text
  cases skipping : s.skip with
  | some skip => exact wrote_keep sound skipping ⟨rfl, rfl⟩ raw
  | none =>
    have idle : Idle kinds s := ⟨sound.layout, skipping⟩
    apply Writes.wrote
    dsimp only
    by_cases pending : s.pendingText = []
    · rw [if_neg (not_not.mpr pending)]
      cases last : s.run.getLast? with
      | none =>
        refine ⟨⟨idle.layout, rfl⟩, ?_⟩
        simp [written, pending, skipping]
      | some token =>
        have split := List.dropLast_append_getLast? token last
        dsimp only
        split
        · refine ⟨⟨idle.layout, rfl⟩, ?_⟩
          conv_rhs => rw [written, ← split]
          simp [written, pending, skipping]
        · refine ⟨⟨idle.layout, rfl⟩, ?_⟩
          simp [written, pending, skipping]
    · rw [if_pos pending]
      refine ⟨⟨idle.layout, rfl⟩, ?_⟩
      simp [written, skipping]

theorem writes_keepRaw (idle : Idle kinds s) (raw : Text) : Writes kinds s (s.keepRaw raw) raw := by
  rw [keepRaw, idle.idle]
  dsimp only
  split
  · exact writes_append idle nofun
  · rename_i nothing
    have empty : Empty s := ⟨by tauto, by tauto⟩
    exact writes_raw idle empty raw

theorem wrote_keepRaw (sound : Sound kinds s) (raw : Text) : Wrote kinds s (s.keepRaw raw) raw := by
  cases skipping : s.skip with
  | some skip =>
    rw [keepRaw, skipping]
    exact wrote_keep sound skipping ⟨rfl, rfl⟩ raw
  | none => exact (writes_keepRaw ⟨sound.layout, skipping⟩ raw).wrote

end Segmenter
end Collector.Translation
