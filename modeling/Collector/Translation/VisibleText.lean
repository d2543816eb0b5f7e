import Collector.Translation.RunMoves
import Collector.Translation.Smuggling

/-!
No visible text escapes translation. A text run is what the parser reports of text in one go, while
no protected or skipped element is open. It waits in the run of the segmenter until a flush brings
it into the text segments; every other event keeps the runs that wait or flushes them.
-/

namespace Collector.Translation
open Collector.Lib

section Runs
variable (tables : Tables) (attributes : List Text) (maxChars : Option Int)

/-- What each event brings: its text, where that arrives outside protected and skipped elements. -/
def arrivals : Segmenter → List ParserEvent → List (Option Text)
  | _, [] => []
  | s, event :: events =>
    (if event.isText ∧ s.skip = none then some event.raw else none) ::
      arrivals (s.handle tables attributes maxChars event) events

/-- Neighbouring texts joined, behind the one that has begun. -/
def joinRuns : Option Text → List (Option Text) → List Text
  | begun, [] => begun.toList
  | begun, none :: rest => begun.toList ++ joinRuns none rest
  | begun, some raw :: rest => joinRuns (some (begun.getD [] ++ raw)) rest

/-- The text runs of a document. -/
def textRuns (events : List ParserEvent) : List Text :=
  joinRuns none (arrivals tables attributes maxChars .start events)

end Runs

section Run
variable (tables : Tables) (attributes : List Text) (maxChars : Option Int)
open Segmenter

/-- Closing brings all texts that wait into the text segments. -/
theorem passed_close {s : Segmenter} (waiting : Waiting s) :
    Passed tables maxChars s.waitingTexts (segmentTexts s.segments)
      (segmentTexts (s.close tables maxChars).segments) := by
  have last {t : Segmenter} (moves : Moves tables maxChars s (t.flush tables maxChars)) :
      Passed tables maxChars s.waitingTexts (segmentTexts s.segments)
        (segmentTexts (t.flush tables maxChars).segments) := by
    obtain ⟨flushed, texts, passed⟩ := moves.texts
    have empty : textsOf (t.flush tables maxChars).run = [] := by
      rw [(moves_flush tables maxChars t).2.1]
      rfl
    rw [empty, List.append_nil] at texts
    rwa [texts]
  unfold close
  dsimp only
  apply last
  cases skipping : s.skip with
  | none => exact (moves_flush tables maxChars s).1
  | some skip =>
    obtain ⟨ended, _⟩ := moves_endSkip tables maxChars waiting skipping
    have marked : Moves tables maxChars s { s.endSkip with unterminated := true } :=
      ended.same ⟨rfl, rfl, rfl⟩ id
    exact marked.trans (moves_flush tables maxChars _).1

theorem isText_handle {event : ParserEvent} (isText : event.isText = true) (s : Segmenter) :
    s.handle tables attributes maxChars event = s.text event.raw := by
  cases event with
  | data | entityref | charref => rfl
  | starttag | startendtag | endtag | comment | decl | unknownDecl | pi => cases isText

/-- The texts of a run of the parser come into the text segments, with those that wait. -/
theorem passed_events (events : List ParserEvent) {s : Segmenter} (sound : Sound (fun _ => True) s)
    (ends : s.skip = none → s.pendingText = [] → Settled s.run) :
    Passed tables maxChars
      (textsOf s.run ++ joinRuns s.current (arrivals tables attributes maxChars s events))
      (segmentTexts s.segments)
      (segmentTexts ((events.foldl (handle tables attributes maxChars) s).close tables maxChars).segments) := by
  induction events generalizing s with
  | nil => exact passed_close tables maxChars sound.waiting
  | cons event events ih =>
    rw [List.foldl_cons, arrivals]
    obtain ⟨_, wrote, _⟩ := (wrote_handle tables maxChars attributes trivial (fun _ => trivial) sound event).wrote
    by_cases arrives : event.isText = true ∧ s.skip = none
    · rw [if_pos arrives, joinRuns]
      obtain ⟨run, current', idle, segments, pending⟩ := current_text arrives.2 (ends arrives.2) event.raw
      have rest := ih wrote.sound
      rw [isText_handle tables attributes maxChars arrives.1] at rest ⊢
      have rest' := rest fun _ nothing => absurd nothing pending
      rwa [run, current', segments] at rest'
    · rw [if_neg arrives, joinRuns]
      have moved := moves_handle tables maxChars attributes sound.waiting event
        fun isText idle => arrives ⟨isText, idle⟩
      obtain ⟨flushed, texts, passed⟩ := moved.texts
      have rest := ih wrote.sound fun idle _ => moved.ends idle
      rw [current, if_pos moved.pending] at rest
      rw [← List.append_assoc, ← waitingTexts, texts, List.append_assoc]
      exact passed.trans rest

/-- A flush leaves the mark of an unterminated element. -/
theorem unterminated_close {s : Segmenter} (skipping : s.skip.isSome = true) :
    (s.close tables maxChars).unterminated = true := by
  unfold close
  dsimp only
  rw [if_pos skipping]
  exact (moves_flush tables maxChars _).2.2.2

end Run

/-- Without a limit every text run that is not blank comes whole, but for whitespace at its ends,
into one text segment; under a limit its sentences do. An element that is still open at the end of
the document is reported. -/
theorem no_text_escapes (tables : Tables) (attributes : List Text) (maxChars : Option Int)
    (events : List ParserEvent) :
    (∃ pieces, Cuts maxChars (textRuns tables attributes maxChars events) pieces ∧
      Lands tables pieces (segmentTexts (segmentEvents tables attributes maxChars events).segments)) ∧
    ((events.foldl (Segmenter.handle tables attributes maxChars) .start).skip.isSome = true →
      (segmentEvents tables attributes maxChars events).unterminatedProtected = true) := by
  refine ⟨?_, fun skipping => unterminated_close tables maxChars skipping⟩
  have sound : Segmenter.Sound (fun _ => True) .start :=
    ⟨⟨rfl, rfl, by rintro _ ⟨⟩⟩, by rintro _ ⟨⟩⟩
  obtain ⟨pieces, parts, cuts, same, lands⟩ := passed_events tables attributes maxChars events sound
    (by rintro _ _ _ ⟨⟩)
  refine ⟨pieces, cuts, ?_⟩
  change Lands tables pieces (segmentTexts (Segmenter.close tables maxChars _).segments)
  rw [same]
  exact lands

namespace Sample

/-- `<p>Eins. Zwei.</p>`. -/
def sentences : List ParserEvent :=
  [.starttag "p".toList [] "<p>".toList, .data "Eins. Zwei.".toList, .endtag "p".toList]

end Sample

/-- Under a limit one text run comes into two segments. -/
theorem sentences_apart : ¬∀ (tables : Tables) (attributes : List Text) (maxChars : Option Int)
    (events : List ParserEvent), Lands tables (textRuns tables attributes maxChars events)
      (segmentTexts (segmentEvents tables attributes maxChars events).segments) := by
  intro whole
  have lands := whole Sample.tables [] (some 5) Sample.sentences
  have runs : textRuns Sample.tables [] (some 5) Sample.sentences = ["Eins. Zwei.".toList] := by
    decide +kernel
  have texts : segmentTexts (segmentEvents Sample.tables [] (some 5) Sample.sentences).segments =
      ["Eins.".toList, "Zwei.".toList] := by decide +kernel
  rw [runs, texts] at lands
  cases lands with
  | skip _ rest => cases rest
  | take _ rest => cases rest

end Collector.Translation
