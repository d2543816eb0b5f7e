import Collector.Translation.Segments

/-!
The segmenter. It takes the events of the HTML parser one by one and lays the text out as parts
and segments: text in the middle of a block waits in the current run, adjacent pieces of text in
`pendingText`, and a protected or skipped element in the buffer of `skip` until it is closed.
-/

namespace Collector.Translation
open Collector.Lib
open Collector.Persistence (isSpace)

/-- `INLINE_TAGS`. -/
def inlineTags : List Text :=
  ["a", "abbr", "acronym", "b", "bdi", "bdo", "big", "br", "button", "cite", "data", "del", "dfn",
    "em", "font", "i", "img", "ins", "label", "mark", "nobr", "output", "q", "rp", "rt", "ruby", "s",
    "small", "span", "strike", "strong", "sub", "sup", "time", "tt", "u", "wbr"].map String.toList

/-- `PROTECTED_INLINE_TAGS`. -/
def protectedInlineTags : List Text := ["code", "kbd", "samp", "var"].map String.toList

/-- `SKIPPED_TAGS`. -/
def skippedTags : List Text :=
  ["head", "math", "noscript", "pre", "script", "style", "svg", "template", "textarea"].map
    String.toList

/-- `_IMPLIED_END`: what a tag closes, and where the search for it stops. -/
def impliedEnd (tag : Text) : List Text × List Text :=
  let names (words : List String) : List Text := words.map String.toList
  match String.ofList tag with
  | "li" => (names ["li"], names ["ul", "ol", "menu"])
  | "dt" | "dd" => (names ["dt", "dd"], names ["dl"])
  | "td" | "th" => (names ["td", "th"], names ["tr", "table"])
  | "tr" => (names ["tr", "td", "th"], names ["table", "thead", "tbody", "tfoot"])
  | _ => ([], [])

/-- `_IMPLIED_END_SCAN`. -/
def impliedEndScan : Nat := 256

/-- A piece of the document: raw HTML, or the place of a segment. -/
inductive Part where
  | raw (text : Text)
  | slot (index : Nat)
  deriving DecidableEq

def Part.slot? : Part → Option Nat
  | .raw _ => none
  | .slot index => some index

/-- Tokens as parts of the document. -/
def rawParts (tokens : List Token) : List Part := tokens.map fun token => .raw token.raw

structure SegmentedDocument where
  parts : List Part
  segments : List Segment
  rootLang : Option Text
  unterminatedProtected : Bool

/-- What the parser reports; `raw` is `get_starttag_text()`. -/
inductive ParserEvent where
  | starttag (tag : Text) (attrs : List (Text × Option Text)) (raw : Text)
  | startendtag (tag : Text) (attrs : List (Text × Option Text)) (raw : Text)
  | endtag (tag : Text)
  | data (content : Text)
  | entityref (name : Text)
  | charref (name : Text)
  | comment (content : Text)
  | decl (content : Text)
  | unknownDecl (content : Text)
  | pi (content : Text)

/-- The text of an event as the handlers write it. -/
def ParserEvent.raw : ParserEvent → Text
  | .starttag tag _ raw => if raw = [] then '<' :: tag ++ ['>'] else raw
  | .startendtag tag _ raw => if raw = [] then '<' :: tag ++ "/>".toList else raw
  | .endtag tag => "</".toList ++ tag ++ ['>']
  | .data content => content
  | .entityref name => '&' :: name ++ [';']
  | .charref name => "&#".toList ++ name ++ [';']
  | .comment content => "<!--".toList ++ content ++ "-->".toList
  | .decl content => "<!".toList ++ content ++ ['>']
  | .unknownDecl content => "<![".toList ++ content ++
      if "CDATA[".toList <+: content then "]]>".toList else "]>".toList
  | .pi content => "<?".toList ++ content ++ ['>']

/-- `_Skip`; the counters are lists of names with repetition. -/
structure Skip where
  name : Text
  toRun : Bool
  buffer : List Text
  depth : Nat
  inner : List Text
  closers : List Text

structure Segmenter where
  parts : List Part
  segments : List Segment
  stack : List (Text × Option Text)
  opened : List Text
  run : List Token
  runContext : Text × Option Text
  skip : Option Skip
  rootLang : Option Text
  topLevel : Nat
  unterminated : Bool
  pendingText : List Text

def Segmenter.start : Segmenter :=
  ⟨[], [], [], [], [], ([], none), none, none, 0, false, []⟩

namespace Segmenter

/-- `_context`. -/
def context (s : Segmenter) : Text × Option Text := s.stack.getLastD ([], none)

/-- A token at the end of the run. -/
def push (s : Segmenter) (token : Token) : Segmenter :=
  { s with
    run := s.run ++ [token]
    runContext := if s.run = [] then s.context else s.runContext }

/-- `_materialize_text`. -/
def materializeText (s : Segmenter) : Segmenter :=
  if s.pendingText = [] then s
  else { s with pendingText := [] }.push ⟨.text, s.pendingText.flatten, [], false⟩

/-- `_append`. -/
def append (s : Segmenter) (token : Token) : Segmenter :=
  (if token.kind = .text then s else s.materializeText).push token

def addParts (s : Segmenter) (parts : List Part) : Segmenter := { s with parts := s.parts ++ parts }

/-- `_end_skip`. -/
def endSkip (s : Segmenter) : Segmenter :=
  match s.skip with
  | none => s
  | some skip =>
    if skip.toRun then
      { s with skip := none }.append ⟨.protectedBlock, skip.buffer.flatten, [], false⟩
    else { s with skip := none }.addParts [.raw skip.buffer.flatten]

/-- A piece in the buffer of the element that is skipped. -/
def keep (s : Segmenter) (skip : Skip) (raw : Text) : Segmenter :=
  { s with skip := some { skip with buffer := skip.buffer ++ [raw] } }

/-- `_text`. -/
def text (s : Segmenter) (raw : Text) : Segmenter :=
  match s.skip with
  | some skip => s.keep skip raw
  | none =>
    if s.pendingText ≠ [] then { s with pendingText := s.pendingText ++ [raw] }
    else
      match s.run.getLast? with
      | some last =>
        if last.kind = .text then { s with run := s.run.dropLast, pendingText := [last.raw, raw] }
        else { s with pendingText := [raw] }
      | none => { s with pendingText := [raw] }

/-- `_opaque`. -/
def keepRaw (s : Segmenter) (raw : Text) : Segmenter :=
  match s.skip with
  | some skip => s.keep skip raw
  | none =>
    if s.run ≠ [] ∨ s.pendingText ≠ [] then s.append ⟨.protectedBlock, raw, [], false⟩
    else s.addParts [.raw raw]

/-- `_pop_to`. -/
def popTo (s : Segmenter) (position : Nat) : Segmenter :=
  { s with
    opened := (s.stack.drop position).foldl (fun opened entry => opened.erase entry.1) s.opened
    stack := s.stack.take position }

section Emit
variable (tables : Tables)

/-- The whitespace before the first token, if that is text, and the tokens without it. -/
def trimHead (tokens : List Token) : List Part × List Token :=
  match tokens with
  | first :: rest =>
    if first.kind = .text then
      let stripped := lstrip first.raw
      ([.raw (first.raw.take (first.raw.length - stripped.length))],
        ⟨.text, stripped, [], false⟩ :: rest)
    else ([], tokens)
  | [] => ([], tokens)

/-- The tokens without the whitespace behind the last one, if that is text, and that whitespace. -/
def trimTail (tokens : List Token) : List Token × Text :=
  match tokens.getLast? with
  | some last =>
    if last.kind = .text then
      let stripped := rstrip last.raw
      (tokens.dropLast ++ [⟨.text, stripped, [], false⟩], last.raw.drop stripped.length)
    else (tokens, [])
  | none => (tokens, [])

/-- Text that is not blank once its references are replaced. -/
def visible (token : Token) : Bool :=
  decide (token.kind = .text) && decide (strip (unescape tables token.raw) ≠ [])

/-- `_emit`. -/
def emit (s : Segmenter) (tokens : List Token) : Segmenter :=
  let tokens := tokens.filter fun token => decide (token.raw ≠ [])
  if tokens.any (visible tables) then
    let (head, tokens) := trimHead tokens
    let (tokens, tail) := trimTail tokens
    let index := s.segments.length
    let segment : Segment := ⟨index, .text, s.runContext.1, s.runContext.2,
      tokens.filter fun token => decide (token.raw ≠ [])⟩
    let s := { s with segments := s.segments ++ [segment] }.addParts (head ++ [Part.slot index])
    if tail = [] then s else s.addParts [.raw tail]
  else s.addParts (rawParts tokens)

/-- The unmatched tags at the beginning of a run, the run between, and those at its end. -/
def trimRun (run : List Token) : List Token × List Token × List Token :=
  let matched := (matchedTagPairs run).flatMap fun (opened, closed) => [opened, closed]
  let loose (item : Indexed) : Bool := decide (item.1.kind = .tag) && decide (item.2 ∉ matched)
  let leading := run.zipIdx.takeWhile loose
  let rest := run.zipIdx.dropWhile loose
  (leading.map Prod.fst, (rest.rdropWhile loose).map Prod.fst, (rest.rtakeWhile loose).map Prod.fst)

/-- `_flush`. -/
def flush (maxChars : Option Int) (s : Segmenter) : Segmenter :=
  let s := s.materializeText
  if s.run = [] then s
  else
    let (leading, middle, trailing) := trimRun s.run
    let s := { s with run := [] }.addParts (rawParts leading)
    let s := (chunksOf tables maxChars middle).foldl (emit tables) s
    s.addParts (rawParts trailing)

end Emit

section Attributes
variable (tables : Tables)

/-- `_TAG_NAME_RE`. -/
def tagNameRe : Regex :=
  .seq (.oneOf ['<']) (.plus (.one fun c => !isSpace c && decide (c ∉ ['/', '>'])))

/-- `_ATTR_NAME_RE`. -/
def attrNameRe : Regex :=
  .seq (.star (.one fun c => isSpace c || decide (c = '/')))
    (.group (.plus (.one fun c => !isSpace c && decide (c ∉ ['/', '>', '=']))))

/-- `_ATTR_VALUE_RE`. -/
def attrValueRe : Regex :=
  .all [.star (.one isSpace), .text ['='], .star (.one isSpace), .group (.anyOf [
    .all [.text ['"'], .star (.noneOf ['"']), .text ['"']],
    .all [.text ['\''], .star (.noneOf ['\'']), .text ['\'']],
    .star (.one fun c => !isSpace c && decide (c ≠ '>'))])]

/-- The loop of `_attribute_values`; every round reads a name, so the length of the tag bounds it. -/
def attributeValuesFrom (raw : Text) : Nat → Nat → List (Text × Nat × Nat)
  | 0, _ => []
  | fuel + 1, position =>
    match attrNameRe.first none (raw.drop position) with
    | none => []
    | some name =>
      let position := position + name.text.length
      match attrValueRe.first none (raw.drop position) with
      | none => attributeValuesFrom raw fuel position
      | some value =>
        let stop := position + value.text.length
        (tables.lower (name.groups.headD []), stop - (value.groups.headD []).length, stop) ::
          attributeValuesFrom raw fuel stop

/-- `_attribute_values`: names with the beginning and the end of their values. -/
def attributeValues (raw : Text) : List (Text × Nat × Nat) :=
  match tagNameRe.first none raw with
  | none => []
  | some name => attributeValuesFrom tables raw raw.length name.text.length

/-- A value without its quotes. -/
def unquoted (value : Text) : Text :=
  if value.head?.any fun c => decide (c = '"' ∨ c = '\'') then (value.drop 1).dropLast else value

/-- `_ATTR_SLOT`. -/
def attrSlot (index : Nat) : Text := '\ufdd0' :: Nat.toDigits 10 index ++ ['\ufdd1']

/-- `_ATTR_SLOT_RE`. -/
def attrSlotRe : Regex :=
  .all [.text ['\ufdd0'], .group (.plus (.one tables.isDigit)), .text ['\ufdd1']]

end Attributes

section Tags
variable (tables : Tables) (attributes : List Text) (maxChars : Option Int)

/-- `_open_ancestors`: the block stack and the inline tags of the run that are still open. -/
def openAncestors (s : Segmenter) : List Text :=
  let next (inline : List Text) (token : Token) : List Text :=
    if token.kind ≠ .tag ∨ token.name ∈ voidTags then inline
    else if token.closing = false then token.name :: inline
    else if inline.head? = some token.name then inline.tail
    else inline
  s.stack.map Prod.fst ++ s.run.foldl next []

/-- The position in the stack of the element that a tag closes implicitly. -/
def impliedPosition (closes boundary : List Text) (stack : List (Text × Option Text)) : Option Nat :=
  let inner := (stack.reverse.take impliedEndScan).takeWhile fun entry => decide (entry.1 ∉ boundary)
  (inner.findIdx? fun entry => decide (entry.1 ∈ closes)).map fun index => stack.length - 1 - index

/-- A block ends the paragraph before it. -/
def closeParagraph (s : Segmenter) : Segmenter :=
  if s.stack.getLast?.any fun entry => decide (entry.1 = "p".toList) then
    s.popTo (s.stack.length - 1)
  else s

/-- The search of `_block_start` for the element that a tag closes implicitly. -/
def closeImplied (s : Segmenter) (tag : Text) : Segmenter :=
  let (closes, boundary) := impliedEnd tag
  if closes.any fun name => decide (name ∈ s.opened) then
    match impliedPosition closes boundary s.stack with
    | some position => s.popTo position
    | none => s
  else s

/-- `_block_start`. -/
def blockStart (s : Segmenter) (tag raw : Text) (lang : Option Text) (void : Bool) : Segmenter :=
  let s := ((s.flush tables maxChars).closeParagraph.closeImplied tag).addParts [.raw raw]
  if void then s
  else
    let inherited := s.stack.getLast?.bind Prod.snd
    { s with
      stack := s.stack ++ [(tag, if lang.getD [] = [] then inherited else lang)]
      opened := tag :: s.opened }

/-- One attribute of `_attribute_slots`: the names seen, the places of the slots, and the segments. -/
def attributeSlot (raw tag : Text) (lang : Option Text)
    (state : List Text × List (Nat × Nat × Nat) × Segmenter) (item : Text × Nat × Nat) :
    List Text × List (Nat × Nat × Nat) × Segmenter :=
  let (seen, slots, s) := state
  let (name, start, stop) := item
  let valueRaw := unquoted (slice raw start stop)
  if name ∈ seen then state
  else if name ∉ attributes ∨ strip (unescape tables valueRaw) = [] then (name :: seen, slots, s)
  else
    let index := s.segments.length
    let contextLang := if lang.getD [] = [] then s.context.2 else lang
    (name :: seen, slots ++ [(start, stop, index)], { s with
      segments := s.segments ++
        [⟨index, .attribute, tag, contextLang, [⟨.text, valueRaw, [], false⟩]⟩] })

/-- `_attribute_slots`: the values that are translated become segments, with slots in their
places. -/
def attributeSlots (s : Segmenter) (raw tag : Text) (lang : Option Text) : Text × Segmenter :=
  let (_, slots, s) :=
    (attributeValues tables raw).foldl (attributeSlot tables attributes raw tag lang) ([], [], s)
  (slots.foldr (fun (start, stop, index) raw =>
    raw.take start ++ '"' :: attrSlot index ++ '"' :: raw.drop stop) raw, s)

/-- The value of an attribute; of several, the last one. -/
def attributeOf (attrs : List (Text × Option Text)) (name : String) : Option Text :=
  (attrs.reverse.find? fun attr => decide (tables.lower attr.1 = name.toList)).bind Prod.snd

/-- The language of the document is the `lang` of its only top-level element. -/
def countTopLevel (s : Segmenter) (lang : Option Text) : Segmenter :=
  if s.stack = [] then
    { s with
      topLevel := s.topLevel + 1
      rootLang := if s.topLevel + 1 = 1 then lang else none }
  else s

/-- The beginning of a protected or skipped element. -/
def beginSkip (s : Segmenter) (tag raw : Text) (inline : Bool) : Segmenter :=
  let s := (if inline then s else s.flush tables maxChars).materializeText
  { s with skip := some ⟨tag, inline, [raw], 1, [], s.openAncestors⟩ }

/-- `_start` outside protected and skipped elements. -/
def openTag (s : Segmenter) (tag : Text) (attrs : List (Text × Option Text)) (raw : Text)
    (void : Bool) : Segmenter :=
  let lang := attributeOf tables attrs "lang"
  let s := s.countTopLevel lang
  let noTranslate := tables.lower ((attributeOf tables attrs "translate").getD []) = "no".toList
  let inline := tag ∈ inlineTags ∨ tag ∈ protectedInlineTags
  if tag ∈ skippedTags ∨ tag ∈ protectedInlineTags ∨ noTranslate then
    if void then
      if inline then s.keepRaw raw else s.blockStart tables maxChars tag raw lang true
    else s.beginSkip tables maxChars tag raw inline
  else
    let (raw, s) := s.attributeSlots tables attributes raw tag lang
    if tag ∈ inlineTags then s.append ⟨.tag, raw, tag, false⟩
    else s.blockStart tables maxChars tag raw lang void

/-- `_start`. -/
def startTag (s : Segmenter) (tag : Text) (attrs : List (Text × Option Text)) (raw : Text)
    (void : Bool) : Segmenter :=
  match s.skip with
  | none => s.openTag tables attributes maxChars tag attrs raw void
  | some skip =>
    -- A block cannot stand inside `code` or an inline `translate="no"`: the element ends here.
    if skip.toRun ∧ tag ∉ inlineTags ∧ tag ∉ protectedInlineTags then
      s.endSkip.openTag tables attributes maxChars tag attrs raw void
    else if void then s.keep skip raw
    else if tag = skip.name then s.keep { skip with depth := skip.depth + 1 } raw
    else s.keep { skip with inner := tag :: skip.inner } raw

/-- The innermost element of a name, with everything in it, leaves the stack. -/
def closeElement (s : Segmenter) (tag : Text) : Segmenter :=
  if tag ∈ s.opened then
    match s.stack.reverse.findIdx? fun entry => decide (entry.1 = tag) with
    | some index => s.popTo (s.stack.length - 1 - index)
    | none => s
  else s

/-- `handle_endtag` outside protected and skipped elements. -/
def closeTag (s : Segmenter) (tag raw : Text) : Segmenter :=
  if tag ∈ inlineTags then s.append ⟨.tag, raw, tag, true⟩
  else ((s.flush tables maxChars).addParts [.raw raw]).closeElement tag

/-- `handle_endtag`. -/
def endTag (s : Segmenter) (tag raw : Text) : Segmenter :=
  match s.skip with
  | none => s.closeTag tables maxChars tag raw
  | some skip =>
    if tag ∈ skip.inner then s.keep { skip with inner := skip.inner.erase tag } raw
    else if tag = skip.name then
      let s := s.keep { skip with depth := skip.depth - 1 } raw
      if skip.depth - 1 = 0 then s.endSkip else s
    else if tag ∉ skip.closers then s.keep skip raw
    -- An ancestor of the element is closed, so the element ends here.
    else s.endSkip.closeTag tables maxChars tag raw

def handle (s : Segmenter) (event : ParserEvent) : Segmenter :=
  match event with
  | .starttag tag attrs _ =>
    s.startTag tables attributes maxChars tag attrs event.raw (decide (tag ∈ voidTags))
  | .startendtag tag attrs _ => s.startTag tables attributes maxChars tag attrs event.raw true
  | .endtag tag => s.endTag tables maxChars tag event.raw
  | .data _ | .entityref _ | .charref _ => s.text event.raw
  | .comment _ | .decl _ | .unknownDecl _ | .pi _ => s.keepRaw event.raw

def close (s : Segmenter) : Segmenter :=
  let s := if s.skip.isSome then { s.endSkip with unterminated := true } else s
  s.flush tables maxChars

def document (s : Segmenter) : SegmentedDocument :=
  ⟨s.parts, s.segments, s.rootLang, s.unterminated⟩

end Tags
end Segmenter

/-- The document of the events of one parse. -/
def segmentEvents (tables : Tables) (attributes : List Text) (maxChars : Option Int)
    (events : List ParserEvent) : SegmentedDocument :=
  let s := events.foldl (Segmenter.handle tables attributes maxChars) Segmenter.start
  (s.close tables maxChars).document

/-- `segment_html` over the events that the parser finds in a source. -/
def segmentHtml (tables : Tables) (parse : Text → List ParserEvent) (maxChars : Option Int)
    (translateAttributes : List Text) (source : Text) : SegmentedDocument :=
  let attributes := translateAttributes.map tables.lower
  let source :=
    if attributes = [] then source
    else source.map fun c => if c = '\ufdd0' ∨ c = '\ufdd1' then '\ufffd' else c
  segmentEvents tables attributes maxChars (parse source)

/-- The replacement of an attribute slot. -/
def fillSlot (tables : Tables) (document : SegmentedDocument) (translations : List Text)
    (hit : Regex.Hit) : Text :=
  let index := tables.int (hit.groups.headD [])
  match document.segments[index]? with
  | some segment =>
    if segment.kind = .attribute then escape true (translations.getD index []) else ['\ufffd']
  | none => ['\ufffd']

/-- A part of the document with the translations in their places. -/
def Part.fill (translations : List Text) : Part → Option Text
  | .raw text => some text
  | .slot index => translations[index]?

/-- `reassemble`; `none` stands for the exceptions about a list of the wrong length and a slot
outside it. -/
def reassemble (tables : Tables) (document : SegmentedDocument) (translations : List Text) :
    Option Text := do
  guard (translations.length = document.segments.length)
  let pieces ← document.parts.mapM (Part.fill translations)
  let joined := pieces.flatten
  if document.segments.any fun segment => decide (segment.kind = .attribute) then
    return (Segmenter.attrSlotRe tables).sub (fillSlot tables document translations) joined
  else return joined

end Collector.Translation
