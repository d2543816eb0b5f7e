import Collector.Translation.Text

/-!
Segments of an HTML text: the tokens of one block, raw as the source has them, and the pairing of
inline tags within it.
-/

namespace Collector.Translation
open Collector.Lib
open Collector.Persistence (isSpace)

inductive TokenKind where
  | text
  | tag
  /-- `"protected"`. -/
  | protectedBlock
  deriving DecidableEq

structure Token where
  kind : TokenKind
  raw : Text
  name : Text := []
  closing : Bool := false
  deriving DecidableEq

inductive SegmentKind where
  | text
  | attribute
  deriving DecidableEq

structure Segment where
  index : Nat
  kind : SegmentKind
  block : Text
  lang : Option Text
  tokens : List Token
  deriving DecidableEq

def Segment.html (segment : Segment) : Text := segment.tokens.flatMap Token.raw

/-- `VOID_TAGS`. -/
def voidTags : List Text :=
  ["area", "base", "br", "col", "embed", "hr", "img", "input", "link", "meta", "param", "source",
    "track", "wbr"].map String.toList

/-- The visible text, for the detection of its language. -/
def Segment.text (tables : Tables) (segment : Segment) : Text :=
  segment.tokens.flatMap fun token =>
    if token.kind = .text then unescape tables token.raw
    else if token.kind = .protectedBlock ∨ token.name = "br".toList then [' ']
    else []

/-- The open tags, innermost first, and the pairs found so far. -/
structure Pairing where
  stack : List (Nat × Text)
  pairs : List (Nat × Nat)

/-- One token and its index. -/
def Pairing.next (pairing : Pairing) (item : Token × Nat) : Pairing :=
  let (token, index) := item
  if token.kind ≠ .tag ∨ token.name ∈ voidTags then pairing
  else if token.closing = false then { pairing with stack := (index, token.name) :: pairing.stack }
  else
    match pairing.stack with
    | (opened, name) :: stack =>
      if name = token.name then ⟨stack, pairing.pairs ++ [(opened, index)]⟩ else pairing
    | [] => pairing

def matchedTagPairs (tokens : List Token) : List (Nat × Nat) :=
  (tokens.zipIdx.foldl Pairing.next ⟨[], []⟩).pairs

/-!
Splitting a run of tokens that is longer than the provider takes. A cut is made only behind a
sentence and outside the matched tags of the run, so no pair of tags is separated. Every token
keeps its index in the run until the chunks are made.
-/

/-- The end of the text, or the line break that ends it: `$`. -/
def atEnd : Regex :=
  .alt (.notAhead (.one fun _ => true)) (.ahead true (.seq (.oneOf ['\n'])
    (.notAhead (.one fun _ => true))))

def sentenceMarks : List Char := ['.', '!', '?', '…']

/-- `_SENTENCE_END`: `(?<=[.!?…])\s+`. -/
def sentenceEnd : Regex :=
  .seq (.behind fun before => before.any fun c => decide (c ∈ sentenceMarks)) (.plus (.one isSpace))

/-- `_SENTENCE_TAIL`: `[.!?…]["'»”’)]*$`. -/
def sentenceTail : Regex :=
  .all [.oneOf sentenceMarks, .star (.oneOf "\"'»”’)".toList), atEnd]

/-- The pieces of a text from one position to the next. -/
def cutAt (text : Text) : Nat → List Nat → List Text
  | position, [] => [text.drop position]
  | position, start :: starts => slice text position start :: cutAt text start starts

/-- `"A. B. C"` gives `["A.", " B.", " C"]`. -/
def splitKeepingWhitespace (raw : Text) : List Text :=
  (cutAt raw 0 ((sentenceEnd.spans raw).map Prod.fst)).filter fun piece => decide (piece ≠ [])

section Chunks
variable (tables : Tables)

/-- The visible characters of the text tokens. -/
def plainLength (tokens : List Token) : Nat :=
  ((tokens.filter fun token => decide (token.kind = .text)).map fun token =>
    (unescape tables token.raw).length).sum

/-- A token and its index in the run. -/
abbrev Indexed := Token × Nat

/-- `depth_change`. -/
def depthChange (pairs : List (Nat × Nat)) (index : Nat) : Int :=
  if index ∈ pairs.map Prod.snd then -1 else if index ∈ pairs.map Prod.fst then 1 else 0

/-- The sentences of one text token, behind the unit that is being filled: the units they close
and the unit left open. -/
def sentenceUnits (index : Nat) : List Indexed → List Text → List (List Indexed) × List Indexed
  | unit, [] => ([], unit)
  | unit, sentence :: sentences =>
    let unit := unit ++ [(⟨.text, sentence, [], false⟩, index)]
    if (sentenceTail.hits sentence).isEmpty then sentenceUnits index unit sentences
    else
      let (units, last) := sentenceUnits index [] sentences
      (unit :: units, last)

/-- The pieces behind which the run may be cut. -/
def unitsOf (pairs : List (Nat × Nat)) :
    Int → List Indexed → List Indexed → List (List Indexed)
  | _, unit, [] => [unit]
  | depth, unit, (token, index) :: rest =>
    let depth := depth + depthChange pairs index
    if token.kind ≠ .text ∨ depth ≠ 0 then unitsOf pairs depth (unit ++ [(token, index)]) rest
    else
      let (units, last) := sentenceUnits index unit (splitKeepingWhitespace token.raw)
      units ++ unitsOf pairs depth last rest

/-- One more unit: behind the last chunk if both fit, else a chunk of its own. -/
def addUnit (limit : Int) (chunks : List (List Indexed)) (unit : List Indexed) :
    List (List Indexed) :=
  match chunks.getLast? with
  | some last =>
    if plainLength tables (last.map Prod.fst) + plainLength tables (unit.map Prod.fst) ≤ limit then
      chunks.dropLast ++ [last ++ unit]
    else if unit = [] then chunks
    else chunks ++ [unit]
  | none => if unit = [] then chunks else chunks ++ [unit]

/-- `_chunks` with the indexes of the tokens. -/
def indexedChunks (maxChars : Option Int) (tokens : List Token) : List (List Indexed) :=
  match maxChars with
  | none => [tokens.zipIdx]
  | some limit =>
    if plainLength tables tokens ≤ limit then [tokens.zipIdx]
    else (unitsOf (matchedTagPairs tokens) 0 [] tokens.zipIdx).foldl (addUnit tables limit) []

/-- `_chunks`. -/
def chunksOf (maxChars : Option Int) (tokens : List Token) : List (List Token) :=
  (indexedChunks tables maxChars tokens).map fun chunk => chunk.map Prod.fst

end Chunks
end Collector.Translation
