import Collector.Fetch.Urls
import Collector.Lib.Script
import Mathlib.Logic.Function.Basic

/-!
Reading a body: the chunks of the network go through the decoders of `Content-Encoding`, and for a
sitemap that turns out to be a gzip file once more through a decoder that only counts. The network,
zlib and brotli answer questions. A decoder step gives at most `CHUNK_LIMIT` bytes, so that is in
the type of what it gives; nothing else is assumed about what comes out of it.

A generator of the source is a function of its consumer here: what it yields it hands over at once.
-/

namespace Collector.Fetch
open Collector.Lib Collector.Persistence

/-- `CHUNK_LIMIT`. -/
def chunkLimit : Nat := 64 * 1024

/-- `GZIP_MAGIC`. -/
def gzipMagic : Bytes := [0x1f, 0x8b]

/-- `zlib.MAX_WBITS`. -/
def maxWbits : Int := 15

structure BodyLimits where
  maxBytes : Int
  maxRatio : Int
  ratioMinBytes : Int
  sitemap : Bool := false
  deriving DecidableEq, Repr

structure Body where
  data : Bytes
  receivedBytes : Nat
  decodedBytes : Nat
  storedCompressed : Bool
  deriving DecidableEq, Repr

/-- What one step of a decoder gives. -/
abbrev Piece := { data : Bytes // data.length ≤ chunkLimit }

/-- Where a decoder stands: in the chain of `Content-Encoding`, or behind it. -/
inductive Layer where
  | outer (position : Nat)
  | inner
  deriving DecidableEq, Repr

/-- A `decompressobj`; each gzip member has one of its own. -/
structure ZlibObject where
  layer : Layer
  member : Nat
  wbits : Int
  deriving DecidableEq, Repr

/-- `_obj_wbits` is the `wbits` of the object. -/
inductive Decoder where
  | zlib (wbits : Option Int) (object : Option ZlibObject)
  | brotli
  deriving DecidableEq, Repr

/-- What `decompress` leaves: its output and the attributes of the object. -/
structure Inflated where
  out : Piece
  unconsumedTail : Bytes
  unusedData : Bytes
  eof : Bool
  deriving DecidableEq, Repr

/-- What `flush` leaves. -/
structure Flushed where
  out : Piece
  eof : Bool
  deriving DecidableEq, Repr

/-- `zlib` is an error of `flush`, `raised` whatever the network or `on_chunk` raises, and `cut` the
end of the part of the run that is looked at. -/
inductive BodyRaise where
  | bodyLimit (code message : String)
  | unsupportedEncoding (name : String)
  | zlib (message : String)
  | raised
  | cut
  deriving DecidableEq, Repr

inductive BodyQuestion where
  | chunk
  | onChunk
  | decompress (object : ZlibObject) (data : Bytes)
  | flush (object : ZlibObject)
  | process (layer : Layer) (data : Bytes)
  | canAcceptMoreData (layer : Layer)
  | isFinished (layer : Layer)
  deriving DecidableEq, Repr

/-- Errors of zlib and brotli come with their texts. -/
@[reducible] def BodyAnswer : BodyQuestion → Type
  | .chunk => Except BodyRaise (Option Bytes)
  | .onChunk => Except BodyRaise Unit
  | .decompress _ _ => Except String Inflated
  | .flush _ => Except String Flushed
  | .process _ _ => Except String Piece
  | .canAcceptMoreData _ => Bool
  | .isFinished _ => Bool

/-- The variables of `read_body`, with the decoders its objects hold. -/
structure BodyState where
  decoders : Layer → Decoder
  decided : Bool
  head : Bytes := []
  inner : List Layer := []
  parts : List Bytes := []
  received : Nat := 0
  decoded : Nat := 0

abbrev BodyAct := Act BodyQuestion BodyAnswer BodyState BodyRaise

/-- The bytes in `parts`. -/
def BodyState.held (s : BodyState) : Nat := (s.parts.map List.length).sum

def BodyState.put (layer : Layer) (decoder : Decoder) (s : BodyState) : BodyState :=
  { s with decoders := Function.update s.decoders layer decoder }

/-- `_DECODERS`. -/
def decoderNamed (name : String) : Option Decoder :=
  if name = "gzip" ∨ name = "x-gzip" then some (.zlib (some (16 + maxWbits)) none)
  else if name = "deflate" then some (.zlib none none)
  else if name = "br" then some .brotli
  else none

/-- `decoders_for`. -/
def decodersFor (lower : String → String) (contentEncoding : Option String) :
    Except BodyRaise (List Decoder) :=
  let names := (splitText ',' (contentEncoding.getD "")).map fun name => lower (strip name)
  (names.filter fun name => name ≠ "" ∧ name ≠ "identity").reverse.mapM fun name =>
    match decoderNamed name with
    | none => .error (.unsupportedEncoding name)
    | some decoder => .ok decoder

/-- The two bytes of a zlib header. -/
def hasHeader : Bytes → Bool
  | first :: second :: _ =>
    decide (first &&& 0x0f = 8) && decide ((first.toNat * 256 + second.toNat) % 31 = 0)
  | _ => false

def contentDecodingError (message : String) : BodyRaise := .bodyLimit "content_decoding_error" message

/-- `if out: yield out`. -/
def yieldSome (emit : Bytes → BodyAct Unit) (out : Bytes) : BodyAct Unit :=
  if out = [] then pure () else emit out

/-- The loop of `ZlibDecoder.feed`. -/
def inflate (emit : Bytes → BodyAct Unit) : Nat → ZlibObject → Option Int → Bytes → BodyAct Unit
  | 0, _, _, _ => .raise .cut
  | fuel + 1, object, wbits, data => do
    let answer : Except String Inflated ← .ask (BodyQuestion.decompress object data)
    match answer with
    | .error text => .raise (contentDecodingError ("zlib: " ++ text))
    | .ok result =>
      yieldSome emit result.out
      if result.eof ∧ result.unusedData ≠ [] then
        let next : ZlibObject := { object with member := object.member + 1 }
        .modify (BodyState.put object.layer (.zlib wbits (some next)))
        inflate emit fuel next wbits result.unusedData
      else if result.unconsumedTail = [] ∧ result.out.val.length < chunkLimit then pure ()
      else inflate emit fuel object wbits result.unconsumedTail

/-- The loop of `BrotliDecoder.feed`. -/
def drain (emit : Bytes → BodyAct Unit) (layer : Layer) : Nat → BodyAct Unit
  | 0 => .raise .cut
  | fuel + 1 => do
    let accepts : Bool ← .ask (BodyQuestion.canAcceptMoreData layer)
    if accepts then pure ()
    else
      let answer : Except String Piece ← .ask (BodyQuestion.process layer [])
      match answer with
      | .error text => .raise (contentDecodingError ("brotli: " ++ text))
      | .ok out =>
        yieldSome emit out
        drain emit layer fuel

/-- `feed`. -/
def feed (fuel : Nat) (layer : Layer) (data : Bytes) (emit : Bytes → BodyAct Unit) : BodyAct Unit := do
  let s ← .get
  match s.decoders layer with
  | .zlib wbits (some object) => inflate emit fuel object wbits data
  | .zlib wbits none =>
    if data = [] then pure ()
    else
      let chosen := wbits.getD (if hasHeader data then maxWbits else -maxWbits)
      let object : ZlibObject := ⟨layer, 0, chosen⟩
      .modify (BodyState.put layer (.zlib (some chosen) (some object)))
      inflate emit fuel object (some chosen) data
  | .brotli =>
    let answer : Except String Piece ← .ask (BodyQuestion.process layer data)
    match answer with
    | .error text => .raise (contentDecodingError ("brotli: " ++ text))
    | .ok out =>
      yieldSome emit out
      drain emit layer fuel

/-- `finish`. -/
def finish (layer : Layer) (emit : Bytes → BodyAct Unit) : BodyAct Unit := do
  let s ← .get
  match s.decoders layer with
  | .zlib _ none => .raise (contentDecodingError "порожній compressed stream")
  | .zlib _ (some object) =>
    let answer : Except String Flushed ← .ask (BodyQuestion.flush object)
    match answer with
    | .error text => .raise (.zlib text)
    | .ok result =>
      yieldSome emit result.out
      if result.eof then pure () else .raise (contentDecodingError "усічений zlib/gzip stream")
  | .brotli =>
    let finished : Bool ← .ask (BodyQuestion.isFinished layer)
    if finished then pure () else .raise (contentDecodingError "усічений brotli stream")

/-- `_pipe`. -/
def pipe (fuel : Nat) (emit : Bytes → BodyAct Unit) : List Layer → Bytes → BodyAct Unit
  | [], data => emit data
  | head :: rest, data => feed fuel head data (pipe fuel emit rest)

/-- `_finish`. -/
def finishAll (fuel : Nat) (emit : Bytes → BodyAct Unit) : List Layer → BodyAct Unit
  | [] => pure ()
  | head :: rest => do
    finish head (pipe fuel emit rest)
    finishAll fuel emit rest

section
variable (limits : BodyLimits)

/-- `count`. -/
def count (size : Nat) : BodyAct Unit := do
  .modify fun s => { s with decoded := s.decoded + size }
  let s ← .get
  if limits.maxBytes < s.decoded then
    .raise (.bodyLimit "body_too_large"
      ("body перевищив " ++ toString limits.maxBytes ++ " байт після розпакування"))
  else if limits.ratioMinBytes < s.decoded ∧ limits.maxRatio * s.received < s.decoded then
    .raise (.bodyLimit "decompression_bomb" ("ratio розпакування > " ++ toString limits.maxRatio))
  else pure ()

/-- `consume`. -/
def consume (fuel : Nat) (entity : Bytes) : BodyAct Unit := do
  .modify fun s => { s with parts := s.parts ++ [entity] }
  let s ← .get
  if s.inner = [] then count limits entity.length
  else pipe fuel (fun piece => count limits piece.length) s.inner entity

/-- `consume_entity`. -/
def consumeEntity (fuel : Nat) (entity : Bytes) : BodyAct Unit := do
  let s ← .get
  if s.decided then consume limits fuel entity
  else
    let head := s.head ++ entity
    if head.length < gzipMagic.length then .modify fun s => { s with head }
    else if gzipMagic.isPrefixOf head then
      .modify fun s => { s.put .inner (.zlib (some (16 + maxWbits)) none) with
        decided := true, inner := s.inner ++ [.inner], head := [] }
      consume limits fuel head
    else
      .modify fun s => { s with decided := true, head := [] }
      consume limits fuel head

/-- The body of `async for chunk in raw`. -/
def takeChunk (fuel : Nat) (chain : List Layer) (chunk : Bytes) : BodyAct Unit := do
  .modify fun s => { s with received := s.received + chunk.length }
  let s ← .get
  if limits.maxBytes < s.received then
    .raise (.bodyLimit "body_too_large" ("отримано понад " ++ toString limits.maxBytes ++ " байт"))
  else pipe fuel (consumeEntity limits fuel) chain chunk

/-- `if on_chunk is not None: on_chunk()`. -/
def watch (onChunk : Bool) : BodyAct Unit :=
  if onChunk then do .ofExcept (← .ask .onChunk) else pure ()

/-- `async for chunk in raw`. -/
def readChunks (onChunk : Bool) (chain : List Layer) (fuel : Nat) : Nat → BodyAct Unit
  | 0 => .raise .cut
  | left + 1 => do
    let answer : Except BodyRaise (Option Bytes) ← .ask BodyQuestion.chunk
    match answer with
    | .error e => .raise e
    | .ok none => pure ()
    | .ok (some chunk) =>
      watch onChunk
      takeChunk limits fuel chain chunk
      readChunks onChunk chain fuel left

/-- `if head: consume(head)`. -/
def consumeHead (fuel : Nat) : BodyAct Unit := do
  let s ← .get
  if s.head = [] then pure () else consume limits fuel s.head

/-- `read_body` from the chain on. -/
def readDecoded (onChunk : Bool) (fuel : Nat) (chain : List Layer) : BodyAct Body := do
  readChunks limits onChunk chain fuel fuel
  finishAll fuel (consumeEntity limits fuel) chain
  consumeHead limits fuel
  let s ← .get
  finishAll fuel (fun piece => count limits piece.length) s.inner
  let s ← .get
  return ⟨s.parts.flatten, s.received, s.decoded, decide (s.inner ≠ [])⟩

/-- The chain of the decoders, by their positions. -/
def layersOf (chain : List Decoder) : List Layer := (List.range chain.length).map .outer

/-- `read_body` starts with this. -/
def BodyState.start (chain : List Decoder) : BodyState where
  decoders
    | .outer position => chain.getD position .brotli
    | .inner => .brotli
  decided := !limits.sitemap

/-- `read_body`, of which `fuel` rounds of each loop are looked at. -/
def readBody (lower : String → String) (contentEncoding : Option String) (onChunk : Bool) (fuel : Nat) :
    Script BodyQuestion BodyAnswer (Except BodyRaise Body × BodyState) :=
  match decodersFor lower contentEncoding with
  | .error e => .done (.error e, .start limits [])
  | .ok chain => readDecoded limits onChunk fuel (layersOf chain) (.start limits chain)

end

end Collector.Fetch
