import Collector.Contracts.Canonical
import Collector.Lib.Dict
import Collector.Translation.Text

/-!
The translation memory: its key is a digest of the normalised masked text, the languages, the
provider and the version of the glossary. What the placeholders of the text stand for is not part of
the key. An entry is written once and never changes.
-/

namespace Collector.Translation
open Collector.Lib
open Collector.Contracts (CanonicalEncodingError canonicalJsonBytes)
open Collector.Persistence (isSpace utf8)

section Keys
variable (tables : Tables)

/-- `_JOINERS`: the characters of category `Cf` that change the meaning of a text. -/
def joiners : List Char := ['\u200d', '\u200c']

/-- `_replacement`. -/
def replacement (c : Char) : Text :=
  if tables.control c then [' ']
  else if tables.format c ∧ c ∉ joiners then []
  else [c]

/-- `\s+`. -/
def whitespaceRe : Regex := .plus (.one isSpace)

def normalizeText (text : Text) : Text :=
  strip (whitespaceRe.sub (fun _ => [' ']) ((tables.nfc text).flatMap (replacement tables)))

def normalizedSegmentHash (maskedText : Text) : String :=
  tables.sha256Hex (utf8 (.ofList (normalizeText tables maskedText)))

/-- The payload of a key holds no floats. -/
def noFloats : FloatText Empty where
  text := nofun
  read _ := none
  read_text := nofun
  literal := nofun

def translationMemoryKey (sourceLanguage targetLanguage segmentHash provider modelVersion
    glossaryVersion : String) : Except CanonicalEncodingError String := do
  let bytes ← canonicalJsonBytes noFloats (fun s => .ofList (tables.nfc s.toList)) (.mapping [
    ("source_language", .str sourceLanguage),
    ("target_language", .str targetLanguage),
    ("normalized_segment_hash", .str segmentHash),
    ("provider", .mapping [("name", .str provider), ("model_version", .str modelVersion)]),
    ("glossary_version", .str glossaryVersion)])
  return tables.sha256Hex bytes

end Keys

/-- A translation of one masked text, with its placeholders. -/
structure MemoryEntry where
  key : String
  sourceLanguage : String
  targetLanguage : String
  segmentHash : String
  provider : String
  modelVersion : String
  glossaryVersion : String
  translatedText : Text
  deriving DecidableEq

abbrev TranslationMemory := Table MemoryEntry.key

namespace TranslationMemory

/-- The text under a key, as `get_many` finds it. -/
def text? (memory : TranslationMemory) (key : String) : Option Text :=
  (memory.find? key).map MemoryEntry.translatedText

/-- The first write of a key wins. -/
def putMany (memory : TranslationMemory) (entries : List MemoryEntry) : TranslationMemory :=
  memory.insertMany entries

end TranslationMemory

end Collector.Translation
