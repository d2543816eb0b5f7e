import Collector.Lib.Machine
import Collector.Persistence.Core

/-!
URLs as the fetcher reads them. Taking a URL apart and putting it together, IDNA and the Unicode
case tables are what the Python libraries make of them; everything here is built on top of those.
-/

namespace Collector.Fetch
open Collector.Lib Collector.Persistence

/-- `urllib.parse.SplitResult`. -/
structure SplitResult where
  scheme : String
  netloc : String
  path : String
  query : String
  fragment : String
  deriving DecidableEq, Repr

/-- An error is the text of a `ValueError`, or of an `IDNAError`. A port is read only when it is
asked for. -/
structure UrlTools where
  urlsplit : String → Except String SplitResult
  hostname : SplitResult → Option String
  port : SplitResult → Except String (Option Nat)
  username : SplitResult → Option String
  password : SplitResult → Option String
  urlunsplit : SplitResult → String
  urljoin : String → String → Except String String
  idnaEncode : String → Except String String
  lower : String → String

/-- `text.split(sep)` for one character. -/
def splitText (sep : Char) (text : String) : List String := (text.toList.splitOn sep).map String.ofList

/-- `str.strip`. -/
def strip (text : String) : String :=
  String.ofList (((text.toList.dropWhile isSpace).reverse.dropWhile isSpace).reverse)

/-- `DEFAULT_PORTS`, whose keys are `ALLOWED_SCHEMES`. -/
def defaultPort (scheme : String) : Option Nat :=
  if scheme = "http" then some 80 else if scheme = "https" then some 443 else none

inductive UrlErrorCode where
  | urlInvalid
  | urlUserinfoForbidden
  deriving DecidableEq, Repr

/-- What `normalize_url` raises: an error of its own with its text, or the refusal of the
`NormalizedUrl` contract. -/
inductive UrlError where
  | url (code : UrlErrorCode) (message : String)
  | contract
  deriving DecidableEq, Repr

/-- `error_code`. -/
def UrlErrorCode.code : UrlErrorCode → String
  | .urlInvalid => "url_invalid"
  | .urlUserinfoForbidden => "url_userinfo_forbidden"

def isHostChar (c : Char) : Bool := c.isAlphanum || c = '_' || c = '-'

/-- `_ASCII_HOST`: labels of letters, digits, `_` and `-`, with a dot at the end or not. -/
def isAsciiHost (host : String) : Bool :=
  let labels := host.toList.splitOn '.'
  let named := if labels.getLast? = some [] then labels.dropLast else labels
  !named.isEmpty && named.all fun label => !label.isEmpty && label.all isHostChar

def trackingQueryPrefixes : List String := ["utm_"]

def trackingQueryKeys : List String :=
  ["fbclid", "gclid", "dclid", "yclid", "msclkid", "mc_cid", "mc_eid", "_ga", "_gl", "igshid"]

/-- `key in TRACKING_QUERY_KEYS or key.startswith(TRACKING_QUERY_PREFIXES)`. -/
def isTracking (key : String) : Bool :=
  decide (key ∈ trackingQueryKeys) || trackingQueryPrefixes.any fun start =>
    start.toList.isPrefixOf key.toList

/-- `part.split("=", 1)[0].lower()`. -/
def queryKey (tools : UrlTools) (part : String) : String :=
  tools.lower (String.ofList (part.toList.takeWhile (· ≠ '=')))

/-- `tracking_query_keys`: the query of a URL, without parsing the rest. -/
def trackingKeysOf (tools : UrlTools) (url : String) : List String :=
  match url.toList.dropWhile (· ≠ '?') with
  | [] => []
  | _ :: query =>
    let parts := (query.takeWhile (· ≠ '#')).splitOn '&'
    ((parts.filter (!·.isEmpty)).map fun part => queryKey tools (String.ofList part)).filter isTracking

section
variable (tools : UrlTools)

/-- `_host`. -/
def host (hostname : String) : Except UrlError String :=
  if ':' ∈ hostname.toList then .ok ("[" ++ tools.lower hostname ++ "]")
  else
    match tools.idnaEncode hostname with
    | .ok encoded => .ok encoded
    | .error text =>
      if isAsciiHost hostname then .ok (tools.lower hostname)
      else .error (.url .urlInvalid ("host не проходить IDNA: " ++ text))

/-- The parts of a URL that `_split` keeps; `port` is `none` for the default one. -/
structure UrlParts where
  scheme : String
  host : String
  port : Option Nat
  path : String
  query : String
  deriving DecidableEq, Repr

/-- A `ValueError` of the libraries. -/
def invalidUrl (text : String) : UrlError := .url .urlInvalid ("некоректний URL: " ++ text)

/-- `_split`. -/
def split (raw : String) : Except UrlError UrlParts := do
  let parts ← (tools.urlsplit (strip raw)).mapError invalidUrl
  let port ← (tools.port parts).mapError invalidUrl
  let scheme := tools.lower parts.scheme
  let hostname := (tools.hostname parts).getD ""
  ensure (hostname ≠ "") (.url .urlInvalid "URL без host")
  ensure (tools.username parts = none ∧ tools.password parts = none)
    (.url .urlUserinfoForbidden "URL з userinfo заборонено (anonymous-only)")
  let port := if port = defaultPort scheme then none else port
  let host ← host tools hostname
  let path := if parts.path = "" then "/" else parts.path
  return ⟨scheme, host, port, path, parts.query⟩

/-- `_netloc`. -/
def netloc (host : String) : Option Nat → String
  | none => host
  | some port => host ++ ":" ++ toString port

/-- `_strip_tracking`. -/
def stripTracking (query : String) : String :=
  "&".intercalate ((splitText '&' query).filter fun part => part ≠ "" && !isTracking (queryKey tools part))

/-- `normalize_url(raw).normalized`, with the checks of the `NormalizedUrl` contract. -/
def normalizeUrl (raw : String) : Except UrlError String := do
  let parts ← split tools raw
  let normalized := tools.urlunsplit
    ⟨parts.scheme, netloc parts.host parts.port, parts.path, stripTracking tools parts.query, ""⟩
  ensure (raw ≠ "" ∧ normalized ≠ "" ∧ trackingKeysOf tools normalized = []) .contract
  return normalized

def normalizeOrigin (url : String) : Except UrlError String := do
  let parts ← split tools url
  return parts.scheme ++ "://" ++ netloc parts.host parts.port

/-- What the fetcher relies on from `urllib.parse`: a URL that was split and put together again
has the scheme it had, white space around a URL does not change its scheme, and a scheme is in
lower case. -/
structure UrlTools.Lawful : Prop where
  unsplit_split : ∀ url parts again, tools.urlsplit url = .ok parts →
    tools.urlsplit (tools.urlunsplit { parts with fragment := "" }) = .ok again →
    again.scheme = parts.scheme
  split_unsplit : ∀ parts again, (defaultPort parts.scheme).isSome →
    tools.urlsplit (tools.urlunsplit parts) = .ok again → again.scheme = parts.scheme
  split_strip : ∀ url parts again, tools.urlsplit url = .ok parts → parts.scheme ≠ "" →
    tools.urlsplit (strip url) = .ok again → again.scheme = parts.scheme
  lower_scheme : ∀ url parts, tools.urlsplit url = .ok parts → tools.lower parts.scheme = parts.scheme

end

variable {tools : UrlTools}

/-- A normalized URL is put together from the scheme of the URL without white space around it. -/
theorem normalizeUrl_eq_ok {raw normalized : String} (normal : normalizeUrl tools raw = .ok normalized) :
    ∃ parts netloc path query, tools.urlsplit (strip raw) = .ok parts ∧
      normalized = tools.urlunsplit ⟨tools.lower parts.scheme, netloc, path, query, ""⟩ := by
  simp only [normalizeUrl, split, Except.bind_eq_ok, Except.mapError_eq_ok] at normal
  obtain ⟨_, ⟨parts, found, _, _, _, _, _, _, host, _, same⟩, _, _, result⟩ := normal
  cases same
  cases result
  exact ⟨parts, _, _, _, found, rfl⟩

end Collector.Fetch
