import Collector.Fetch.Ssrf

/-!
The route guard: scheme, port and userinfo of a URL, the global denylist, and the patterns of a
route. The denylist is a file that is read again when its modification time has changed; a file
that cannot be read refuses every URL.
-/

namespace Collector.Fetch
open Collector.Lib

/-- A compiled regular expression, as `search` sees it. -/
abbrev Pattern := String → Bool

structure GuardedUrl where
  url : String
  scheme : String
  host : String
  port : Nat
  deriving DecidableEq, Repr

/-- The denylist file as `stat` and `read_text` find it; `none` for a text that cannot be read. -/
inductive DenylistFile where
  | missing
  | present (mtimeNs : Int) (text : Option String)
  deriving DecidableEq, Repr

/-- What `GlobalDenylist` keeps of the file. -/
structure Denylist where
  mtimeNs : Option Int := none
  hosts : List String := []
  patterns : List Pattern := []

def isLineBreak (c : Char) : Bool :=
  c.toNat ∈ [0x0a, 0x0b, 0x0c, 0x0d, 0x1c, 0x1d, 0x1e, 0x85, 0x2028, 0x2029]

/-- `text.splitlines()`; `line` is what was read of the present line, backwards. -/
def splitlinesFrom (line : List Char) : List Char → List String
  | [] => if line.isEmpty then [] else [String.ofList line.reverse]
  | '\r' :: '\n' :: rest => String.ofList line.reverse :: splitlinesFrom [] rest
  | c :: rest =>
    if isLineBreak c then String.ofList line.reverse :: splitlinesFrom [] rest
    else splitlinesFrom (c :: line) rest

def splitlines (text : String) : List String := splitlinesFrom [] text.toList

example : splitlines "a\r\n\nb" = ["a", "", "b"] := by decide +kernel

/-- A line of the file: nothing, a host, or a regular expression. -/
inductive DenylistLine where
  | skipped
  | host (name : String)
  | pattern (source : String)
  deriving DecidableEq, Repr

section
variable (tools : UrlTools)

def readLine (raw : String) : DenylistLine :=
  let line := strip raw
  if line = "" ∨ line.toList.head? = some '#' then .skipped
  else if "re:".toList.isPrefixOf line.toList then .pattern (String.ofList (line.toList.drop 3))
  else .host (String.ofList ((tools.lower line).toList.reverse.dropWhile (· = '.')).reverse)

/-- The loop of `_load` over the lines; `none` is a `re.error`. -/
def readLines (compile : String → Option Pattern) : List String → Option (List String × List Pattern)
  | [] => some ([], [])
  | raw :: rest => do
    match readLine tools raw with
    | .skipped => readLines compile rest
    | .host name =>
      let (hosts, patterns) ← readLines compile rest
      return (name :: hosts, patterns)
    | .pattern source =>
      let pattern ← compile source
      let (hosts, patterns) ← readLines compile rest
      return (hosts, pattern :: patterns)

/-- `_load`. -/
def Denylist.load (compile : String → Option Pattern) (kept : Denylist) : DenylistFile →
    Except Refusal Denylist
  | .missing => .error (.policyBlocked "global_denylist_unavailable")
  | .present mtimeNs text =>
    if kept.mtimeNs = some mtimeNs then .ok kept
    else
      match text.bind fun text => readLines tools compile (splitlines text) with
      | some (hosts, patterns) => .ok ⟨some mtimeNs, hosts, patterns⟩
      | none => .error (.policyBlocked "global_denylist_unavailable")

end

/-- The host or a domain above it is listed. -/
def Denylist.listsHost (list : Denylist) (host : String) : Bool :=
  let labels := splitText '.' host
  (List.range labels.length).any fun i => ".".intercalate (labels.drop i) ∈ list.hosts

/-- `GlobalDenylist.check` once the file is loaded. -/
def Denylist.check (list : Denylist) (url host : String) : Except Refusal Unit := do
  ensure (!list.listsHost host) (.policyBlocked "global_denylist")
  ensure (!list.patterns.any (· url)) (.policyBlocked "global_denylist")

/-- `RouteGuard`, with the path of the denylist if there is one. -/
structure RouteGuard where
  allowed : List Pattern := []
  denied : List Pattern := []
  ports : List Nat := [80, 443]
  denylist : Option String := none

namespace RouteGuard
variable (tools : UrlTools) (guard : RouteGuard)

/-- A `UrlError` becomes a refusal; what the contract raises is not caught. -/
def refusalOf : UrlError → Refusal
  | .url code _ => .policyBlocked code.code
  | .contract => .valueError

/-- `check` up to the denylist. -/
def inspect (url : String) : Except Refusal GuardedUrl := do
  let parts ← (tools.urlsplit url).mapError fun _ => .policyBlocked "url_invalid"
  let port ← (tools.port parts).mapError fun _ => .policyBlocked "url_invalid"
  let scheme := tools.lower parts.scheme
  let standard ← require (defaultPort scheme) (.policyBlocked "scheme_forbidden")
  let normalized ← (normalizeUrl tools url).mapError refusalOf
  let port := port.getD standard
  ensure (port ∈ guard.ports) (.policyBlocked "port_forbidden")
  let again ← (tools.urlsplit normalized).mapError fun _ => .valueError
  return ⟨normalized, scheme, (tools.hostname again).getD "", port⟩

/-- The patterns of the route. -/
def route (guarded : GuardedUrl) : Except Refusal Unit := do
  ensure (!guard.denied.any (· guarded.url)) (.policyBlocked "route_denied")
  ensure (guard.allowed.isEmpty || guard.allowed.any (· guarded.url)) (.policyBlocked "route_not_allowed")

/-- The denylist is loaded and asked; without a path the file is not looked at. -/
def listed (compile : String → Option Pattern) (kept : Denylist) (file : DenylistFile)
    (guarded : GuardedUrl) : Except Refusal Denylist :=
  match guard.denylist with
  | none => .ok kept
  | some _ => do
    let list ← kept.load tools compile file
    list.check guarded.url guarded.host
    return list

/-- `check`, given what the file is and what was kept of it. -/
def check (compile : String → Option Pattern) (kept : Denylist) (file : DenylistFile) (url : String) :
    Except Refusal (GuardedUrl × Denylist) := do
  let guarded ← guard.inspect tools url
  let list ← guard.listed tools compile kept file guarded
  guard.route guarded
  return (guarded, list)

variable {tools guard}

/-- What `inspect` says about the URL it lets through. -/
theorem inspect_eq_ok {url : String} {guarded : GuardedUrl} (admitted : guard.inspect tools url = .ok guarded) :
    ∃ parts again, tools.urlsplit url = .ok parts ∧ (defaultPort (tools.lower parts.scheme)).isSome ∧
      normalizeUrl tools url = .ok guarded.url ∧ tools.urlsplit guarded.url = .ok again := by
  simp only [inspect, Except.bind_eq_ok, Except.mapError_eq_ok, require_eq_ok] at admitted
  obtain ⟨parts, split, _, _, standard, known, normalized, normal, _, _, again, found, same⟩ := admitted
  cases same
  exact ⟨parts, again, split, by rw [known]; rfl, normal, found⟩

theorem inspect_of_check {compile : String → Option Pattern} {kept list : Denylist} {file : DenylistFile}
    {url : String} {guarded : GuardedUrl}
    (accepted : guard.check tools compile kept file url = .ok (guarded, list)) :
    guard.inspect tools url = .ok guarded := by
  simp only [check, Except.bind_eq_ok] at accepted
  obtain ⟨admitted, found, _, _, _, _, same⟩ := accepted
  cases same
  exact found

end RouteGuard

end Collector.Fetch
