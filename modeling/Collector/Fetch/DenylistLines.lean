import Collector.Fetch.NumericHosts
import Mathlib.Data.Bool.AllAny

/-!
Host lines of the denylist. A line is kept in lower case and without dots at its end, while a host
comes out of a URL in its IDNA form: the line stops the host and what is below it where these two
agree.
-/

namespace Collector.Fetch
open Collector.Lib Collector.Persistence

section Lines

/-- Without one dot at the end. -/
def dotless (name : String) : List Char :=
  if name.toList.getLast? = some '.' then name.toList.dropLast else name.toList

/-- A text that is neither a comment nor a pattern nor an IPv6 literal. -/
def IsHostName (line : String) : Prop :=
  line ≠ "" ∧ ∀ c ∈ line.toList, c ≠ '#' ∧ c ≠ ':' ∧ isSpace c = false

/-- What the list keeps of a line. -/
def keptHost (tools : UrlTools) (line : String) : String :=
  String.ofList ((tools.lower line).toList.reverse.dropWhile (· = '.')).reverse

variable {tools : UrlTools} {compile : String → Option Pattern}

theorem readLine_name {raw : String} (name : IsHostName (strip raw)) :
    readLine tools raw = .host (keptHost tools (strip raw)) := by
  have notComment : ¬(strip raw = "" ∨ (strip raw).toList.head? = some '#') := by
    rintro (empty | comment)
    · exact name.1 empty
    · exact (name.2 '#' (List.mem_of_mem_head? comment)).1 rfl
  have notPattern : ¬"re:".toList.isPrefixOf (strip raw).toList = true := by
    intro isPattern
    obtain ⟨rest, same⟩ := List.isPrefixOf_iff_prefix.mp isPattern
    have colon : ':' ∈ (strip raw).toList := by
      rw [← same]
      exact List.mem_append_left _ (by decide)
    exact (name.2 ':' colon).2.1 rfl
  rw [readLine, if_neg notComment, if_neg notPattern]
  rfl

theorem mem_hosts {lines hosts : List String} {patterns : List Pattern} {raw name : String}
    (read : readLines tools compile lines = some (hosts, patterns)) (member : raw ∈ lines)
    (line : readLine tools raw = .host name) : name ∈ hosts := by
  induction lines generalizing hosts patterns with
  | nil => exact absurd member List.not_mem_nil
  | cons first rest ih =>
    rw [readLines] at read
    cases kind : readLine tools first with
    | skipped =>
      rw [kind] at read
      rcases List.mem_cons.mp member with rfl | later
      · rw [kind] at line
        cases line
      · exact ih read later
    | host other =>
      rw [kind] at read
      dsimp only at read
      rw [Option.bind_eq_bind, Option.bind_eq_some_iff] at read
      obtain ⟨⟨others, more⟩, found, same⟩ := read
      cases same
      rcases List.mem_cons.mp member with rfl | later
      · rw [kind] at line
        cases line
        exact List.mem_cons_self
      · exact List.mem_cons_of_mem _ (ih found later)
    | pattern source =>
      rw [kind] at read
      dsimp only at read
      rw [Option.bind_eq_bind, Option.bind_eq_some_iff] at read
      obtain ⟨pattern, _, read⟩ := read
      rw [Option.bind_eq_bind, Option.bind_eq_some_iff] at read
      obtain ⟨⟨others, more⟩, found, same⟩ := read
      cases same
      rcases List.mem_cons.mp member with rfl | later
      · rw [kind] at line
        cases line
      · exact ih found later

theorem isSpace_of_lineBreak {c : Char} (ends : isLineBreak c = true) : isSpace c = true := by
  simp only [isLineBreak, isSpace, List.mem_cons, List.not_mem_nil, or_false, decide_eq_true_eq,
    Bool.or_eq_true] at ends ⊢
  omega

theorem splitlinesFrom_whole {line text : List Char} (nonempty : line ++ text ≠ [])
    (whole : ∀ c ∈ text, isLineBreak c = false) :
    splitlinesFrom line text = [String.ofList (line.reverse ++ text)] := by
  induction text generalizing line with
  | nil =>
    rw [List.append_nil] at nonempty
    rw [splitlinesFrom, if_neg (by simpa using nonempty), List.append_nil]
  | cons c text ih =>
    have here := whole c List.mem_cons_self
    rw [splitlinesFrom, here, if_neg Bool.false_ne_true,
      ih (by simp) fun d member => whole d (List.mem_cons_of_mem _ member), List.reverse_cons, List.append_assoc]
    · rfl
    · rintro rest rfl
      cases here

/-- The file that has this one line. -/
theorem splitlines_name {line : String} (name : IsHostName line) : splitlines line = [line] := by
  have nonempty : line.toList ≠ [] := fun empty => name.1 (String.toList_inj.mp empty)
  rw [splitlines, splitlinesFrom_whole nonempty, List.reverse_nil, List.nil_append, String.ofList_toList]
  intro c member
  by_contra ends
  have space := isSpace_of_lineBreak (Bool.eq_true_of_not_eq_false ends)
  rw [(name.2 c member).2.2] at space
  cases space

theorem strip_name {line : String} (name : IsHostName line) : strip line = line := by
  have solid (text : List Char) (part : ∀ c ∈ text, c ∈ line.toList) : text.dropWhile isSpace = text := by
    cases text with
    | nil => rfl
    | cons c text =>
      rw [List.dropWhile_cons_of_neg]
      rw [(name.2 c (part c List.mem_cons_self)).2.2]
      exact Bool.false_ne_true
  rw [strip, solid _ fun c member => member, solid _ fun c member => List.mem_reverse.mp member,
    List.reverse_reverse, String.ofList_toList]

/-- A host is listed with every zone that it is within. -/
theorem listsHost_iff {list : Denylist} {name : String} :
    list.listsHost name = true ↔ ∃ zone ∈ list.hosts, Labels.Within '.' zone.toList name.toList := by
  have pieces (i : Nat) : (".".intercalate ((splitText '.' name).drop i)).toList =
      ['.'].intercalate ((name.toList.splitOn '.').drop i) := by
    rw [String.toList_intercalate, splitText, ← List.map_drop, List.map_map]
    simp [Function.comp_def]
  have count : (splitText '.' name).length = (name.toList.splitOn '.').length := List.length_map _
  rw [Denylist.listsHost, List.any_eq_true]
  simp only [List.mem_range, decide_eq_true_eq, count]
  constructor
  · rintro ⟨i, inside, listed⟩
    exact ⟨_, listed, Labels.exists_drop_iff.mp ⟨i, inside, (pieces i).symm⟩⟩
  · rintro ⟨zone, listed, within⟩
    obtain ⟨i, inside, same⟩ := Labels.exists_drop_iff.mpr within
    rw [← pieces i, String.toList_inj] at same
    exact ⟨i, inside, same ▸ listed⟩

end Lines

section Requests
variable (tools : FetchTools)

/-- The host of a URL is the host of the line. -/
def Names (line name : String) : Prop :=
  ':' ∉ name.toList ∧ ∃ normal, host tools.toUrlTools line = .ok normal ∧ dotless name = dotless normal

/-- The host of a URL is the host of the line or below it; a dot at the end makes no difference. -/
def Covers (line name : String) : Prop :=
  ':' ∉ name.toList ∧ ∃ normal, host tools.toUrlTools line = .ok normal ∧
    Labels.Within '.' (dotless normal) (dotless name)

/-- `RouteGuard.check` and then `resolve_pinned` let a request through. -/
def LetThrough (guard : RouteGuard) (kept : Denylist) (file : DenylistFile) (url : String)
    (guarded : GuardedUrl) : Prop :=
  (∃ list, guard.check tools.toUrlTools tools.compile kept file url = .ok (guarded, list)) ∧
    ∃ s past address s', (SafeFetcher.resolvePinned tools guarded.host guarded.port s).Run past
      (.done (.ok address, s'))

/-- What is kept under the modification time of the file was read from its text. -/
def KeptFrom (text : String) (mtimeNs : Int) (kept : Denylist) : Prop :=
  kept.mtimeNs = some mtimeNs →
    readLines tools.toUrlTools tools.compile (splitlines text) = some (kept.hosts, kept.patterns)

/-- A denylist with this line stops every request to the host of the line and below it. -/
def Enforced (line : String) : Prop :=
  ∀ (guard : RouteGuard) path text mtimeNs kept url guarded, guard.denylist = some path →
    (∃ raw ∈ splitlines text, strip raw = line) → KeptFrom tools text mtimeNs kept →
    Covers tools line guarded.host →
    ¬LetThrough tools guard kept (.present mtimeNs (some text)) url guarded

/-- What the list keeps of the line is the IDNA form of its host, or the last labels of it. -/
def KeptNormal (line : String) : Prop :=
  ∀ normal, host tools.toUrlTools line = .ok normal →
    Labels.Within '.' (keptHost tools.toUrlTools line).toList (dotless normal)

/-- Without a denylist some request to the host of the line is let through. -/
def Open (line : String) : Prop :=
  ∃ (guard : RouteGuard) (url : String) (guarded : GuardedUrl), guard.denylist = none ∧
    Names tools line guarded.host ∧ LetThrough tools guard {} .missing url guarded

variable {tools}

theorem load_lines {text : String} {mtimeNs : Int} {kept list : Denylist} (same : KeptFrom tools text mtimeNs kept)
    (loaded : kept.load tools.toUrlTools tools.compile (.present mtimeNs (some text)) = .ok list) :
    readLines tools.toUrlTools tools.compile (splitlines text) = some (list.hosts, list.patterns) := by
  rw [Denylist.load] at loaded
  split at loaded
  · next unchanged =>
    cases loaded
    exact same unchanged
  · rw [Option.bind_some] at loaded
    split at loaded
    · next hosts patterns read =>
      cases loaded
      exact read
    · cases loaded

/-- A name with a dot at its end is not resolved. -/
theorem dotted_refused {name : String}
    (keepsDot : ∀ text, text.toList.getLast? = some '.' → (tools.lower text).toList.getLast? = some '.')
    (dotted : name.toList.getLast? = some '.') (colon : ':' ∉ name.toList) (literal : Option IpAddress) :
    resolveLiteral tools.toUrlTools tools.ipAddress name ≠ .ok literal := by
  have same : bare name = name.toList := by
    rw [bare, if_neg]
    rw [dotted]
    exact fun both => absurd both.2 (by decide)
  intro resolved
  have parsed := parse_of_resolveLiteral resolved
  cases literal with
  | some ip =>
    obtain ⟨bits, _, text⟩ := parseIpLiteral_plain (same ▸ colon) parsed (resolveLiteral_allowed resolved)
    rw [same] at text
    exact text_undotted bits (text ▸ dotted)
  | none =>
    rw [resolveLiteral, parsed] at resolved
    change (checkHostName tools.toUrlTools name >>= fun _ => _) = _ at resolved
    rw [Except.bind_eq_ok] at resolved
    obtain ⟨_, checked, _⟩ := resolved
    rw [checkHostName, Except.bind_eq_ok] at checked
    obtain ⟨_, undotted, _⟩ := checked
    rw [ensure_eq_ok, decide_eq_true_eq] at undotted
    exact undotted (keepsDot name dotted)

/-- An address was returned, so the host was a literal or a name that may be looked up. -/
theorem literal_of_run {name : String} {port : Nat} {s s' : FetchState} {past : List Exchange}
    {address : IpAddress}
    (run : (SafeFetcher.resolvePinned tools name port s).Run past (.done (.ok address, s'))) :
    ∃ literal, resolveLiteral tools.toUrlTools tools.ipAddress name = .ok literal := by
  cases resolved : resolveLiteral tools.toUrlTools tools.ipAddress name with
  | ok literal => exact ⟨literal, rfl⟩
  | error e =>
    rw [SafeFetcher.resolvePinned, resolved] at run
    have raised : Script.Safe (fun _ _ => True)
        (fun _ (r : Except FetchRaise IpAddress × FetchState) => r.1 ≠ .ok address)
        (.done (.error (.ofRefusal e), s) : Script FetchQuestion FetchAnswer _) [] := by rintro ⟨⟩
    exact absurd rfl (raised.run run)

theorem enforced_of_kept {line : String}
    (keepsDot : ∀ text, text.toList.getLast? = some '.' → (tools.lower text).toList.getLast? = some '.')
    (name : IsHostName line) (normal : KeptNormal tools line) : Enforced tools line := by
  rintro guard path text mtimeNs kept url guarded configured ⟨raw, member, rfl⟩ same ⟨colon, form, found, below⟩
    ⟨⟨list, checked⟩, s, past, address, s', run⟩
  obtain ⟨literal, resolved⟩ := literal_of_run run
  by_cases dotted : guarded.host.toList.getLast? = some '.'
  · exact dotted_refused keepsDot dotted colon literal resolved
  have whole : dotless guarded.host = guarded.host.toList := if_neg dotted
  rw [whole] at below
  rw [RouteGuard.check, Except.bind_eq_ok] at checked
  obtain ⟨_, _, checked⟩ := checked
  rw [Except.bind_eq_ok] at checked
  obtain ⟨_, asked, _, _, same'⟩ := by simpa only [Except.bind_eq_ok] using checked
  cases same'
  rw [RouteGuard.listed, configured] at asked
  dsimp only at asked
  rw [Except.bind_eq_ok] at asked
  obtain ⟨_, loaded, asked⟩ := asked
  rw [Except.bind_eq_ok] at asked
  obtain ⟨_, free, same'⟩ := asked
  cases same'
  have listed := mem_hosts (load_lines same loaded) member (readLine_name name)
  have hit := listsHost_iff.mpr ⟨_, listed, (normal form found).trans below⟩
  rw [Denylist.check, hit] at free
  cases free

/-- A file with only this line stops no host outside of what is kept of it. -/
theorem check_alone {line : String} (name : IsHostName line) {guard : RouteGuard} {url : String}
    {guarded : GuardedUrl} {list : Denylist}
    (passed : guard.check tools.toUrlTools tools.compile {} .missing url = .ok (guarded, list))
    (outside : ¬Labels.Within '.' (keptHost tools.toUrlTools line).toList guarded.host.toList) :
    ∃ list, { guard with denylist := some "denylist" }.check tools.toUrlTools tools.compile {}
      (.present 0 (some line)) url = .ok (guarded, list) := by
  rw [RouteGuard.check, Except.bind_eq_ok] at passed
  obtain ⟨_, inspected, passed⟩ := passed
  rw [Except.bind_eq_ok] at passed
  obtain ⟨_, _, passed⟩ := passed
  rw [Except.bind_eq_ok] at passed
  obtain ⟨_, routed, same⟩ := passed
  cases same
  have lines : readLines tools.toUrlTools tools.compile (splitlines line) =
      some ([keptHost tools.toUrlTools line], []) := by
    have kind : readLine tools.toUrlTools line = .host (keptHost tools.toUrlTools (strip line)) :=
      readLine_name (by rwa [strip_name name])
    rw [strip_name name] at kind
    rw [splitlines_name name, readLines, kind]
    rfl
  have loaded : Denylist.load tools.toUrlTools tools.compile {} (.present 0 (some line)) =
      .ok ⟨some 0, [keptHost tools.toUrlTools line], []⟩ := by
    rw [Denylist.load, if_neg (by decide), Option.bind_some, lines]
  have free : (⟨some 0, [keptHost tools.toUrlTools line], []⟩ : Denylist).check guarded.url guarded.host =
      .ok () := by
    have unlisted : (⟨some 0, [keptHost tools.toUrlTools line], []⟩ : Denylist).listsHost guarded.host = false := by
      rw [← Bool.not_eq_true, listsHost_iff]
      rintro ⟨zone, member, within⟩
      rw [List.mem_singleton.mp member] at within
      exact outside within
    rw [Denylist.check, unlisted]
    rfl
  refine ⟨⟨some 0, [keptHost tools.toUrlTools line], []⟩, ?_⟩
  rw [RouteGuard.check, Except.bind_eq_ok]
  refine ⟨guarded, inspected, Except.bind_eq_ok.mpr ⟨_, ?_, Except.bind_eq_ok.mpr ⟨(), routed, rfl⟩⟩⟩
  rw [RouteGuard.listed, Except.bind_eq_ok]
  exact ⟨_, loaded, Except.bind_eq_ok.mpr ⟨(), free, rfl⟩⟩

theorem kept_of_enforced {line : String}
    (keepsDot : ∀ text, text.toList.getLast? = some '.' → (tools.lower text).toList.getLast? = some '.')
    (name : IsHostName line) (passes : Open tools line) (enforced : Enforced tools line) :
    KeptNormal tools line := by
  obtain ⟨guard, url, guarded, _, ⟨colon, form, found, same⟩, ⟨list, checked⟩, s, past, address, s', run⟩ :=
    passes
  intro normal again
  rw [found] at again
  cases again
  by_contra outside
  obtain ⟨literal, resolved⟩ := literal_of_run run
  have undotted : ¬guarded.host.toList.getLast? = some '.' := fun dotted =>
    dotted_refused keepsDot dotted colon literal resolved
  have whole : dotless guarded.host = guarded.host.toList := if_neg undotted
  rw [← same, whole] at outside
  have passed := check_alone name checked outside
  refine enforced { guard with denylist := some "denylist" } "denylist" line 0 {} url guarded rfl
    ⟨line, ?_, strip_name name⟩ nofun ⟨colon, form, found, .inl same⟩ ⟨passed, s, past, address, s', run⟩
  rw [splitlines_name name]
  exact List.mem_singleton_self _

end Requests

/-- A host line is enforced if what the list keeps of it is the IDNA form of its host or the last
labels of that; and where a request to that host can pass at all, only then. -/
theorem denylist_line_enforced_iff (tools : FetchTools)
    (keepsDot : ∀ text, text.toList.getLast? = some '.' → (tools.lower text).toList.getLast? = some '.')
    (line : String) (name : IsHostName line) :
    (KeptNormal tools line → Enforced tools line) ∧
      (Open tools line → Enforced tools line → KeptNormal tools line) :=
  ⟨enforced_of_kept keepsDot name, kept_of_enforced keepsDot name⟩

theorem sampleTools_keepsDot (text : String) (dotted : text.toList.getLast? = some '.') :
    (sampleTools.lower text).toList.getLast? = some '.' := dotted

theorem ascii_line_enforced : IsHostName "a.ua" ∧ Enforced sampleTools "a.ua" := by
  have name : IsHostName "a.ua" := ⟨by decide, List.all_iff_forall_prop.mp (by decide)⟩
  refine ⟨name, (denylist_line_enforced_iff sampleTools sampleTools_keepsDot "a.ua" name).1 ?_⟩
  intro normal found
  cases found
  exact .inl (by decide)

/-- A host with a name that is not ASCII. -/
def idnTools : FetchTools := {
  sampleTools with
  urlsplit := fun url =>
    if url = "https://пошта.укр/" then .ok ⟨"https", "пошта.укр", "/", "", ""⟩
    else if url = "https://xn--80a1acn3a.xn--j1amh/" then .ok ⟨"https", "xn--80a1acn3a.xn--j1amh", "/", "", ""⟩
    else .error "unknown"
  idnaEncode := fun name => .ok (if name = "пошта.укр" then "xn--80a1acn3a.xn--j1amh" else name) }

def idnGuarded : GuardedUrl :=
  ⟨"https://xn--80a1acn3a.xn--j1amh/", "https", "xn--80a1acn3a.xn--j1amh", 443⟩

def idnRun := (SafeFetcher.resolvePinned idnTools idnGuarded.host 443 {}).replay sampleWorld 2 []

theorem idn_open : Open idnTools "пошта.укр" := by
  have inspected : ({} : RouteGuard).inspect idnTools.toUrlTools "https://пошта.укр/" = .ok idnGuarded := by
    decide +kernel
  have checked : ({} : RouteGuard).check idnTools.toUrlTools idnTools.compile {} .missing "https://пошта.укр/" =
      .ok (idnGuarded, {}) := by
    rw [RouteGuard.check, inspected]
    rfl
  have ran : (SafeFetcher.resolvePinned idnTools idnGuarded.host 443 {}).Run idnRun.1 idnRun.2 :=
    Script.run_replay .nil 2
  have pinned : idnRun.2.result.map (·.1) = some (.ok (.v4 (ipv4 93 184 216 34))) := by decide +kernel
  rw [Option.map_eq_some_iff] at pinned
  obtain ⟨⟨outcome, s⟩, ended, same⟩ := pinned
  rw [Script.eq_done_of_result ended] at ran
  cases same
  exact ⟨{}, "https://пошта.укр/", idnGuarded, rfl, ⟨by decide, _, rfl, rfl⟩, ⟨{}, checked⟩, {}, _, _, _, ran⟩

/-- The line is kept as it was written, and the URL comes with the IDNA form. -/
theorem idn_line_passes : IsHostName "пошта.укр" ∧ ¬Enforced idnTools "пошта.укр" := by
  have name : IsHostName "пошта.укр" := ⟨by decide, List.all_iff_forall_prop.mp (by decide)⟩
  refine ⟨name, fun enforced => ?_⟩
  have outside : ¬Labels.Within '.' "пошта.укр".toList "xn--80a1acn3a.xn--j1amh".toList := by
    rintro (same | ⟨init, same⟩)
    · exact absurd same (by decide)
    · have last := congrArg List.getLast? same
      rw [List.getLast?_append_of_ne_nil _ (List.cons_ne_nil _ _)] at last
      exact absurd last (by decide)
  exact outside (kept_of_enforced (fun _ dotted => dotted) name idn_open enforced _ rfl)

end Collector.Fetch
