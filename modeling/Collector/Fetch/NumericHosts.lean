import Collector.Fetch.GuardedRequests
import Collector.Fetch.NumericLabels
import Collector.Lib.Labels

/-!
Numeric hosts next to the parser of IPv4 texts that browsers and resolvers use. The host is read
as that parser reads it, or refused; what slips through is a number that Python does not convert,
and a newline behind a number.
-/

namespace Collector.Fetch
open Collector.Lib

section Literals

/-- No IPv6 literal, and the last label is a number. -/
def isNumericHost (host : String) : Bool :=
  !decide (':' ∈ host.toList) && isNumberLabel ((Ipv4.labels host.toList).getLastD [])

theorem isNumberLabel_ne_nil {label : List Char} (number : isNumberLabel label = true) : label ≠ [] := by
  rintro rfl
  cases number

/-- What is in no number. -/
theorem not_mem_number {label : List Char} {c : Char} (number : isNumberLabel label = true)
    (other : isHexDigit c = false) (prefixless : c ≠ 'x' ∧ c ≠ 'X') : c ∉ label := by
  intro member
  have notDigit : c.isDigit = false := by
    rw [isHexDigit, Bool.or_assoc, Bool.or_eq_false_iff] at other
    exact other.1
  have notZero : c ≠ '0' := by
    rintro rfl
    cases notDigit
  rw [isNumberLabel] at number
  split at number
  · next hex =>
    obtain ⟨d, rest, rfl, mark⟩ := hexLabel_cases hex
    have notMark : c ≠ d := by
      rcases mark with rfl | rfl
      · exact prefixless.1
      · exact prefixless.2
    have inRest : c ∈ rest := by simpa [notZero, notMark] using member
    exact absurd (List.all_eq_true.mp number _ inRest) (by simp [other])
  · rw [Bool.and_eq_true] at number
    exact absurd (List.all_eq_true.mp number.2 _ member) (by simp [notDigit])

theorem isNumericLabel_of_number {label : List Char} (number : isNumberLabel label = true) :
    isNumericLabel label = true := by
  rw [isNumericLabel, chomp_of_not_mem (not_mem_number number (by decide) (by decide))]
  exact number

theorem labels_of_last {text label : List Char} {before : List (List Char)}
    (cut : text.splitOn '.' = before ++ [label]) (nonempty : label ≠ []) : Ipv4.labels text = before ++ [label] := by
  rw [Ipv4.labels, cut, List.getLast?_concat, if_neg]
  intro empty
  exact nonempty (Option.some.inj empty)

/-- A text whose last label is a number: the number, and at most one dot after it. -/
theorem numeric_shape {text : List Char} (number : isNumberLabel ((Ipv4.labels text).getLastD []) = true) :
    (∃ before dot, text = before ++ (Ipv4.labels text).getLastD [] ++ dot ∧ (dot = [] ∨ dot = ['.'])) ∧
      (text.rdropWhile (· == '.')).splitOn '.' = Ipv4.labels text := by
  -- a piece with something in it, at the end of a text
  have piece {text last before : List Char} (shape : text = before ++ last) (free : '.' ∉ last)
      (nonempty : last ≠ []) (cut : before = [] ∧ text.splitOn '.' = [last] ∨
        ∃ init, before = init ++ ['.'] ∧ text.splitOn '.' = init.splitOn '.' ++ [last]) :
      Ipv4.labels text = text.splitOn '.' ∧ (text.splitOn '.').getLastD [] = last ∧
        text.rdropWhile (· == '.') = text := by
    have pieces : ∃ pieces, text.splitOn '.' = pieces ++ [last] := by
      rcases cut with ⟨_, cut⟩ | ⟨init, _, cut⟩
      · exact ⟨[], cut⟩
      · exact ⟨_, cut⟩
    obtain ⟨pieces, cut⟩ := pieces
    refine ⟨by rw [labels_of_last cut nonempty, cut], by rw [cut, List.getLastD_concat], ?_⟩
    rw [shape]
    exact Labels.rdropWhile_piece before nonempty free
  obtain ⟨before, last, shape, free, cut⟩ := Labels.splitOn_last '.' text
  by_cases empty : last = []
  · subst empty
    rw [List.append_nil] at shape
    rcases cut with ⟨nothing, cut⟩ | ⟨init, dotted, cut⟩
    · rw [Ipv4.labels, cut] at number
      cases number
    · have labels : Ipv4.labels text = init.splitOn '.' := by
        rw [Ipv4.labels, cut, List.getLast?_concat, if_pos rfl, List.dropLast_concat]
      rw [labels] at number ⊢
      obtain ⟨before', last, shape', free, cut'⟩ := Labels.splitOn_last '.' init
      have nonempty : last ≠ [] := by
        rintro rfl
        rcases cut' with ⟨_, cut'⟩ | ⟨_, _, cut'⟩ <;> rw [cut'] at number <;> simp [isNumberLabel, isHexLabel] at number
      obtain ⟨_, ends, kept⟩ := piece shape' free nonempty cut'
      rw [ends, shape, dotted, List.rdropWhile_concat_pos _ _ _ (by decide), kept]
      exact ⟨⟨before', ['.'], by rw [← shape'], .inr rfl⟩, rfl⟩
  · obtain ⟨labels, ends, kept⟩ := piece shape free empty cut
    rw [labels, ends, kept]
    exact ⟨⟨before, [], by rw [List.append_nil, ← shape], .inl rfl⟩, rfl⟩

theorem bare_of_numeric {text : List Char} (number : isNumberLabel ((Ipv4.labels text).getLastD []) = true) :
    bare (String.ofList text) = text := by
  obtain ⟨⟨before, dot, shape, dots⟩, _⟩ := numeric_shape number
  have free : ']' ∉ (Ipv4.labels text).getLastD [] := not_mem_number number (by decide) (by decide)
  have closes : text.getLast? ≠ some ']' := by
    intro closed
    rw [shape] at closed
    rcases dots with rfl | rfl
    · rw [List.append_nil, List.getLast?_append_of_ne_nil _ (isNumberLabel_ne_nil number)] at closed
      exact free (List.mem_of_getLast? closed)
    · rw [List.getLast?_concat] at closed
      exact absurd closed (by decide)
  rw [bare, String.toList_ofList, if_neg fun both => closes both.2]

variable {ipAddress : String → Option IpAddress}

/-- A numeric host is read as a number, with or without the brackets. -/
theorem parseIpLiteral_numeric {host text : String} (same : bare host = text.toList)
    (numeric : isNumericHost text = true) : parseIpLiteral ipAddress host = (do
      let ip ← parseIpv4Number text
      ensure (forbiddenReasonV4 ip ≠ none ∨ IPv4.text ip = text) (.policyBlocked "host_noncanonical_ip")
      return some (.v4 ip)) := by
  rw [isNumericHost, Bool.and_eq_true, Bool.not_eq_true', decide_eq_false_iff_not] at numeric
  have labels : ((text.toList.reverse.dropWhile (· = '.')).reverse.splitOn '.').getLastD [] =
      (Ipv4.labels text.toList).getLastD [] := congrArg (List.getLastD · []) (numeric_shape numeric.2).2
  rw [parseIpLiteral, same, if_neg numeric.1]
  simp only [labels, isNumericLabel_of_number numeric.2, String.ofList_toList]
  rfl

/-- `parse_ip_literal` refuses the host, or it answers what the parser of IPv4 texts answers. -/
def ReadLikeAton (ipAddress : String → Option IpAddress) (host : String) : Prop :=
  isNumericHost host = true →
    (∃ code, parseIpLiteral ipAddress host = .error (.policyBlocked code)) ∨
      ∃ bits, Ipv4.parse host.toList = some bits ∧ parseIpLiteral ipAddress host = .ok (some (.v4 bits))

/-- The first label that stops the parser is one that Python does not convert; or none stops it, a
newline stands behind a number, and the address without it is a forbidden one. -/
def Misread (host : String) : Prop :=
  isNumericHost host = true ∧ Countable (Ipv4.labels host.toList) ∧
    match stop (Ipv4.labels host.toList) with
    | some label => isUnread label = true
    | none => (∃ label ∈ Ipv4.labels host.toList, '\n' ∈ label) ∧
        ∃ bits, Ipv4.ofLabels ((Ipv4.labels host.toList).map chomp) = some bits ∧ forbiddenReasonV4 bits ≠ none

theorem parse_newline {host : List Char} (hidden : ∃ label ∈ Ipv4.labels host, '\n' ∈ label) :
    Ipv4.parse host = none := by
  obtain ⟨label, member, newline⟩ := hidden
  exact Ipv4.ofLabels_eq_none member (Ipv4.part_eq_none newline (by decide) (by decide))

theorem map_chomp {labels : List (List Char)} (free : ¬∃ label ∈ labels, '\n' ∈ label) :
    labels.map chomp = labels := by
  refine (List.map_congr_left fun label member => ?_).trans (List.map_id _)
  exact chomp_of_not_mem fun newline => free ⟨label, member, newline⟩

/-- The bytes of an address, as texts. -/
def quad (bits : BitVec 32) : List (List Char) :=
  [24, 16, 8, 0].map fun shift => (toString (bits.toNat / 2 ^ shift % 256)).toList

/-- What is needed of the text of a byte. -/
structure ByteText (value : Nat) (text : List Char) : Prop where
  part : Ipv4.part text = some value
  number : isNumberLabel text = true
  kept : (isBadOctal text || isUnread text) = false
  plain : '.' ∉ text ∧ ':' ∉ text

instance (value : Nat) (text : List Char) : Decidable (ByteText value text) :=
  decidable_of_iff (Ipv4.part text = some value ∧ isNumberLabel text = true ∧
    (isBadOctal text || isUnread text) = false ∧ '.' ∉ text ∧ ':' ∉ text)
    ⟨fun ⟨part, number, kept, plain⟩ => ⟨part, number, kept, plain⟩,
      fun byte => ⟨byte.part, byte.number, byte.kept, byte.plain⟩⟩

theorem byteText : ∀ value : Fin 256, ByteText value.val (toString value.val).toList := by decide +kernel

theorem quad_byteText {bits : BitVec 32} {label : List Char} (member : label ∈ quad bits) :
    ∃ value, ByteText value label := by
  obtain ⟨shift, _, same⟩ := List.mem_map.mp member
  rw [← same]
  exact ⟨_, byteText ⟨_, Nat.mod_lt _ (by decide)⟩⟩

theorem quad_part (bits : BitVec 32) (shift : Nat) :
    Ipv4.part (toString (bits.toNat / 2 ^ shift % 256)).toList = some (bits.toNat / 2 ^ shift % 256) :=
  (byteText ⟨_, Nat.mod_lt _ (by decide)⟩).part

theorem text_toList (bits : BitVec 32) : (IPv4.text bits).toList = ['.'].intercalate (quad bits) := by
  rw [IPv4.text, String.toList_intercalate]
  rfl

theorem splitOn_text (bits : BitVec 32) : (IPv4.text bits).toList.splitOn '.' = quad bits := by
  rw [text_toList, List.splitOn_intercalate]
  · intro label member
    obtain ⟨value, byte⟩ := quad_byteText member
    exact byte.plain.1
  · exact List.cons_ne_nil _ _

theorem labels_text (bits : BitVec 32) : Ipv4.labels (IPv4.text bits).toList = quad bits := by
  have shape : quad bits = (quad bits).dropLast ++ [(toString (bits.toNat / 2 ^ 0 % 256)).toList] := rfl
  have byte : ByteText _ (toString (bits.toNat / 2 ^ 0 % 256)).toList := byteText ⟨_, Nat.mod_lt _ (by decide)⟩
  rw [labels_of_last ((splitOn_text bits).trans shape) (isNumberLabel_ne_nil byte.number), ← shape]

/-- No address ends with a dot. -/
theorem text_undotted (bits : BitVec 32) : (IPv4.text bits).toList.getLast? ≠ some '.' := by
  intro dotted
  have cut := splitOn_text bits
  rw [← List.dropLast_append_getLast? _ dotted, List.splitOn_append_cons_self] at cut
  have byte : ByteText _ (toString (bits.toNat / 2 ^ 0 % 256)).toList := byteText ⟨_, Nat.mod_lt _ (by decide)⟩
  have last := congrArg List.getLast? cut
  rw [List.splitOn_nil, List.getLast?_concat] at last
  exact isNumberLabel_ne_nil byte.number (Option.some.inj last).symm

/-- The canonical text of an address is the text of that address. -/
theorem ofLabels_quad (bits : BitVec 32) : Ipv4.ofLabels (quad bits) = some bits := by
  have parts : (quad bits).mapM Ipv4.part = some ([24, 16, 8, 0].map fun shift => bits.toNat / 2 ^ shift % 256) := by
    simp only [quad, List.map_cons, List.map_nil, List.mapM_cons, List.mapM_nil, quad_part]
    rfl
  rw [Ipv4.ofLabels, parts]
  have bound := bits.isLt
  have value : Nat.ofDigits 256 [bits.toNat / 2 ^ 24 % 256, bits.toNat / 2 ^ 16 % 256,
      bits.toNat / 2 ^ 8 % 256].reverse * 256 ^ 1 + bits.toNat / 2 ^ 0 % 256 = bits.toNat := by
    simp [Nat.ofDigits]
    omega
  change Ipv4.address [bits.toNat / 2 ^ 24 % 256, bits.toNat / 2 ^ 16 % 256, bits.toNat / 2 ^ 8 % 256]
    (bits.toNat / 2 ^ 0 % 256) = _
  rw [Ipv4.address, if_pos]
  · have same : BitVec.ofNat 32 bits.toNat = bits := by simp
    exact congrArg some ((congrArg (BitVec.ofNat 32) value).trans same)
  · refine ⟨(by decide : 3 < 4), ?_, Nat.mod_lt _ (by decide)⟩
    intro v member
    simp only [List.mem_cons, List.not_mem_nil, or_false] at member
    rcases member with rfl | rfl | rfl <;> exact Nat.mod_lt _ (by decide)

/-- The rest of `parse_ip_literal`, once the number is known. -/
def canonical (text : String) (ip : BitVec 32) : Except Refusal (Option IpAddress) := do
  ensure (forbiddenReasonV4 ip ≠ none ∨ IPv4.text ip = text) (.policyBlocked "host_noncanonical_ip")
  return some (.v4 ip)

theorem canonical_eq (text : String) (ip : BitVec 32) : canonical text ip =
    if forbiddenReasonV4 ip ≠ none ∨ IPv4.text ip = text then .ok (some (.v4 ip))
    else .error (.policyBlocked "host_noncanonical_ip") := by
  by_cases kept : forbiddenReasonV4 ip ≠ none ∨ IPv4.text ip = text
  · rw [canonical, decide_eq_true kept, if_pos kept]
    rfl
  · rw [canonical, decide_eq_false kept, if_neg kept]
    rfl

theorem readLikeAton_iff {host : String} : ReadLikeAton ipAddress host ↔ ¬Misread host := by
  unfold ReadLikeAton Misread
  cases numeric : isNumericHost host with
  | false => simp
  | true =>
    have number := numeric
    rw [isNumericHost, Bool.and_eq_true] at number
    have same : bare host = host.toList := by
      rw [← bare_of_numeric number.2, String.ofList_toList]
    rw [parseIpLiteral_numeric same numeric]
    by_cases countable : Countable (Ipv4.labels host.toList)
    swap
    · rw [parseIpv4Number_uncountable countable]
      exact ⟨fun _ misread => countable misread.2.1, fun _ _ => .inl ⟨_, rfl⟩⟩
    cases first : stop (Ipv4.labels host.toList) with
    | some label =>
      have refused := List.find?_some first
      rw [Bool.or_eq_true] at refused
      cases unread : isUnread label with
      | true =>
        rw [parseIpv4Number_stops countable first (readPart_unread unread)]
        refine ⟨fun read => ?_, fun kept => absurd ⟨rfl, countable, unread⟩ kept⟩
        rcases read rfl with ⟨code, same⟩ | ⟨bits, _, same⟩ <;> cases same
      | false =>
        have bad := refused.resolve_right (by simp [unread])
        rw [parseIpv4Number_stops countable first (readPart_badOctal bad)]
        exact ⟨fun _ misread => absurd (unread.symm.trans misread.2.2) (by decide), fun _ _ => .inl ⟨_, rfl⟩⟩
    | none =>
      rw [parseIpv4Number_of_reads countable first]
      cases found : Ipv4.ofLabels ((Ipv4.labels host.toList).map chomp) with
      | none =>
        refine ⟨fun _ misread => ?_, fun _ _ => .inl ⟨_, rfl⟩⟩
        obtain ⟨_, _, _, bits, some, _⟩ := misread
        cases some
      | some bits =>
        change (true = true → (∃ code, canonical host bits = _) ∨ ∃ ip, _ ∧ canonical host bits = _) ↔ _
        rw [canonical_eq]
        by_cases hidden : ∃ label ∈ Ipv4.labels host.toList, '\n' ∈ label
        · -- behind a newline a text is not canonical, and the parser knows no such text
          have unknown := parse_newline hidden
          have other : IPv4.text bits ≠ host := by
            rintro rfl
            rw [Ipv4.parse, labels_text, ofLabels_quad] at unknown
            cases unknown
          by_cases forbidden : forbiddenReasonV4 bits ≠ none
          · rw [if_pos (.inl forbidden)]
            refine ⟨fun read => ?_, fun kept => absurd ⟨rfl, countable, hidden, bits, rfl, forbidden⟩ kept⟩
            rcases read rfl with ⟨code, same⟩ | ⟨ip, known, _⟩
            · cases same
            · rw [unknown] at known
              cases known
          · rw [if_neg fun either => either.elim forbidden other]
            refine ⟨fun _ misread => ?_, fun _ _ => .inl ⟨_, rfl⟩⟩
            obtain ⟨_, _, _, ip, same, reason⟩ := misread
            cases same
            exact forbidden reason
        · rw [map_chomp hidden] at found
          refine ⟨fun _ misread => hidden misread.2.2.1, fun _ _ => ?_⟩
          split
          · exact .inr ⟨bits, found, rfl⟩
          · exact .inl ⟨_, rfl⟩

end Literals

section Resolving

/-- What the resolver's part of the fetch returns an address for. -/
def ResolvesOnlyAllowed (tools : FetchTools) (host : String) (port : Nat) : Prop :=
  ∀ s past address s', (SafeFetcher.resolvePinned tools host port s).Run past (.done (.ok address, s')) →
    forbiddenReason address = none ∧
      (parseIpLiteral tools.ipAddress host = .ok none → ∃ answers,
        past = [⟨.resolve host port, .ok answers⟩] ∧
          ∀ answer ∈ answers, ∃ ip, tools.ipAddress answer = some ip ∧ forbiddenReason ip = none) ∧
      ∀ bits, parseIpLiteral tools.ipAddress host = .ok (some (.v4 bits)) → host = IPv4.text bits

/-- The canonical text of an allowed address, in the brackets of an IPv6 literal. -/
def BracketedQuad (host : String) : Prop :=
  ∃ bits, forbiddenReasonV4 bits = none ∧ host = "[" ++ IPv4.text bits ++ "]"

variable {ipAddress : String → Option IpAddress} {host : String}

theorem bare_cases (host : String) :
    bare host = host.toList ∨ host = "[" ++ String.ofList (bare host) ++ "]" := by
  unfold bare
  dsimp only
  split
  · next bracketed =>
    right
    apply String.toList_inj.mp
    rw [String.toList_append, String.toList_append, String.toList_ofList]
    match text : host.toList, bracketed with
    | [c], bracketed =>
      simp only [List.head?_cons, List.getLast?_singleton, Option.some.injEq] at bracketed
      exact absurd (bracketed.1.symm.trans bracketed.2) (by decide)
    | a :: b :: rest, bracketed =>
      rw [List.head?_cons, Option.some.injEq] at bracketed
      rw [bracketed.1, List.drop_one, List.tail_cons]
      have closes : (b :: rest).getLast? = some ']' := by
        rw [← bracketed.2, List.getLast?_cons_cons]
      rw [String.toList_ofList, List.append_assoc]
      exact congrArg (List.cons '[') (List.dropLast_append_getLast? _ closes).symm
  · exact .inl rfl

theorem bare_bracketed (text : String) : bare ("[" ++ text ++ "]") = text.toList := by
  rw [bare, String.toList_append, String.toList_append, if_pos]
  · change (text.toList ++ [']']).dropLast = _
    rw [List.dropLast_concat]
  · refine ⟨rfl, ?_⟩
    change ('[' :: text.toList ++ [']']).getLast? = _
    rw [List.getLast?_concat]

theorem colon_unescapePercent {text : List Char} (colon : ':' ∈ text) : ':' ∈ unescapePercent text := by
  fun_induction unescapePercent text with
  | case1 rest ih =>
    simp only [List.mem_cons] at colon ⊢
    simpa using ih (by simpa using colon)
  | case2 c rest _ ih =>
    rcases List.mem_cons.mp colon with rfl | later
    · exact List.mem_cons_self
    · exact List.mem_cons_of_mem _ (ih later)
  | case3 => exact colon

/-- A literal without a colon is an IPv4 address, and an allowed one is written canonically. -/
theorem parseIpLiteral_plain {ip : IpAddress} (plain : ':' ∉ bare host)
    (parsed : parseIpLiteral ipAddress host = .ok (some ip)) (allowed : forbiddenReason ip = none) :
    ∃ bits, ip = .v4 bits ∧ bare host = (IPv4.text bits).toList := by
  rw [parseIpLiteral] at parsed
  dsimp only at parsed
  rw [if_neg plain] at parsed
  split at parsed
  · cases parsed
  · rw [Except.bind_eq_ok] at parsed
    obtain ⟨bits, _, read⟩ := parsed
    change canonical (String.ofList (bare host)) bits = _ at read
    rw [canonical_eq] at read
    split at read
    · next kept =>
      cases read
      refine ⟨bits, rfl, ?_⟩
      rw [kept.resolve_left fun forbidden => forbidden allowed, String.toList_ofList]
    · cases read

theorem parseIpLiteral_canonical
    (noColon : ∀ text bits, ipAddress text = some (.v4 bits) → ':' ∉ text.toList) {bits : BitVec 32}
    (parsed : parseIpLiteral ipAddress host = .ok (some (.v4 bits))) (allowed : forbiddenReasonV4 bits = none) :
    bare host = (IPv4.text bits).toList := by
  by_cases colon : ':' ∈ bare host
  · rw [parseIpLiteral] at parsed
    dsimp only at parsed
    rw [if_pos colon] at parsed
    cases found : ipAddress (String.ofList (unescapePercent (bare host))) with
    | none =>
      rw [found] at parsed
      cases parsed
    | some ip =>
      rw [found] at parsed
      cases parsed
      have free := noColon _ _ found
      rw [String.toList_ofList] at free
      exact absurd (colon_unescapePercent colon) free
  · obtain ⟨_, same, text⟩ := parseIpLiteral_plain colon parsed allowed
    cases same
    exact text

theorem stop_quad (bits : BitVec 32) : stop (quad bits) = none := by
  rw [stop, List.find?_eq_none]
  intro label member
  obtain ⟨value, byte⟩ := quad_byteText member
  rw [byte.kept]
  exact Bool.false_ne_true

theorem countable_quad (bits : BitVec 32) : Countable (quad bits) := by
  refine ⟨(by decide : 1 ≤ 4), (by decide : 4 ≤ 4), List.all_eq_true.mpr fun label member => ?_⟩
  obtain ⟨value, byte⟩ := quad_byteText member
  exact isNumericLabel_of_number byte.number

theorem colon_not_mem_text (bits : BitVec 32) : ':' ∉ (IPv4.text bits).toList := by
  have each (shift : Nat) : ':' ∉ (toString (bits.toNat / 2 ^ shift % 256)).toList :=
    (byteText ⟨_, Nat.mod_lt _ (by decide)⟩).plain.2
  rw [text_toList]
  simp only [quad, List.map_cons, List.map_nil, List.intercalate_cons_cons, List.intercalate_singleton,
    List.mem_append, List.mem_singleton, each, false_or, or_false]
  decide

theorem isNumericHost_text (bits : BitVec 32) : isNumericHost (IPv4.text bits) = true := by
  have last : (quad bits).getLastD [] = (toString (bits.toNat / 2 ^ 0 % 256)).toList := rfl
  have byte : ByteText _ (toString (bits.toNat / 2 ^ 0 % 256)).toList := byteText ⟨_, Nat.mod_lt _ (by decide)⟩
  rw [isNumericHost, labels_text, last, byte.number, decide_eq_false (colon_not_mem_text bits)]
  rfl

theorem parseIpv4Number_text (bits : BitVec 32) : parseIpv4Number (IPv4.text bits) = .ok bits := by
  have free : ¬∃ label ∈ quad bits, '\n' ∈ label := by
    rintro ⟨label, member, newline⟩
    obtain ⟨value, byte⟩ := quad_byteText member
    exact not_mem_number byte.number (by decide) (by decide) newline
  have labels := labels_text bits
  rw [parseIpv4Number_of_reads (labels ▸ countable_quad bits) (labels ▸ stop_quad bits), labels, map_chomp free,
    ofLabels_quad]
  rfl

theorem parseIpLiteral_bracketed (ipAddress : String → Option IpAddress) (bits : BitVec 32) :
    parseIpLiteral ipAddress ("[" ++ IPv4.text bits ++ "]") = .ok (some (.v4 bits)) := by
  rw [parseIpLiteral_numeric (bare_bracketed _) (isNumericHost_text bits), parseIpv4Number_text]
  exact (canonical_eq _ _).trans (if_pos (.inr rfl))

/-- Every answer of the resolver is an allowed address. -/
theorem pinAnswer_all {answers : List String} {ip : IpAddress}
    (pinned : pinAnswer ipAddress answers = .ok (some ip)) :
    ∀ answer ∈ answers, ∃ ip, ipAddress answer = some ip ∧ forbiddenReason ip = none := by
  rw [pinAnswer, Except.bind_eq_ok] at pinned
  obtain ⟨addresses, read, rest⟩ := pinned
  rw [Except.bind_eq_ok] at rest
  obtain ⟨_, checked, _⟩ := rest
  have allowed := forM_requireAllowed checked
  rw [require_eq_ok] at read
  intro answer member
  obtain ⟨ip, found, same⟩ := Ipv4.mem_of_mapM read member
  exact ⟨ip, same, allowed ip found⟩

theorem parse_of_resolveLiteral {tools : UrlTools} {literal : Option IpAddress}
    (resolved : resolveLiteral tools ipAddress host = .ok literal) :
    parseIpLiteral ipAddress host = .ok literal := by
  rw [resolveLiteral, Except.bind_eq_ok] at resolved
  obtain ⟨found, parsed, rest⟩ := resolved
  cases found with
  | none =>
    rw [Except.bind_eq_ok] at rest
    obtain ⟨_, _, same⟩ := rest
    cases same
    exact parsed
  | some ip =>
    rw [Except.bind_eq_ok] at rest
    obtain ⟨_, _, same⟩ := rest
    cases same
    exact parsed

theorem resolvePinned_allowed {tools : FetchTools} {port : Nat}
    (noColon : ∀ text bits, tools.ipAddress text = some (.v4 bits) → ':' ∉ text.toList)
    (plain : ¬BracketedQuad host) : ResolvesOnlyAllowed tools host port := by
  intro s past address s' run
  have safe : (SafeFetcher.resolvePinned tools host port).Safe (fun _ _ => True) (fun past r _ =>
      ∀ address, r = .ok address → forbiddenReason address = none ∧
        (resolveLiteral tools.toUrlTools tools.ipAddress host = .ok (some address) ∨
          ∃ answers, past = [⟨.resolve host port, .ok answers⟩] ∧
            resolveLiteral tools.toUrlTools tools.ipAddress host = .ok none ∧
            ∀ answer ∈ answers, ∃ ip, tools.ipAddress answer = some ip ∧ forbiddenReason ip = none)) [] s := by
    rw [SafeFetcher.resolvePinned]
    apply Act.safe_ofExcept
    · rintro _ _ _ ⟨⟩
    intro literal resolved
    rw [Except.mapError_eq_ok] at resolved
    cases literal with
    | some ip =>
      intro address same
      cases same
      exact ⟨resolveLiteral_allowed resolved, .inl resolved⟩
    | none =>
      rw [Act.safe_ask]
      refine ⟨trivial, fun answer => ?_⟩
      apply Act.safe_ofExcept
      · rintro _ _ _ ⟨⟩
      intro answers answered
      rw [Except.mapError_eq_ok] at answered
      subst answered
      split
      · rintro _ ⟨⟩
      apply Act.safe_ofExcept
      · rintro _ _ _ ⟨⟩
      intro pinned answer
      rw [Except.mapError_eq_ok] at answer
      cases pinned with
      | none => rintro _ ⟨⟩
      | some ip =>
        intro address same
        cases same
        exact ⟨pinAnswer_allowed answer, .inr ⟨answers, rfl, resolved, pinAnswer_all answer⟩⟩
  obtain ⟨allowed, source⟩ := Script.Safe.run safe run address rfl
  refine ⟨allowed, fun name => ?_, fun bits literal => ?_⟩
  · rcases source with resolved | ⟨answers, asked, _, all⟩
    · rw [parse_of_resolveLiteral resolved] at name
      cases name
    · exact ⟨answers, asked, all⟩
  · rcases source with resolved | ⟨_, _, resolved, _⟩
    · have same := parse_of_resolveLiteral resolved
      rw [literal] at same
      cases same
      have text := parseIpLiteral_canonical noColon literal allowed
      rcases bare_cases host with whole | bracketed
      · exact String.toList_inj.mp (whole.symm.trans text)
      · rw [text, String.ofList_toList] at bracketed
        exact absurd ⟨bits, allowed, bracketed⟩ plain
    · have same := parse_of_resolveLiteral resolved
      rw [literal] at same
      cases same

theorem resolvesOnlyAllowed_iff {tools : FetchTools} {port : Nat}
    (noColon : ∀ text bits, tools.ipAddress text = some (.v4 bits) → ':' ∉ text.toList) :
    ResolvesOnlyAllowed tools host port ↔ ¬BracketedQuad host := by
  refine ⟨?_, resolvePinned_allowed noColon⟩
  rintro only ⟨bits, allowed, rfl⟩
  have literal := parseIpLiteral_bracketed tools.ipAddress bits
  have resolved : resolveLiteral tools.toUrlTools tools.ipAddress ("[" ++ IPv4.text bits ++ "]") =
      .ok (some (.v4 bits)) := by
    rw [resolveLiteral, literal, Except.bind_eq_ok]
    exact ⟨_, rfl, Except.bind_eq_ok.mpr ⟨(), requireAllowed_eq_ok.mpr allowed, rfl⟩⟩
  have run : (SafeFetcher.resolvePinned tools ("[" ++ IPv4.text bits ++ "]") port {}).Run []
      (.done (.ok (.v4 bits), {})) := by
    rw [SafeFetcher.resolvePinned, resolved]
    exact .nil
  have written := (only {} [] _ _ run).2.2 bits literal
  have length := congrArg (fun text => text.toList.length) written
  simp at length
  omega

end Resolving

/-- A numeric host is refused or read as the parser of IPv4 texts reads it, and an address is only
returned if it and every answer are allowed and an IPv4 literal is canonical: for all hosts but
those that are misread and the canonical texts in brackets. -/
theorem numeric_hosts_read_iff (tools : FetchTools)
    (noColon : ∀ text bits, tools.ipAddress text = some (.v4 bits) → ':' ∉ text.toList) (host : String)
    (port : Nat) : ReadLikeAton tools.ipAddress host ∧ ResolvesOnlyAllowed tools host port ↔
      ¬Misread host ∧ ¬BracketedQuad host :=
  and_congr readLikeAton_iff (resolvesOnlyAllowed_iff noColon)

theorem sampleTools_noColon (text : String) (bits : BitVec 32)
    (read : sampleTools.ipAddress text = some (.v4 bits)) : ':' ∉ text.toList := by
  simp only [sampleTools] at read
  split at read
  · next same =>
    rw [same]
    decide
  · cases read

theorem short_hex_read : ReadLikeAton sampleTools.ipAddress "0x7f.1" ∧
    ResolvesOnlyAllowed sampleTools "0x7f.1" 80 := by
  refine (numeric_hosts_read_iff sampleTools sampleTools_noColon "0x7f.1" 80).mpr ⟨?_, ?_⟩
  · rintro ⟨_, _, misread⟩
    have free : stop (Ipv4.labels "0x7f.1".toList) = none := by decide +kernel
    have plain : ∀ label ∈ Ipv4.labels "0x7f.1".toList, '\n' ∉ label := by decide +kernel
    rw [free] at misread
    obtain ⟨⟨label, member, newline⟩, _⟩ := misread
    exact plain label member newline
  · rintro ⟨bits, _, same⟩
    have first := congrArg (fun text => text.toList.head?) same
    simp at first

/-- More nines than Python reads. -/
theorem misread_nines {n : Nat} (long : 4300 < n) : Misread (String.ofList (List.replicate n '9')) := by
  have nonempty : List.replicate n '9' ≠ [] := by
    simp
    omega
  have whole : (List.replicate n '9').splitOn '.' = [] ++ [List.replicate n '9'] := by
    apply List.splitOn_eq_singleton
    simp
  have labels : Ipv4.labels (List.replicate n '9') = [List.replicate n '9'] := labels_of_last whole nonempty
  have notHex : isHexLabel (List.replicate n '9') = false := by
    have two : (List.replicate n '9').take 2 = ['9', '9'] := by
      rw [List.take_replicate, Nat.min_eq_left (by omega)]
      rfl
    rw [isHexLabel, two]
    decide
  have notOctal : isOctalLabel (List.replicate n '9') = false := by
    rw [isOctalLabel, notHex, List.head?_replicate, if_neg (by omega)]
    simp
  have number : isNumberLabel (List.replicate n '9') = true := by
    rw [isNumberLabel, notHex]
    simp
    omega
  have unread : isUnread (List.replicate n '9') = true := by
    rw [isUnread, notHex, notOctal, chomp_of_not_mem (by simp)]
    simpa using long
  have first : stop [List.replicate n '9'] = some (List.replicate n '9') := by
    rw [stop, List.find?_cons_of_pos (by rw [unread, Bool.or_true])]
  refine ⟨?_, ?_⟩
  · rw [isNumericHost, String.toList_ofList, labels]
    simp [number]
  · rw [String.toList_ofList, labels]
    refine ⟨⟨(by decide : 1 ≤ 1), (by decide : 1 ≤ 4), ?_⟩, ?_⟩
    · rw [List.all_cons, isNumericLabel_of_number number]
      rfl
    · rw [first]
      exact unread

/-- A host of 4301 nines is neither refused nor read. -/
theorem nines_not_refused : ¬(ReadLikeAton sampleTools.ipAddress (String.ofList (List.replicate 4301 '9')) ∧
    ResolvesOnlyAllowed sampleTools (String.ofList (List.replicate 4301 '9')) 80) :=
  fun both => readLikeAton_iff.mp both.1 (misread_nines (by decide))

end Collector.Fetch
