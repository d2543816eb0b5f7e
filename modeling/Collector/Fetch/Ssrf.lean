import Collector.Fetch.Urls

/-!
The SSRF classifier: numeric forms of a host, forbidden names and addresses, and the address a
connection is pinned to. The networks are those of `ipaddress` in Python 3.13, where an IPv6
address that maps an IPv4 address is judged as that address.
-/

namespace Collector.Fetch
open Collector.Lib

/-- `IPv4Address | IPv6Address`. -/
inductive IpAddress where
  | v4 (bits : BitVec 32)
  | v6 (bits : BitVec 128) (scopeId : Option String)
  deriving DecidableEq, Repr

/-- `address in network`, for a network given by its first address and its prefix. -/
def inNetwork {w : Nat} (bits : BitVec w) (network : BitVec w × Nat) : Bool :=
  bits >>> (w - network.2) == network.1 >>> (w - network.2)

def ipv4 (a b c d : Nat) : BitVec 32 := BitVec.ofNat 32 (a * 2 ^ 24 + b * 2 ^ 16 + c * 2 ^ 8 + d)

/-- The first `hextets` of an address, followed by zeros. -/
def ipv6 (hextets : List Nat) : BitVec 128 :=
  BitVec.ofNat 128 ((List.range 8).foldl (fun sum i => sum * 2 ^ 16 + hextets.getD i 0) 0)

namespace IPv4
variable (bits : BitVec 32)

def privateNetworks : List (BitVec 32 × Nat) :=
  [(ipv4 0 0 0 0, 8), (ipv4 10 0 0 0, 8), (ipv4 127 0 0 0, 8), (ipv4 169 254 0 0, 16),
    (ipv4 172 16 0 0, 12), (ipv4 192 0 0 0, 24), (ipv4 192 0 0 170, 31), (ipv4 192 0 2 0, 24),
    (ipv4 192 168 0 0, 16), (ipv4 198 18 0 0, 15), (ipv4 198 51 100 0, 24),
    (ipv4 203 0 113 0, 24), (ipv4 240 0 0 0, 4), (ipv4 255 255 255 255, 32)]

def isUnspecified : Bool := bits == 0

def isLoopback : Bool := inNetwork bits (ipv4 127 0 0 0, 8)

def isLinkLocal : Bool := inNetwork bits (ipv4 169 254 0 0, 16)

def isMulticast : Bool := inNetwork bits (ipv4 224 0 0 0, 4)

def isReserved : Bool := inNetwork bits (ipv4 240 0 0 0, 4)

def isPrivate : Bool :=
  privateNetworks.any (inNetwork bits) &&
    [(ipv4 192 0 0 9, 32), (ipv4 192 0 0 10, 32)].all fun network => !inNetwork bits network

def isGlobal : Bool := !inNetwork bits (ipv4 100 64 0 0, 10) && !isPrivate bits

/-- `str(ip)`. -/
def text : String :=
  ".".intercalate ([24, 16, 8, 0].map fun shift => toString (bits.toNat / 2 ^ shift % 256))

end IPv4

namespace IPv6
variable (bits : BitVec 128)

/-- `ip.ipv4_mapped`. -/
def ipv4Mapped : Option (BitVec 32) :=
  if bits >>> 32 = 0xffff then some (bits.setWidth 32) else none

/-- `ip.sixtofour`. -/
def sixtofour : Option (BitVec 32) :=
  if bits >>> 112 = 0x2002 then some ((bits >>> 80).setWidth 32) else none

def privateNetworks : List (BitVec 128 × Nat) :=
  [(ipv6 [0, 0, 0, 0, 0, 0, 0, 1], 128), (ipv6 [], 128), (ipv6 [0, 0, 0, 0, 0, 0xffff], 96),
    (ipv6 [0x64, 0xff9b, 1], 48), (ipv6 [0x100], 64), (ipv6 [0x2001], 23),
    (ipv6 [0x2001, 0xdb8], 32), (ipv6 [0x2002], 16), (ipv6 [0x3fff], 20), (ipv6 [0xfc00], 7),
    (ipv6 [0xfe80], 10)]

def privateExceptions : List (BitVec 128 × Nat) :=
  [(ipv6 [0x2001, 1, 0, 0, 0, 0, 0, 1], 128), (ipv6 [0x2001, 1, 0, 0, 0, 0, 0, 2], 128),
    (ipv6 [0x2001, 3], 32), (ipv6 [0x2001, 4, 0x112], 48), (ipv6 [0x2001, 0x20], 28),
    (ipv6 [0x2001, 0x30], 28)]

def reservedNetworks : List (BitVec 128 × Nat) :=
  [(ipv6 [], 8), (ipv6 [0x100], 8), (ipv6 [0x200], 7), (ipv6 [0x400], 6), (ipv6 [0x800], 5),
    (ipv6 [0x1000], 4), (ipv6 [0x4000], 3), (ipv6 [0x6000], 3), (ipv6 [0x8000], 3),
    (ipv6 [0xa000], 3), (ipv6 [0xc000], 3), (ipv6 [0xe000], 4), (ipv6 [0xf000], 5),
    (ipv6 [0xf800], 6), (ipv6 [0xfe00], 9)]

/-- A property of the mapped IPv4 address, if there is one. -/
def mapped (ofIPv4 : BitVec 32 → Bool) (own : Bool) : Bool :=
  match ipv4Mapped bits with
  | some embedded => ofIPv4 embedded
  | none => own

def isUnspecified : Bool := mapped bits IPv4.isUnspecified (bits == 0)

def isLoopback : Bool := mapped bits IPv4.isLoopback (bits == 1)

def isLinkLocal : Bool := mapped bits IPv4.isLinkLocal (inNetwork bits (ipv6 [0xfe80], 10))

def isMulticast : Bool := mapped bits IPv4.isMulticast (inNetwork bits (ipv6 [0xff00], 8))

def isReserved : Bool := mapped bits IPv4.isReserved (reservedNetworks.any (inNetwork bits))

def isPrivate : Bool :=
  mapped bits IPv4.isPrivate (privateNetworks.any (inNetwork bits) &&
    privateExceptions.all fun network => !inNetwork bits network)

def isGlobal : Bool := mapped bits IPv4.isGlobal (!isPrivate bits)

end IPv6

/-- The checks that end `forbidden_reason`, in their order. -/
def firstReason (unspecified loopback linkLocal multicast isPrivate reserved isGlobal : Bool) :
    Option String :=
  ([(unspecified, "unspecified"), (loopback, "loopback"), (linkLocal, "link-local"),
    (multicast, "multicast"), (isPrivate, "private"), (reserved, "reserved"),
    (!isGlobal, "not global")].find? Prod.fst).map Prod.snd

def forbiddenReasonV4 (bits : BitVec 32) : Option String :=
  if bits = ipv4 169 254 169 254 then some "cloud metadata"
  else firstReason (IPv4.isUnspecified bits) (IPv4.isLoopback bits) (IPv4.isLinkLocal bits)
    (IPv4.isMulticast bits) (IPv4.isPrivate bits) (IPv4.isReserved bits) (IPv4.isGlobal bits)

/-- The IPv4 address inside an IPv6 one: mapped, 6to4, or behind NAT64. -/
def embeddedIPv4 (bits : BitVec 128) : Option (BitVec 32) :=
  if inNetwork bits (ipv6 [0x64, 0xff9b], 96) then some (bits.setWidth 32)
  else (IPv6.ipv4Mapped bits).or (IPv6.sixtofour bits)

def forbiddenReasonV6 (bits : BitVec 128) (scopeId : Option String) : Option String :=
  if bits = ipv6 [0xfd00, 0xec2, 0, 0, 0, 0, 0, 0x254] ∧ scopeId = none then some "cloud metadata"
  else
    match (embeddedIPv4 bits).bind fun inner => (forbiddenReasonV4 inner).map (inner, ·) with
    | some (inner, reason) => some ("embedded IPv4 " ++ IPv4.text inner ++ ": " ++ reason)
    | none =>
      if inNetwork bits (ipv6 [], 96) then some "IPv4-compatible IPv6"
      else if scopeId.any (· ≠ "") then some "scoped IPv6"
      else firstReason (IPv6.isUnspecified bits) (IPv6.isLoopback bits) (IPv6.isLinkLocal bits)
        (IPv6.isMulticast bits) (IPv6.isPrivate bits) (IPv6.isReserved bits) (IPv6.isGlobal bits)

/-- `forbidden_reason`. -/
def forbiddenReason : IpAddress → Option String
  | .v4 bits => forbiddenReasonV4 bits
  | .v6 bits scopeId => forbiddenReasonV6 bits scopeId

example : [forbiddenReason (.v4 (ipv4 93 184 216 34)), forbiddenReason (.v4 (ipv4 100 64 0 1)),
    forbiddenReason (.v6 (ipv6 [0, 0, 0, 0, 0, 0xffff, 0x7f00, 1]) none)] =
    [none, some "not global", some "embedded IPv4 127.0.0.1: loopback"] := by decide +kernel

/-- A refusal with its code, or a `ValueError` that nobody expects. -/
inductive Refusal where
  | policyBlocked (code : String)
  | valueError
  deriving DecidableEq, Repr

def digitValue (c : Char) : Nat :=
  if c.isDigit then c.toNat - '0'.toNat
  else if 'a'.toNat ≤ c.toNat then c.toNat - 'a'.toNat + 10 else c.toNat - 'A'.toNat + 10

def isHexDigit (c : Char) : Bool :=
  c.isDigit || decide ('a' ≤ c ∧ c ≤ 'f') || decide ('A' ≤ c ∧ c ≤ 'F')

/-- The text that `$` leaves: a newline at the end is not looked at. -/
def chomp (label : List Char) : List Char :=
  if label.getLast? = some '\n' then label.dropLast else label

/-- The two hex prefixes, `0x` and `0X`. -/
def isHexLabel (label : List Char) : Bool := label.take 2 ∈ [['0', 'x'], ['0', 'X']]

/-- `_NUMERIC_LABEL`. -/
def isNumericLabel (label : List Char) : Bool :=
  let text := chomp label
  if isHexLabel text then (text.drop 2).all isHexDigit else !text.isEmpty && text.all Char.isDigit

/-- `int(text, base)` for digits of that base; Python reads no more than 4300 decimal digits. -/
def readDigits (base : Nat) (label : List Char) : Except Refusal Nat :=
  let text := chomp label
  if text.isEmpty ∨ base = 10 ∧ 4300 < text.length then .error .valueError
  else .ok (text.foldl (fun sum c => sum * base + digitValue c) 0)

/-- One part of a numeric host. -/
def readPart (label : List Char) : Except Refusal Nat :=
  if isHexLabel label then
    readDigits 16 (if label.drop 2 = [] then ['0'] else label.drop 2)
  else if 1 < label.length ∧ label.head? = some '0' then do
    ensure (label.all fun c => decide ('0' ≤ c ∧ c ≤ '7')) (.policyBlocked "url_invalid")
    readDigits 8 label
  else readDigits 10 label

/-- `_parse_ipv4_number`. -/
def parseIpv4Number (host : String) : Except Refusal (BitVec 32) := do
  let labels := host.toList.splitOn '.'
  let parts := if labels.getLast? = some [] then labels.dropLast else labels
  ensure (decide (1 ≤ parts.length ∧ parts.length ≤ 4) && parts.all isNumericLabel)
    (.policyBlocked "url_invalid")
  let values ← parts.mapM readPart
  let head := values.dropLast
  let last := values.getLastD 0
  ensure (head.all (· ≤ 255) && decide (last < 256 ^ (5 - values.length))) (.policyBlocked "url_invalid")
  let number := (head.zipIdx.map fun (value, index) => value * 2 ^ (8 * (3 - index))).sum + last
  return BitVec.ofNat 32 number

example : parseIpv4Number "0x7f.1" = .ok (ipv4 127 0 0 1) ∧
    parseIpv4Number "2130706433" = .ok (ipv4 127 0 0 1) ∧
    parseIpv4Number "256.1" = .error (.policyBlocked "url_invalid") := by decide +kernel

/-- `text.replace("%25", "%")`. -/
def unescapePercent : List Char → List Char
  | '%' :: '2' :: '5' :: rest => '%' :: unescapePercent rest
  | c :: rest => c :: unescapePercent rest
  | [] => []

/-- Without the brackets of an IPv6 literal. -/
def bare (host : String) : List Char :=
  let text := host.toList
  if text.head? = some '[' ∧ text.getLast? = some ']' then (text.drop 1).dropLast else text

section
variable (tools : UrlTools) (ipAddress : String → Option IpAddress)

/-- `parse_ip_literal`: `none` for a name. -/
def parseIpLiteral (host : String) : Except Refusal (Option IpAddress) := do
  let text := bare host
  if ':' ∈ text then
    some <$> require (ipAddress (String.ofList (unescapePercent text))) (.policyBlocked "url_invalid")
  else
    let labels := (text.reverse.dropWhile (· = '.')).reverse.splitOn '.'
    if !isNumericLabel (labels.getLastD []) then return none
    let ip ← parseIpv4Number (String.ofList text)
    ensure (forbiddenReasonV4 ip ≠ none ∨ IPv4.text ip = String.ofList text)
      (.policyBlocked "host_noncanonical_ip")
    return some (.v4 ip)

/-- `check_host_name`. -/
def checkHostName (host : String) : Except Refusal Unit := do
  let lowered := (tools.lower host).toList
  ensure (lowered.getLast? ≠ some '.') (.policyBlocked "ssrf_forbidden_host")
  ensure (String.ofList lowered ≠ "localhost" ∧ ¬ ".localhost".toList.isSuffixOf lowered)
    (.policyBlocked "ssrf_forbidden_host")

/-- `_require_allowed`. -/
def requireAllowed (ip : IpAddress) : Except Refusal Unit :=
  ensure (forbiddenReason ip = none) (.policyBlocked "ssrf_forbidden_address")

/-- `resolve_pinned` up to its question to the resolver: the literal, or `none` for a name that
may be looked up. -/
def resolveLiteral (host : String) : Except Refusal (Option IpAddress) := do
  match ← parseIpLiteral ipAddress host with
  | some literal =>
    requireAllowed literal
    return some literal
  | none =>
    checkHostName tools host
    return none

/-- `resolve_pinned` after the resolver's answer, which is not empty. -/
def pinAnswer (answers : List String) : Except Refusal (Option IpAddress) := do
  let addresses ← require (answers.mapM ipAddress) (.policyBlocked "ssrf_forbidden_address")
  addresses.forM requireAllowed
  return addresses.head?

end

theorem requireAllowed_eq_ok {ip : IpAddress} : requireAllowed ip = .ok () ↔ forbiddenReason ip = none := by
  simp [requireAllowed]

theorem resolveLiteral_allowed {tools : UrlTools} {ipAddress : String → Option IpAddress} {host : String}
    {ip : IpAddress} (resolved : resolveLiteral tools ipAddress host = .ok (some ip)) :
    forbiddenReason ip = none := by
  simp only [resolveLiteral, Except.bind_eq_ok] at resolved
  obtain ⟨literal, _, rest⟩ := resolved
  cases literal with
  | none =>
    simp only [Except.bind_eq_ok] at rest
    obtain ⟨_, _, same⟩ := rest
    cases same
  | some literal =>
    simp only [Except.bind_eq_ok] at rest
    obtain ⟨_, allowed, same⟩ := rest
    cases same
    exact requireAllowed_eq_ok.mp allowed

theorem forM_requireAllowed {addresses : List IpAddress} (checked : addresses.forM requireAllowed = .ok ()) :
    ∀ ip ∈ addresses, forbiddenReason ip = none := by
  induction addresses with
  | nil => simp
  | cons first rest ih =>
    change (requireAllowed first >>= fun _ => rest.forM requireAllowed) = _ at checked
    rw [Except.bind_eq_ok] at checked
    obtain ⟨_, allowed, checked⟩ := checked
    simp only [List.mem_cons, forall_eq_or_imp]
    exact ⟨requireAllowed_eq_ok.mp allowed, ih checked⟩

theorem pinAnswer_allowed {ipAddress : String → Option IpAddress} {answers : List String}
    {ip : IpAddress} (pinned : pinAnswer ipAddress answers = .ok (some ip)) : forbiddenReason ip = none := by
  simp only [pinAnswer, Except.bind_eq_ok] at pinned
  obtain ⟨addresses, _, _, checked, head⟩ := pinned
  apply forM_requireAllowed checked
  cases addresses with
  | nil => cases head
  | cons first rest =>
    cases head
    exact List.mem_cons_self

end Collector.Fetch
