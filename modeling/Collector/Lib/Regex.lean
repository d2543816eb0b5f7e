import Mathlib.Data.List.Basic
import Mathlib.Tactic.Common

/-!
Regular expressions with the ordered choice of a backtracking matcher. An expression sends a place
in a text to the places where it may stop, the preferred one first; a scan takes the first of them
at every place from left to right, as `finditer` and `sub` do. The expressions used with it match
no empty text, so a match always moves the scan forward.
-/

namespace Collector.Lib

/-- `behind` looks at the character before the place, `ahead` at the text after it. -/
inductive Regex where
  | empty
  | one (p : Char → Bool)
  | seq (first second : Regex)
  | alt (first second : Regex)
  | star (body : Regex)
  | group (body : Regex)
  | behind (p : Option Char → Bool)
  | ahead (expected : Bool) (body : Regex)

namespace Regex

/-- A place in a text: the character before it, the text after it and the groups read so far. -/
structure Place where
  before : Option Char
  rest : List Char
  groups : List (List Char)

/-- Greedy repetition: as many rounds as read something, then fewer. -/
def rounds (body : Place → List Place) : Nat → Place → List Place
  | 0, place => [place]
  | n + 1, place =>
    ((body place).filter fun next => next.rest.length < place.rest.length).flatMap (rounds body n) ++
      [place]

/-- What was read between two places. -/
def readBetween (start stop : Place) : List Char :=
  start.rest.take (start.rest.length - stop.rest.length)

def ends : Regex → Place → List Place
  | empty, place => [place]
  | one p, place =>
    match place.rest with
    | [] => []
    | c :: rest => if p c then [{ place with before := some c, rest := rest }] else []
  | seq first second, place => (first.ends place).flatMap second.ends
  | alt first second, place => first.ends place ++ second.ends place
  | star body, place => rounds body.ends place.rest.length place
  | group body, place => (body.ends place).map fun next =>
      { next with groups := next.groups ++ [readBetween place next] }
  | behind p, place => if p place.before then [place] else []
  | ahead expected body, place => if (body.ends place).isEmpty = expected then [] else [place]

/-- The texts an expression may read, whatever it asserts about their surroundings. -/
inductive Reads : Regex → List Char → Prop where
  | empty : Reads .empty []
  | one {p : Char → Bool} {c : Char} (meets : p c = true) : Reads (.one p) [c]
  | seq {first second : Regex} {u v : List Char} (head : Reads first u) (tail : Reads second v) :
      Reads (.seq first second) (u ++ v)
  | left {first second : Regex} {u : List Char} (read : Reads first u) : Reads (.alt first second) u
  | right {first second : Regex} {u : List Char} (read : Reads second u) :
      Reads (.alt first second) u
  | none {body : Regex} : Reads (.star body) []
  | round {body : Regex} {u v : List Char} (head : Reads body u) (tail : Reads (.star body) v) :
      Reads (.star body) (u ++ v)
  | group {body : Regex} {u : List Char} (read : Reads body u) : Reads (.group body) u
  | behind {p : Option Char → Bool} : Reads (.behind p) []
  | ahead {expected : Bool} {body : Regex} : Reads (.ahead expected body) []

theorem reads_of_mem_rounds {body : Regex} (sound : ∀ place next, next ∈ body.ends place →
      ∃ u, place.rest = u ++ next.rest ∧ Reads body u) (n : Nat) {place next : Place}
    (reached : next ∈ rounds body.ends n place) :
    ∃ u, place.rest = u ++ next.rest ∧ Reads (.star body) u := by
  induction n generalizing place with
  | zero =>
    cases List.mem_singleton.mp reached
    exact ⟨[], rfl, .none⟩
  | succ n ih =>
    rw [rounds, List.mem_append, List.mem_flatMap] at reached
    rcases reached with ⟨middle, member, later⟩ | stays
    · obtain ⟨u, here, head⟩ := sound place middle (List.mem_filter.mp member).1
      obtain ⟨v, there, tail⟩ := ih later
      exact ⟨u ++ v, by rw [here, there, List.append_assoc], .round head tail⟩
    · cases List.mem_singleton.mp stays
      exact ⟨[], rfl, .none⟩

/-- The matcher reads only what the expression may read. -/
theorem reads_of_mem_ends (r : Regex) {place next : Place} (reached : next ∈ r.ends place) :
    ∃ u, place.rest = u ++ next.rest ∧ Reads r u := by
  induction r generalizing place next with
  | empty =>
    cases List.mem_singleton.mp reached
    exact ⟨[], rfl, .empty⟩
  | one p =>
    unfold ends at reached
    split at reached
    · cases reached
    · rename_i c rest text
      split at reached
      · rename_i meets
        cases List.mem_singleton.mp reached
        exact ⟨[c], text, .one meets⟩
      · cases reached
  | seq first second first_ih second_ih =>
    obtain ⟨middle, member, later⟩ := List.mem_flatMap.mp reached
    obtain ⟨u, here, head⟩ := first_ih member
    obtain ⟨v, there, tail⟩ := second_ih later
    exact ⟨u ++ v, by rw [here, there, List.append_assoc], .seq head tail⟩
  | alt first second first_ih second_ih =>
    rcases List.mem_append.mp reached with early | late
    · obtain ⟨u, here, read⟩ := first_ih early
      exact ⟨u, here, .left read⟩
    · obtain ⟨u, here, read⟩ := second_ih late
      exact ⟨u, here, .right read⟩
  | star body ih => exact reads_of_mem_rounds (fun _ _ => ih) _ reached
  | group body ih =>
    obtain ⟨inner, member, rfl⟩ := List.mem_map.mp reached
    obtain ⟨u, here, read⟩ := ih member
    exact ⟨u, here, .group read⟩
  | behind p =>
    unfold ends at reached
    split at reached
    · cases List.mem_singleton.mp reached
      exact ⟨[], rfl, .behind⟩
    · cases reached
  | ahead expected body =>
    unfold ends at reached
    split at reached
    · cases reached
    · cases List.mem_singleton.mp reached
      exact ⟨[], rfl, .ahead⟩

/-- No class of the expression has this character. -/
def Avoids (x : Char) : Regex → Prop
  | one p => p x = false
  | seq first second | alt first second => first.Avoids x ∧ second.Avoids x
  | star body | group body => body.Avoids x
  | empty | behind _ | ahead _ _ => True

theorem not_mem_of_reads {x : Char} {r : Regex} {u : List Char} (read : Reads r u)
    (avoids : r.Avoids x) : x ∉ u := by
  induction read with
  | empty | none | behind | ahead => exact List.not_mem_nil
  | one meets =>
    intro member
    cases List.mem_singleton.mp member
    rw [avoids] at meets
    cases meets
  | seq _ _ head_ih tail_ih =>
    rw [List.mem_append, not_or]
    exact ⟨head_ih avoids.1, tail_ih avoids.2⟩
  | left _ ih => exact ih avoids.1
  | right _ ih => exact ih avoids.2
  | round _ _ head_ih tail_ih =>
    rw [List.mem_append, not_or]
    exact ⟨head_ih avoids, tail_ih avoids⟩
  | group _ ih => exact ih avoids

/-- A class repeated reads any text of that class. -/
theorem mem_rounds_one {p : Char → Bool} {u v : List Char} (n : Nat) (before : Option Char)
    (groups : List (List Char)) (meets : ∀ c ∈ u, p c = true) (enough : u.length ≤ n) :
    ∃ last, ⟨last, v, groups⟩ ∈ rounds (one p).ends n ⟨before, u ++ v, groups⟩ := by
  induction u generalizing n before with
  | nil =>
    refine ⟨before, ?_⟩
    cases n <;> simp [rounds]
  | cons c u ih =>
    cases n with
    | zero => simp at enough
    | succ n =>
      obtain ⟨last, reached⟩ := ih n (some c) (fun d member => meets d (List.mem_cons_of_mem c member))
        (Nat.le_of_succ_le_succ enough)
      refine ⟨last, List.mem_append_left _ (List.mem_flatMap.mpr ⟨⟨some c, u ++ v, groups⟩, ?_, reached⟩)⟩
      rw [List.mem_filter]
      simp [ends, meets c List.mem_cons_self]

/-! Common expressions. -/

def text : List Char → Regex
  | [] => empty
  | c :: rest => seq (one fun d => decide (d = c)) (text rest)

theorem eq_of_reads_text {chars u : List Char} (read : Reads (text chars) u) : u = chars := by
  induction chars generalizing u with
  | nil =>
    cases read
    rfl
  | cons c rest ih =>
    cases read with
    | seq head tail =>
      cases head with
      | one meets => rw [ih tail, of_decide_eq_true meets, List.singleton_append]

def oneOf (chars : List Char) : Regex := one fun c => decide (c ∈ chars)

def noneOf (chars : List Char) : Regex := one fun c => decide (c ∉ chars)

def opt (body : Regex) : Regex := alt body empty

def plus (body : Regex) : Regex := seq body (star body)

def times : Nat → Regex → Regex
  | 0, _ => empty
  | n + 1, body => seq body (times n body)

/-- Up to `n` times, greedily. -/
def upTo : Nat → Regex → Regex
  | 0, _ => empty
  | n + 1, body => opt (seq body (upTo n body))

/-- The alternatives in their order. -/
def anyOf : List Regex → Regex
  | [] => one fun _ => false
  | [last] => last
  | first :: rest => alt first (anyOf rest)

def all (parts : List Regex) : Regex := parts.foldr seq empty

/-- `(?<!…)` of a class. -/
def notBehind (p : Char → Bool) : Regex := behind fun before => !before.any p

/-- `(?!…)`. -/
def notAhead (body : Regex) : Regex := ahead false body

/-! Scanning. -/

structure Hit where
  text : List Char
  groups : List (List Char)

/-- The match at one place. -/
def first (r : Regex) (before : Option Char) (rest : List Char) : Option Hit :=
  let start : Place := ⟨before, rest, []⟩
  ((r.ends start).find? fun stop => decide (stop.rest.length < rest.length)).map fun stop =>
    ⟨readBetween start stop, stop.groups⟩

/-- A match is a nonempty beginning of the text that the expression may read. -/
theorem first_eq_some {r : Regex} {before : Option Char} {rest : List Char} {hit : Hit}
    (found : r.first before rest = some hit) :
    ∃ c u tail, hit.text = c :: u ∧ rest = c :: u ++ tail ∧ Reads r hit.text := by
  obtain ⟨stop, chosen, rfl⟩ := Option.map_eq_some_iff.mp found
  obtain ⟨u, here, read⟩ := reads_of_mem_ends r (List.mem_of_find?_eq_some chosen)
  have forward : stop.rest.length < rest.length := by simpa using List.find?_some chosen
  have text : readBetween ⟨before, rest, []⟩ stop = u := by
    dsimp only at here
    rw [readBetween, here, List.length_append, Nat.add_sub_cancel, List.take_left]
  dsimp only at here ⊢
  rw [text]
  cases u with
  | nil => simp [here] at forward
  | cons c u => exact ⟨c, u, stop.rest, rfl, here, read⟩

theorem first_isSome {r : Regex} {before : Option Char} {rest : List Char} {stop : Place}
    (reached : stop ∈ r.ends ⟨before, rest, []⟩) (forward : stop.rest.length < rest.length) :
    (r.first before rest).isSome = true := by
  rw [first, Option.isSome_map, List.find?_isSome]
  exact ⟨stop, reached, decide_eq_true forward⟩

/-- A text cut into matches and the characters between them. -/
inductive Piece where
  | char (c : Char)
  | found (hit : Hit)

def Piece.text : Piece → List Char
  | .char c => [c]
  | .found hit => hit.text

def Piece.hit? : Piece → Option Hit
  | .char _ => none
  | .found hit => some hit

def Piece.char? : Piece → Option Char
  | .char c => some c
  | .found _ => none

/-- `skip` characters belong to the match before. -/
def scan (r : Regex) : Option Char → List Char → Nat → List Piece
  | _, [], _ => []
  | _, c :: rest, skip + 1 => scan r (some c) rest skip
  | before, c :: rest, 0 =>
    match r.first before (c :: rest) with
    | some hit => .found hit :: scan r (some c) rest (hit.text.length - 1)
    | none => .char c :: scan r (some c) rest 0

/-- A scan loses nothing of the text. -/
theorem flatMap_text_scan (r : Regex) (before : Option Char) (text : List Char) (skip : Nat) :
    (r.scan before text skip).flatMap Piece.text = text.drop skip := by
  induction text generalizing before skip with
  | nil => simp [scan]
  | cons c rest ih =>
    cases skip with
    | succ skip => simp [scan, ih]
    | zero =>
      cases found : r.first before (c :: rest) with
      | none => simp [scan, found, ih, Piece.text]
      | some hit =>
        obtain ⟨d, u, tail, read, here, _⟩ := first_eq_some found
        obtain ⟨rfl, rfl⟩ := List.cons.inj here
        simp only [scan, found, List.flatMap_cons, ih, Piece.text, read, List.length_cons,
          Nat.add_sub_cancel, List.drop_zero, List.cons_append]
        exact congrArg _ (congrArg _ (List.drop_left ..))

/-- `finditer`. -/
def hits (r : Regex) (text : List Char) : List Hit :=
  (r.scan none text 0).filterMap Piece.hit?

/-- `sub` with a function. -/
def Piece.replaced (replace : Hit → List Char) : Piece → List Char
  | .char c => [c]
  | .found hit => replace hit

def sub (r : Regex) (replace : Hit → List Char) (text : List Char) : List Char :=
  (r.scan none text 0).flatMap (Piece.replaced replace)

/-- What a substitution holds comes from the text between the matches or from a replacement. -/
theorem count_replaced (replace : Hit → List Char) (pieces : List Piece) (c : Char) :
    (pieces.flatMap (Piece.replaced replace)).count c = (pieces.filterMap Piece.char?).count c +
      ((pieces.filterMap Piece.hit?).flatMap replace).count c := by
  induction pieces with
  | nil => rfl
  | cons piece pieces ih =>
    rw [List.flatMap_cons, List.count_append, ih]
    cases piece with
    | char d =>
      simp only [Piece.replaced, List.filterMap_cons, Piece.char?, Piece.hit?, List.count_cons,
        List.count_nil]
      omega
    | found hit =>
      simp only [Piece.replaced, List.filterMap_cons, Piece.char?, Piece.hit?, List.flatMap_cons,
        List.count_append]
      omega

/-- The texts between the matches, before the first and after the last. -/
def gapsOf : List Piece → List (List Char)
  | [] => [[]]
  | .found _ :: pieces => [] :: gapsOf pieces
  | .char c :: pieces =>
    match gapsOf pieces with
    | gap :: gaps => (c :: gap) :: gaps
    | [] => [[c]]

def gaps (r : Regex) (text : List Char) : List (List Char) := gapsOf (r.scan none text 0)

theorem gapsOf_ne_nil (pieces : List Piece) : ∃ gap gaps, gapsOf pieces = gap :: gaps := by
  induction pieces with
  | nil => exact ⟨_, _, rfl⟩
  | cons piece pieces ih =>
    cases piece with
    | found hit => exact ⟨_, _, rfl⟩
    | char c =>
      obtain ⟨gap, gaps, shape⟩ := ih
      exact ⟨c :: gap, gaps, by rw [gapsOf, shape]⟩

/-- What a scan leaves as single characters is in the gaps. -/
theorem mem_gapsOf {pieces : List Piece} {c : Char} :
    (∃ gap ∈ gapsOf pieces, c ∈ gap) ↔ Piece.char c ∈ pieces := by
  induction pieces with
  | nil => simp [gapsOf]
  | cons piece pieces ih =>
    cases piece with
    | found hit => simp [gapsOf, ih]
    | char d =>
      obtain ⟨gap, gaps, shape⟩ := gapsOf_ne_nil pieces
      rw [shape] at ih
      simp only [gapsOf, shape, List.mem_cons, Piece.char.injEq, ← ih, exists_eq_or_imp, or_assoc]

/-- A substitution begins with the first gap. -/
theorem gap_prefix (replace : Hit → List Char) {pieces : List Piece} {gap : List Char}
    {gaps : List (List Char)} (shape : gapsOf pieces = gap :: gaps) :
    gap <+: pieces.flatMap (Piece.replaced replace) := by
  induction pieces generalizing gap gaps with
  | nil =>
    cases shape
    exact List.nil_prefix
  | cons piece pieces ih =>
    cases piece with
    | found hit =>
      cases shape
      exact List.nil_prefix
    | char c =>
      obtain ⟨later, others, inner⟩ := gapsOf_ne_nil pieces
      rw [gapsOf, inner] at shape
      cases shape
      exact List.cons_prefix_cons.mpr ⟨rfl, ih inner⟩

/-- Where the matches begin and end. -/
def spansFrom : Nat → List Piece → List (Nat × Nat)
  | _, [] => []
  | position, .char _ :: pieces => spansFrom (position + 1) pieces
  | position, .found hit :: pieces =>
    (position, position + hit.text.length) :: spansFrom (position + hit.text.length) pieces

def spans (r : Regex) (text : List Char) : List (Nat × Nat) := spansFrom 0 (r.scan none text 0)

/-- The matches come one after the other. -/
theorem isChain_spansFrom (pieces : List Piece) (position : Nat) :
    List.IsChain (· ≤ ·) (position :: (spansFrom position pieces).map Prod.fst) := by
  have weaken : ∀ {a b : Nat} {rest : List Nat}, a ≤ b → List.IsChain (· ≤ ·) (b :: rest) →
      List.IsChain (· ≤ ·) (a :: rest) := by
    intro a b rest below chain
    cases rest with
    | nil => exact .singleton a
    | cons c rest =>
      rw [List.isChain_cons_cons] at chain ⊢
      exact ⟨Nat.le_trans below chain.1, chain.2⟩
  induction pieces generalizing position with
  | nil => exact .singleton position
  | cons piece pieces ih =>
    cases piece with
    | char c => exact weaken (Nat.le_succ position) (ih (position + 1))
    | found hit =>
      apply List.isChain_cons_cons.mpr ⟨Nat.le_refl position, ?_⟩
      exact weaken (Nat.le_add_right position hit.text.length) (ih _)

end Regex
end Collector.Lib
