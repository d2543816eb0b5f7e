import Collector.Lib.Labels
import Collector.Lib.Regex
import Mathlib.Data.List.TakeWhile

/-!
Expressions that leave the matcher no choice. Where what follows a repeated class cannot begin with
a character of that class, only the longest run counts; and an expression that does not look
behind it is substituted in the rest of a text as in a text of its own.
-/

namespace Collector.Lib.Regex

section Runs

/-- The place behind the longest run of a class. -/
def Place.pass (p : Char → Bool) (place : Place) : Place :=
  { place with before := (place.rest.takeWhile p).getLast?.or place.before, rest := place.rest.dropWhile p }

theorem pass_cons {p : Char → Bool} {c : Char} (meets : p c = true) (before : Option Char) (rest : List Char)
    (groups : List (List Char)) :
    Place.pass p ⟨before, c :: rest, groups⟩ = Place.pass p ⟨some c, rest, groups⟩ := by
  rw [Place.pass, Place.pass]
  dsimp only
  rw [List.takeWhile_cons_of_pos meets, List.dropWhile_cons_of_pos meets]
  cases rest.takeWhile p with
  | nil => rfl
  | cons d run =>
    rw [List.getLast?_cons_cons]
    cases last : (d :: run).getLast? with
    | none => simp at last
    | some e => rfl

theorem pass_of_not {p : Char → Bool} {place : Place} (other : ∀ c, place.rest.head? = some c → p c = false) :
    Place.pass p place = place := by
  obtain ⟨before, rest, groups⟩ := place
  cases rest with
  | nil => rfl
  | cons c rest =>
    have not : ¬p c = true := by rw [other c rfl]; exact Bool.false_ne_true
    rw [Place.pass]
    dsimp only
    rw [List.takeWhile_cons_of_neg not, List.dropWhile_cons_of_neg not]
    rfl

/-- What follows cannot begin inside the run. -/
def Stuck {β : Type} (p : Char → Bool) (next : Place → List β) : Prop :=
  ∀ before c rest groups, p c = true → next ⟨before, c :: rest, groups⟩ = []

theorem flatMap_rounds_one {β : Type} {p : Char → Bool} {next : Place → List β} (stuck : Stuck p next) (n : Nat)
    {place : Place} (enough : place.rest.length ≤ n) :
    (rounds (one p).ends n place).flatMap next = next (place.pass p) := by
  induction n generalizing place with
  | zero =>
    obtain ⟨before, rest, groups⟩ := place
    cases List.eq_nil_of_length_eq_zero (Nat.le_zero.mp enough)
    exact List.append_nil _
  | succ n ih =>
    obtain ⟨before, rest, groups⟩ := place
    cases rest with
    | nil => simp [rounds, ends, Place.pass]
    | cons c rest =>
      cases meets : p c with
      | true =>
        have step : rounds (one p).ends (n + 1) ⟨before, c :: rest, groups⟩ =
            rounds (one p).ends n ⟨some c, rest, groups⟩ ++ [⟨before, c :: rest, groups⟩] := by
          simp [rounds, ends, meets]
        rw [step, List.flatMap_append, ih (Nat.le_of_succ_le_succ enough), List.flatMap_singleton,
          stuck before c rest groups meets, List.append_nil, pass_cons meets]
      | false =>
        have step : rounds (one p).ends (n + 1) ⟨before, c :: rest, groups⟩ =
            [⟨before, c :: rest, groups⟩] := by
          simp [rounds, ends, meets]
        rw [step, List.flatMap_singleton, pass_of_not]
        intro d same
        cases same
        exact meets

theorem ends_star_seq {p : Char → Bool} {next : Regex} (stuck : Stuck p next.ends) (place : Place) :
    (seq (star (one p)) next).ends place = next.ends (place.pass p) :=
  flatMap_rounds_one stuck _ (Nat.le_refl _)

/-- A group of a class takes the whole run. -/
theorem ends_group_plus_seq {p : Char → Bool} {next : Regex} (stuck : Stuck p next.ends) {c : Char}
    {run rest : List Char} (meets : ∀ d ∈ c :: run, p d = true) (other : ∀ d, rest.head? = some d → p d = false)
    (before : Option Char) (groups : List (List Char)) :
    ∃ last, (seq (group (plus (one p))) next).ends ⟨before, c :: run ++ rest, groups⟩ =
      next.ends ⟨last, rest, groups ++ [c :: run]⟩ := by
  let start : Place := ⟨before, c :: run ++ rest, groups⟩
  let close (place : Place) : Place := { place with groups := place.groups ++ [readBetween start place] }
  have head : (one p).ends start = [⟨some c, run ++ rest, groups⟩] := by
    simp [start, ends, meets c List.mem_cons_self]
  have closed : Stuck p fun place => next.ends (close place) :=
    fun before d rest _ holds => stuck before d rest _ holds
  have left : (run ++ rest).dropWhile p = rest := by
    rw [List.dropWhile_append_of_pos fun d member => meets d (List.mem_cons_of_mem c member)]
    cases rest with
    | nil => rfl
    | cons d rest => rw [List.dropWhile_cons_of_neg (by simp [other d rfl])]
  have read : readBetween start ⟨((run ++ rest).takeWhile p).getLast?.or (some c), rest, groups⟩ = c :: run := by
    rw [readBetween, List.length_append, Nat.add_sub_cancel]
    exact List.take_left
  have whole : (rounds (one p).ends (run ++ rest).length ⟨some c, run ++ rest, groups⟩).flatMap
      (fun place => next.ends (close place)) =
        next.ends (close (Place.pass p ⟨some c, run ++ rest, groups⟩)) :=
    flatMap_rounds_one closed _ (Nat.le_refl _)
  refine ⟨((run ++ rest).takeWhile p).getLast?.or (some c), ?_⟩
  change (((one p).ends start).flatMap (star (one p)).ends |>.map close).flatMap next.ends = _
  rw [head, List.flatMap_singleton, List.flatMap_map, ends, whole, Place.pass]
  dsimp only
  rw [left]
  dsimp only [close]
  rw [read]

end Runs

section Readers

/-- What is left behind one character of a class. -/
def afterOne (p : Char → Bool) : List Char → Option (List Char)
  | [] => none
  | c :: rest => if p c then some rest else none

/-- What is left behind given characters. -/
def afterText : List Char → List Char → Option (List Char)
  | [], rest => some rest
  | c :: chars, rest => (afterOne (fun d => decide (d = c)) rest).bind (afterText chars)

/-- The expression leaves its groups alone and may stop in one place at most, which `read` gives. -/
structure ReadsAs (r : Regex) (read : List Char → Option (List Char)) : Prop where
  missed : ∀ place, read place.rest = none → r.ends place = []
  stops : ∀ place rest, read place.rest = some rest → ∃ before, r.ends place = [⟨before, rest, place.groups⟩]

theorem readsAs_one (p : Char → Bool) : ReadsAs (one p) (afterOne p) where
  missed := by
    rintro ⟨before, rest, groups⟩ left
    cases rest with
    | nil => rfl
    | cons c rest =>
      have not : p c = false := by simpa [afterOne] using left
      simp [ends, not]
  stops := by
    rintro ⟨before, rest, groups⟩ tail left
    cases rest with
    | nil => cases left
    | cons c rest =>
      obtain ⟨meets, rfl⟩ : p c = true ∧ rest = tail := by simpa [afterOne] using left
      exact ⟨some c, by simp [ends, meets]⟩

variable {r s : Regex} {f g : List Char → Option (List Char)}

theorem ReadsAs.ends_seq (head : ReadsAs r f) {place : Place} {rest : List Char} (left : f place.rest = some rest) :
    ∃ before, (Regex.seq r s).ends place = s.ends ⟨before, rest, place.groups⟩ := by
  obtain ⟨before, stop⟩ := head.stops place rest left
  refine ⟨before, ?_⟩
  rw [ends, stop, List.flatMap_singleton]

theorem readsAs_seq (head : ReadsAs r f) (tail : ReadsAs s g) :
    ReadsAs (seq r s) fun rest => (f rest).bind g where
  missed := by
    intro place left
    cases early : f place.rest with
    | none => rw [ends, head.missed place early, List.flatMap_nil]
    | some rest =>
      obtain ⟨before, same⟩ := head.ends_seq (s := s) early
      rw [same]
      rw [early] at left
      exact tail.missed _ left
  stops := by
    intro place last left
    obtain ⟨rest, early, late⟩ := Option.bind_eq_some_iff.mp left
    obtain ⟨before, same⟩ := head.ends_seq (s := s) early
    rw [same]
    exact tail.stops _ last late

theorem readsAs_text (chars : List Char) : ReadsAs (text chars) (afterText chars) := by
  induction chars with
  | nil =>
    refine ⟨fun place left => (nomatch left), fun place rest left => ⟨place.before, ?_⟩⟩
    cases left
    rfl
  | cons c chars ih => exact readsAs_seq (readsAs_one _) ih

theorem ends_text_seq_nil {x : Char} {chars : List Char} {s : Regex} {place : Place}
    (other : place.rest.head? ≠ some x) : (seq (text (x :: chars)) s).ends place = [] := by
  have missed : (text (x :: chars)).ends place = [] := by
    apply (readsAs_text _).missed
    obtain ⟨before, rest, groups⟩ := place
    cases rest with
    | nil => rfl
    | cons c rest =>
      have different : c ≠ x := fun same => other (congrArg some same)
      simp [afterText, afterOne, different]
  rw [ends, missed, List.flatMap_nil]

/-- The class goes on to its last character where what follows begins with another one. -/
theorem readsAs_star_seq {p : Char → Bool} (tail : ReadsAs s g)
    (other : ∀ c rest, p c = true → g (c :: rest) = none) :
    ReadsAs (seq (star (one p)) s) fun rest => g (rest.dropWhile p) := by
  have stuck : Stuck p s.ends := by
    intro before c rest groups meets
    exact tail.missed _ (other c rest meets)
  constructor
  · intro place left
    rw [ends_star_seq stuck]
    exact tail.missed _ left
  · intro place rest left
    rw [ends_star_seq stuck]
    exact tail.stops (place.pass p) rest left

theorem readsAs_plus_seq {p : Char → Bool} (tail : ReadsAs s g)
    (other : ∀ c rest, p c = true → g (c :: rest) = none) :
    ReadsAs (seq (plus (one p)) s) fun rest => (afterOne p rest).bind fun rest => g (rest.dropWhile p) := by
  have nested := readsAs_seq (readsAs_one p) (readsAs_star_seq tail other)
  have assoc (place : Place) : (seq (plus (one p)) s).ends place = (seq (one p) (seq (star (one p)) s)).ends place :=
    List.flatMap_assoc
  constructor
  · intro place left
    rw [assoc]
    exact nested.missed place left
  · intro place rest left
    rw [assoc]
    exact nested.stops place rest left

/-- The match of an expression whose first part is a group. -/
theorem first_group_seq (head : ReadsAs r f) (tail : ReadsAs s g) {rest : List Char}
    (forward : ∀ body remaining, f rest = some body → g body = some remaining → remaining.length < rest.length)
    (before : Option Char) :
    (seq (group r) s).first before rest = (f rest).bind fun body => (g body).map fun remaining =>
      ⟨rest.take (rest.length - remaining.length), [rest.take (rest.length - body.length)]⟩ := by
  cases left : f rest with
  | none => simp [first, ends, head.missed ⟨before, rest, []⟩ left]
  | some body =>
    obtain ⟨last, stop⟩ := head.stops ⟨before, rest, []⟩ body left
    have only : (seq (group r) s).ends ⟨before, rest, []⟩ =
        s.ends ⟨last, body, [rest.take (rest.length - body.length)]⟩ := by
      rw [ends, ends, stop]
      exact List.flatMap_singleton ..
    cases done : g body with
    | none => simp [first, only, tail.missed ⟨last, body, _⟩ done, done]
    | some remaining =>
      obtain ⟨final, stop⟩ := tail.stops ⟨last, body, [rest.take (rest.length - body.length)]⟩ remaining done
      have shorter := forward body remaining left done
      simp [first, only, stop, done, shorter, readBetween]

end Readers

section Ways
variable {f g : List Char → Option (List Char)}

/-- A reader that never reads this character does not see what stands behind it. -/
def StopsAt (x : Char) (f : List Char → Option (List Char)) : Prop :=
  ∀ v y, f (v ++ x :: y) = (f v).map (· ++ x :: y)

theorem StopsAt.one {x : Char} {p : Char → Bool} (other : p x = false) : StopsAt x (afterOne p) := by
  intro v y
  cases v with
  | nil => simp [afterOne, other]
  | cons c v => cases meets : p c <;> simp [afterOne, meets]

theorem StopsAt.bind {x : Char} (head : StopsAt x f) (tail : StopsAt x g) :
    StopsAt x fun rest => (f rest).bind g := by
  intro v y
  dsimp only
  rw [head v y]
  cases f v with
  | none => rfl
  | some rest => exact tail rest y

theorem StopsAt.text {x : Char} {chars : List Char} (other : x ∉ chars) : StopsAt x (afterText chars) := by
  induction chars with
  | nil => exact fun _ _ => rfl
  | cons c chars ih =>
    rw [List.mem_cons, not_or] at other
    exact (StopsAt.one (decide_eq_false other.1)).bind (ih other.2)

theorem StopsAt.dropWhile {x : Char} {p : Char → Bool} (other : p x = false) (tail : StopsAt x g) :
    StopsAt x fun rest => g (rest.dropWhile p) := by
  intro v y
  dsimp only
  rw [Labels.dropWhile_stop other, tail]

/-- What is left is the end of what was there. -/
def Consumes (f : List Char → Option (List Char)) : Prop := ∀ v rest, f v = some rest → rest <:+ v

theorem Consumes.one (p : Char → Bool) : Consumes (afterOne p) := by
  intro v rest left
  cases v with
  | nil => cases left
  | cons c v =>
    rw [afterOne] at left
    split at left
    · cases left
      exact List.suffix_cons ..
    · cases left

theorem Consumes.bind (head : Consumes f) (tail : Consumes g) : Consumes fun rest => (f rest).bind g := by
  intro v rest left
  obtain ⟨middle, early, late⟩ := Option.bind_eq_some_iff.mp left
  exact (tail middle rest late).trans (head v middle early)

theorem Consumes.dropWhile (p : Char → Bool) (tail : Consumes g) : Consumes fun rest => g (rest.dropWhile p) :=
  fun _ rest left => (tail _ rest left).trans (List.dropWhile_suffix p)

theorem afterText_eq_some {chars v rest : List Char} : afterText chars v = some rest ↔ v = chars ++ rest := by
  induction chars generalizing v with
  | nil => simp [afterText]
  | cons c chars ih =>
    cases v with
    | nil => simp [afterText, afterOne]
    | cons d v =>
      by_cases same : d = c
      · simp [afterText, afterOne, same, ih]
      · simp [afterText, afterOne, same]

theorem Consumes.text (chars : List Char) : Consumes (afterText chars) :=
  fun _ _ left => ⟨chars, (afterText_eq_some.mp left).symm⟩

end Ways

section Substitution
variable {r : Regex} {replace : Hit → List Char}

/-- The matches do not depend on what stands before them. -/
def Blind (r : Regex) : Prop := ∀ before rest, r.first before rest = r.first none rest

theorem scan_skip (blind : r.Blind) (before : Option Char) (text : List Char) (skip : Nat) :
    r.scan before text skip = r.scan none (text.drop skip) 0 := by
  induction text generalizing before skip with
  | nil => simp [scan]
  | cons c rest ih =>
    cases skip with
    | succ skip => rw [scan, ih, List.drop_succ_cons]
    | zero =>
      rw [List.drop_zero, scan, scan, blind before]

/-- Behind the characters of a match the scan starts again, with some character before it. -/
theorem scan_drop (r : Regex) (before : Option Char) (text : List Char) (skip : Nat) :
    ∃ last, r.scan before text skip = r.scan last (text.drop skip) 0 := by
  induction text generalizing before skip with
  | nil => exact ⟨before, by rw [List.drop_nil, scan, scan]⟩
  | cons c rest ih =>
    cases skip with
    | zero => exact ⟨before, rfl⟩
    | succ skip =>
      obtain ⟨last, same⟩ := ih (some c) skip
      exact ⟨last, by rw [scan, same, List.drop_succ_cons]⟩

theorem scan_of_first {before : Option Char} {text : List Char} {hit : Hit}
    (found : r.first before text = some hit) :
    ∃ last, r.scan before text 0 = .found hit :: r.scan last (text.drop hit.text.length) 0 := by
  obtain ⟨c, u, tail, read, rfl, _⟩ := first_eq_some found
  obtain ⟨last, same⟩ := scan_drop r (some c) (u ++ tail) (hit.text.length - 1)
  refine ⟨last, ?_⟩
  rw [List.cons_append] at found ⊢
  rw [scan, found]
  dsimp only
  rw [same, read, List.length_cons, List.drop_succ_cons, Nat.add_sub_cancel]

theorem sub_nil (r : Regex) (replace : Hit → List Char) : r.sub replace [] = [] := rfl

theorem sub_cons_none (blind : r.Blind) {c : Char} {rest : List Char}
    (missed : r.first none (c :: rest) = none) : r.sub replace (c :: rest) = c :: r.sub replace rest := by
  rw [sub, scan, missed]
  dsimp only
  rw [scan_skip blind]
  rfl

theorem sub_cons_some (blind : r.Blind) {c : Char} {rest : List Char} {hit : Hit}
    (found : r.first none (c :: rest) = some hit) :
    r.sub replace (c :: rest) = replace hit ++ r.sub replace ((c :: rest).drop hit.text.length) := by
  obtain ⟨d, u, tail, read, _, _⟩ := first_eq_some found
  rw [sub, scan, found]
  dsimp only
  rw [scan_skip blind, read, List.length_cons, List.drop_succ_cons]
  rfl

/-- A text without a character that every match has. -/
theorem sub_eq_self {x : Char} (needs : ∀ u, Reads r u → x ∈ u) {text : List Char} (free : x ∉ text) :
    r.sub replace text = text := by
  have missed (before : Option Char) (rest : List Char) (part : x ∉ rest) : r.first before rest = none := by
    cases found : r.first before rest with
    | none => rfl
    | some hit =>
      obtain ⟨c, u, tail, read, here, reads⟩ := first_eq_some found
      have member := needs _ reads
      rw [read] at member
      rw [here] at part
      exact absurd (List.mem_append_left _ member) part
  have whole (before : Option Char) : r.scan before text 0 = text.map Piece.char := by
    induction text generalizing before with
    | nil => rfl
    | cons c rest ih =>
      rw [scan, missed before _ free]
      exact congrArg _ (ih (fun member => free (List.mem_cons_of_mem _ member)) (some c))
  rw [sub, whole, List.flatMap_map]
  exact List.flatMap_singleton' text

end Substitution

end Collector.Lib.Regex
