import Collector.Lib.Machine
import Mathlib.Data.List.Induction
import Mathlib.Data.Nat.Digits.Defs
import Mathlib.Tactic.Ring

/-!
IPv4 addresses as texts. Up to four numbers, each in a radix of its own, separated by dots: every
number but the last is one byte of the address, and the last fills the bytes that are left.
-/

namespace Collector.Lib.Ipv4

/-- The value of a digit, if it is one in this radix. -/
def digit (radix : Nat) (c : Char) : Option Nat :=
  (if c.isDigit then some (c.toNat - '0'.toNat)
    else if 'a' ≤ c ∧ c ≤ 'f' then some (c.toNat - 'a'.toNat + 10)
    else if 'A' ≤ c ∧ c ≤ 'F' then some (c.toNat - 'A'.toNat + 10)
    else none).filter (· < radix)

/-- A number without sign or prefix; no digits at all are zero. -/
def number (radix : Nat) (text : List Char) : Option Nat :=
  (text.mapM (digit radix)).map fun digits => Nat.ofDigits radix digits.reverse

/-- One number: hexadecimal after `0x`, octal after another leading zero, decimal otherwise. -/
def part : List Char → Option Nat
  | [] => none
  | '0' :: 'x' :: digits => number 16 digits
  | '0' :: 'X' :: digits => number 16 digits
  | '0' :: c :: digits => number 8 (c :: digits)
  | digits => number 10 digits

/-- The bytes of `leading`, and `last` in the rest. -/
def address (leading : List Nat) (last : Nat) : Option (BitVec 32) :=
  if leading.length < 4 ∧ (∀ value ∈ leading, value < 256) ∧ last < 256 ^ (4 - leading.length) then
    some (BitVec.ofNat 32 (Nat.ofDigits 256 leading.reverse * 256 ^ (4 - leading.length) + last))
  else none

def ofLabels (labels : List (List Char)) : Option (BitVec 32) := do
  let numbers ← labels.mapM part
  let last ← numbers.getLast?
  address numbers.dropLast last

/-- What the dots separate; a dot at the end adds nothing. -/
def labels (host : List Char) : List (List Char) :=
  let all := host.splitOn '.'
  if all.getLast? = some [] then all.dropLast else all

def parse (host : List Char) : Option (BitVec 32) := ofLabels (labels host)

example : parse "0x7f.1".toList = some 0x7f000001 ∧ parse "017700000001".toList = some 0x7f000001 ∧
    parse "1.2.3.4.".toList = some 0x01020304 ∧ parse "1.2.65536".toList = none ∧
    parse "08.1".toList = none := by decide +kernel

theorem foldl_digits (radix : Nat) (digits : List Nat) :
    digits.foldl (fun sum value => sum * radix + value) 0 = Nat.ofDigits radix digits.reverse := by
  induction digits using List.reverseRecOn with
  | nil => rfl
  | append_singleton digits value ih =>
    rw [List.foldl_append, ih, List.reverse_append, List.reverse_singleton, List.singleton_append,
      Nat.ofDigits_cons, List.foldl_cons, List.foldl_nil]
    ring

/-- Digits read from the left. -/
theorem number_eq_foldl {radix : Nat} {value : Char → Nat} {text : List Char}
    (each : ∀ c ∈ text, digit radix c = some (value c)) :
    number radix text = some (text.foldl (fun sum c => sum * radix + value c) 0) := by
  have digits : text.mapM (digit radix) = some (text.map value) := by
    induction text with
    | nil => rfl
    | cons c text ih =>
      rw [List.mapM_cons, each c List.mem_cons_self, ih fun d member => each d (List.mem_cons_of_mem _ member)]
      rfl
  rw [number, digits, Option.map_some, ← foldl_digits, List.foldl_map]

theorem mem_of_mapM {α β : Type} {f : α → Option β} {xs : List α} {ys : List β} {x : α}
    (read : xs.mapM f = some ys) (member : x ∈ xs) : ∃ y ∈ ys, f x = some y := by
  induction xs generalizing ys with
  | nil => exact absurd member List.not_mem_nil
  | cons first rest ih =>
    rw [List.mapM_cons, Option.bind_eq_bind, Option.bind_eq_some_iff] at read
    obtain ⟨y, here, read⟩ := read
    rw [Option.bind_eq_bind, Option.bind_eq_some_iff] at read
    obtain ⟨later, read, same⟩ := read
    cases same
    rcases List.mem_cons.mp member with rfl | member
    · exact ⟨y, List.mem_cons_self, here⟩
    · obtain ⟨z, found, value⟩ := ih read member
      exact ⟨z, List.mem_cons_of_mem _ found, value⟩

/-- One element without a value. -/
theorem mapM_eq_none {α β : Type} {f : α → Option β} {xs : List α} {x : α} (member : x ∈ xs)
    (unread : f x = none) : xs.mapM f = none := by
  cases read : xs.mapM f with
  | none => rfl
  | some ys =>
    obtain ⟨y, _, value⟩ := mem_of_mapM read member
    rw [unread] at value
    cases value

theorem number_eq_none {radix : Nat} {text : List Char} {c : Char} (member : c ∈ text)
    (other : digit radix c = none) : number radix text = none := by
  rw [number, mapM_eq_none member other, Option.map_none]

/-- A digit of a small radix is one of a larger radix. -/
theorem digit_eq_none {radix : Nat} {c : Char} (other : digit 16 c = none) (small : radix ≤ 16) :
    digit radix c = none := by
  unfold digit at other ⊢
  rw [Option.filter_eq_none_iff] at other ⊢
  intro value found less
  exact other value found (by simp at less ⊢; omega)

/-- A character that is no digit and in no prefix. -/
theorem part_eq_none {text : List Char} {c : Char} (member : c ∈ text) (other : digit 16 c = none)
    (prefixless : c ≠ 'x' ∧ c ≠ 'X') : part text = none := by
  have notZero : c ≠ '0' := by
    rintro rfl
    exact absurd other (by decide)
  unfold part
  split
  · rfl
  · simp only [List.mem_cons, notZero, prefixless.1, false_or] at member
    exact number_eq_none member other
  · simp only [List.mem_cons, notZero, prefixless.2, false_or] at member
    exact number_eq_none member other
  · rw [List.mem_cons] at member
    exact number_eq_none (member.resolve_left notZero) (digit_eq_none other (by decide))
  · exact number_eq_none member (digit_eq_none other (by decide))

theorem part_octal {c : Char} (prefixless : c ≠ 'x' ∧ c ≠ 'X') (digits : List Char) :
    part ('0' :: c :: digits) = number 8 (c :: digits) := by
  unfold part
  split
  · next same => cases same
  · next same =>
    cases same
    exact absurd rfl prefixless.1
  · next same =>
    cases same
    exact absurd rfl prefixless.2
  · next same =>
    cases same
    rfl
  · next other =>
    exact absurd rfl (other c digits)

theorem part_decimal {text : List Char} (nonempty : text ≠ []) (plain : text.head? = some '0' → text.length ≤ 1) :
    part text = number 10 text := by
  unfold part
  split
  · exact absurd rfl nonempty
  · exact absurd (plain rfl) (by simp)
  · exact absurd (plain rfl) (by simp)
  · exact absurd (plain rfl) (by simp)
  · rfl

theorem ofLabels_eq_none {labels : List (List Char)} {label : List Char} (member : label ∈ labels)
    (unread : part label = none) : ofLabels labels = none := by
  rw [ofLabels, mapM_eq_none member unread]
  rfl

end Collector.Lib.Ipv4
