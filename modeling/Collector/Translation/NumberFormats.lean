import Collector.Translation.Patterns

/-!
The normal form of a number over the ways to write it: the integer part in groups of three behind
a mark, a decimal mark and a sign. The group separators that are no decimal mark are gone before
the marks are looked at, so a fraction of three digits behind a single mark is read as a group.
-/

namespace Collector.Translation

/-- The digits, last one first, with a mark after every third one that is not the first. -/
def groupedReverse (mark : Char) : Text → Text
  | a :: b :: c :: d :: rest => a :: b :: c :: mark :: groupedReverse mark (d :: rest)
  | digits => digits

/-- Digits in groups of three from the right. -/
def grouped (mark : Char) (digits : Text) : Text := (groupedReverse mark digits.reverse).reverse

/-- A group mark with a decimal mark. -/
def formats : List (Char × Char) :=
  ('.', ',') :: (',', '.') :: groupSeparators.flatMap fun mark => [(mark, ','), (mark, '.')]

/-- The forms of a sign. -/
def signForms (negative : Bool) : List Text := if negative then signs.map fun sign => [sign] else [[]]

/-- The ways to write a number with an integer part and the digits of a fraction. -/
def renderings (negative : Bool) (integer : Nat) (fraction : Text) : List Text :=
  (signForms negative).flatMap fun sign => formats.map fun (mark, decimal) =>
    sign ++ grouped mark (Nat.toDigits 10 integer) ++ decimal :: fraction

/-- Digits of a fraction, at least one. -/
structure IsFraction (fraction : Text) : Prop where
  nonempty : fraction ≠ []
  digits : ∀ c ∈ fraction, c.isDigit = true

section Groups
variable {mark : Char} {digits : Text}

theorem not_isDigit_of_mem {c : Char} {marks : List Char} (known : marks.all (fun c => !c.isDigit) = true)
    (member : c ∈ marks) : c.isDigit = false := by
  simpa using List.all_eq_true.mp known c member

/-- A digit is no mark, no separator and no sign. -/
theorem notMem_of_isDigit {c : Char} (digit : c.isDigit = true) {marks : List Char}
    (known : marks.all (fun c => !c.isDigit) = true) : c ∉ marks := by
  intro member
  rw [not_isDigit_of_mem known member] at digit
  cases digit

theorem mem_groupedReverse {c : Char} (member : c ∈ groupedReverse mark digits) :
    c = mark ∨ c ∈ digits := by
  fun_induction groupedReverse mark digits with
  | case1 a b c' d rest ih => grind
  | case2 digits _ => exact .inr member

theorem mark_mem_groupedReverse (long : 4 ≤ digits.length) : mark ∈ groupedReverse mark digits := by
  fun_induction groupedReverse mark digits with
  | case1 a b c d rest _ => simp
  | case2 digits short =>
    match digits, short, long with
    | a :: b :: c :: d :: rest, short, _ => exact absurd rfl (short a b c d rest)

theorem filter_groupedReverse {p : Char → Bool} (dropped : p mark = false)
    (kept : ∀ c ∈ digits, p c = true) : (groupedReverse mark digits).filter p = digits := by
  fun_induction groupedReverse mark digits with
  | case1 a b c d rest ih =>
    simp only [List.forall_mem_cons] at kept
    obtain ⟨first, second, third, others⟩ := kept
    rw [List.filter_cons_of_pos first, List.filter_cons_of_pos second, List.filter_cons_of_pos third,
      List.filter_cons_of_neg (by simp [dropped]), ih (List.forall_mem_cons.mpr others)]
  | case2 digits _ => exact List.filter_eq_self.mpr kept

theorem getLast?_groupedReverse : (groupedReverse mark digits).getLast? = digits.getLast? := by
  fun_induction groupedReverse mark digits with
  | case1 a b c d rest ih =>
    cases shape : groupedReverse mark (d :: rest) with
    | nil =>
      rw [shape, List.getLast?_cons] at ih
      cases ih
    | cons first others =>
      rw [shape] at ih
      simpa using ih
  | case2 digits _ => rfl

theorem mem_grouped {c : Char} (member : c ∈ grouped mark digits) : c = mark ∨ c ∈ digits := by
  rw [grouped, List.mem_reverse] at member
  exact (mem_groupedReverse member).imp_right List.mem_reverse.mp

theorem mark_mem_grouped (long : 4 ≤ digits.length) : mark ∈ grouped mark digits := by
  rw [grouped, List.mem_reverse]
  exact mark_mem_groupedReverse (by rwa [List.length_reverse])

theorem filter_grouped {p : Char → Bool} (dropped : p mark = false)
    (kept : ∀ c ∈ digits, p c = true) : (grouped mark digits).filter p = digits := by
  rw [grouped, List.filter_reverse, filter_groupedReverse dropped fun c member =>
    kept c (List.mem_reverse.mp member), List.reverse_reverse]

theorem head?_grouped : (grouped mark digits).head? = digits.head? := by
  rw [grouped, List.head?_reverse, getLast?_groupedReverse, List.getLast?_reverse]

end Groups

section Normal

theorem rpartition_mark {mark : Char} (head : Text) {tail : Text} (free : mark ∉ tail) :
    rpartition mark (head ++ mark :: tail) = (head, tail) := by
  have run : (head ++ mark :: tail).rtakeWhile (fun c => decide (c ≠ mark)) = tail := by
    have others : ∀ c ∈ tail.reverse, decide (c ≠ mark) = true := by
      intro c member
      rw [decide_eq_true_eq]
      rintro rfl
      exact free (List.mem_reverse.mp member)
    rw [List.rtakeWhile, List.reverse_append, List.reverse_cons, List.append_assoc,
      List.takeWhile_append_of_pos others, List.singleton_append,
      List.takeWhile_cons_of_neg (by simp), List.append_nil, List.reverse_reverse]
  have before : (head ++ mark :: tail).length - tail.length - 1 = head.length := by
    rw [List.length_append, List.length_cons]
    omega
  rw [rpartition, run, before, List.take_left]

variable {head tail : Text} {decimal : Char}

variable (head) in
/-- The marks of a number, the decimal one last. -/
theorem marks_of_tail (isMark : decimal ∈ ['.', ',']) (free : ∀ c ∈ tail, c ∉ ['.', ',']) :
    (head ++ decimal :: tail).filter (fun c => decide (c ∈ ['.', ','])) =
      head.filter (fun c => decide (c ∈ ['.', ','])) ++ [decimal] := by
  have none_left : tail.filter (fun c => decide (c ∈ ['.', ','])) = [] := by
    rw [List.filter_eq_nil_iff]
    intro c member
    rw [decide_eq_true_eq]
    exact free c member
  rw [List.filter_append, List.filter_cons_of_pos (p := fun c => decide (c ∈ ['.', ',']))
    (decide_eq_true isMark), none_left]

/-- Behind another mark the last mark is the decimal one. -/
theorem normalizeUnsigned_grouped (isMark : decimal ∈ ['.', ',']) (free : ∀ c ∈ tail, c ∉ ['.', ','])
    {mark : Char} (other : mark ∈ ['.', ',']) (different : mark ≠ decimal) (present : mark ∈ head) :
    normalizeUnsigned (head ++ decimal :: tail) =
      head.filter (fun c => decide (c ∉ ['.', ','])) ++ '.' :: tail := by
  have marks := marks_of_tail head isMark free
  have two : ((head ++ decimal :: tail).filter fun c => decide (c ∈ ['.', ','])).any
      (fun c => decide (c ≠ decimal)) = true := by
    rw [marks, List.any_eq_true]
    refine ⟨mark, ?_, decide_eq_true different⟩
    exact List.mem_append_left _ (List.mem_filter.mpr ⟨present, decide_eq_true other⟩)
  have last : ((head ++ decimal :: tail).filter fun c => decide (c ∈ ['.', ','])).getLast? =
      some decimal := by rw [marks, List.getLast?_concat]
  rw [normalizeUnsigned]
  dsimp only
  rw [last]
  dsimp only
  rw [rpartition_mark head fun member => free decimal member isMark, if_pos two]

/-- A single mark is a decimal one, unless three digits follow. -/
theorem normalizeUnsigned_single (isMark : decimal ∈ ['.', ',']) (free : ∀ c ∈ tail, c ∉ ['.', ','])
    (plain : ∀ c ∈ head, c ∉ ['.', ',']) :
    normalizeUnsigned (head ++ decimal :: tail) =
      if tail.length = 3 then head ++ tail else head ++ '.' :: tail := by
  have none_before : head.filter (fun c => decide (c ∈ ['.', ','])) = [] := by
    rw [List.filter_eq_nil_iff]
    intro c member
    rw [decide_eq_true_eq]
    exact plain c member
  have marks : (head ++ decimal :: tail).filter (fun c => decide (c ∈ ['.', ','])) = [decimal] := by
    rw [marks_of_tail head isMark free, none_before, List.nil_append]
  have dropped : (head ++ decimal :: tail).filter (fun c => decide (c ≠ decimal)) = head ++ tail := by
    rw [List.filter_append, List.filter_cons_of_neg (by simp)]
    congr 1
    · refine List.filter_eq_self.mpr fun c member => decide_eq_true ?_
      rintro rfl
      exact plain c member isMark
    · refine List.filter_eq_self.mpr fun c member => decide_eq_true ?_
      rintro rfl
      exact free c member isMark
  rw [normalizeUnsigned]
  dsimp only
  rw [marks]
  dsimp only [List.getLast?_singleton]
  rw [rpartition_mark head fun member => free decimal member isMark, dropped]
  simp

end Normal

/-- The minus of the normal form. -/
def minus (negative : Bool) : Text := if negative then ['-'] else []

section Renderings
variable {negative : Bool} {integer : Nat} {fraction : Text}

/-- A format has two different decimal marks, or a group separator that is none. -/
theorem formats_cases {mark decimal : Char} (format : (mark, decimal) ∈ formats) :
    decimal ∈ ['.', ','] ∧
      ((mark ∈ ['.', ','] ∧ mark ≠ decimal ∧ mark ∉ groupSeparators) ∨ mark ∈ groupSeparators) := by
  have all : formats.all (fun format => decide (format.2 ∈ ['.', ','] ∧
      ((format.1 ∈ ['.', ','] ∧ format.1 ≠ format.2 ∧ format.1 ∉ groupSeparators) ∨
        format.1 ∈ groupSeparators))) = true := by decide
  exact of_decide_eq_true (List.all_eq_true.mp all _ format)

theorem isDigit_toDigits {c : Char} (member : c ∈ Nat.toDigits 10 integer) : c.isDigit = true :=
  Nat.isDigit_of_mem_toDigits (by decide) (by decide) member

/-- The sign is read off, whatever form it has. -/
theorem normalizeNumber_signed {sign : Text} (form : sign ∈ signForms negative) {body : Text} {c : Char}
    (starts : body.head? = some c) (unsigned : c ∉ signs) :
    normalizeNumber (sign ++ body) =
      minus negative ++ normalizeUnsigned (body.filter fun c => decide (c ∉ groupSeparators)) := by
  obtain ⟨rest, rfl⟩ : ∃ rest, body = c :: rest := by
    cases body with
    | nil => cases starts
    | cons first rest =>
      cases starts
      exact ⟨rest, rfl⟩
  have stays : (c :: rest).dropWhile (fun c => decide (c ∈ signs)) = c :: rest :=
    List.dropWhile_cons_of_neg (by simp [unsigned])
  cases negative with
  | false =>
    rw [signForms, if_neg Bool.false_ne_true, List.mem_singleton] at form
    subst form
    rw [List.nil_append, normalizeNumber, stays]
    simp [minus, unsigned]
  | true =>
    rw [signForms, if_pos rfl, List.mem_map] at form
    obtain ⟨s, isSign, rfl⟩ := form
    have dropped : ([s] ++ c :: rest).dropWhile (fun c => decide (c ∈ signs)) = c :: rest := by
      rw [List.singleton_append, List.dropWhile_cons_of_pos (by simp [isSign]), stays]
    rw [normalizeNumber, dropped]
    simp [minus, isSign]

/-- The normal form of a rendering: three digits behind a single mark are taken for a group. -/
theorem normalizeNumber_rendering (large : 1000 ≤ integer) (isFraction : IsFraction fraction)
    {sign : Text} (form : sign ∈ signForms negative) {mark decimal : Char}
    (format : (mark, decimal) ∈ formats) :
    normalizeNumber (sign ++ grouped mark (Nat.toDigits 10 integer) ++ decimal :: fraction) =
      minus negative ++ Nat.toDigits 10 integer ++
        if mark ∈ groupSeparators ∧ fraction.length = 3 then fraction else '.' :: fraction := by
  obtain ⟨isMark, kinds⟩ := formats_cases format
  have long : 4 ≤ (Nat.toDigits 10 integer).length := by
    by_contra short
    have small : integer < 10 ^ 3 :=
      (Nat.length_toDigits_le_iff (b := 10) (by decide) (by decide)).mp (by omega)
    omega
  have free : ∀ c ∈ fraction, c ∉ ['.', ','] := fun c member =>
    notMem_of_isDigit (isFraction.digits c member) (by decide)
  have plain : ∀ c ∈ Nat.toDigits 10 integer, c ∉ ['.', ','] := fun c member =>
    notMem_of_isDigit (isDigit_toDigits member) (by decide)
  obtain ⟨first, starts⟩ : ∃ first, (Nat.toDigits 10 integer).head? = some first := by
    rw [← Option.isSome_iff_exists, List.isSome_head?]
    exact Nat.toDigits_ne_nil
  have unsigned : first ∉ signs :=
    notMem_of_isDigit (isDigit_toDigits (List.mem_of_mem_head? starts)) (by decide)
  have begins : (grouped mark (Nat.toDigits 10 integer) ++ decimal :: fraction).head? = some first := by
    rw [List.head?_append, head?_grouped, starts]
    rfl
  have decimal_kept : decimal ∉ groupSeparators := by
    rcases List.mem_pair.mp isMark with rfl | rfl <;> decide
  have fraction_kept : fraction.filter (fun c => decide (c ∉ groupSeparators)) = fraction :=
    List.filter_eq_self.mpr fun c member =>
      decide_eq_true (notMem_of_isDigit (isFraction.digits c member) (by decide))
  have integer_kept : ∀ c ∈ Nat.toDigits 10 integer, decide (c ∉ groupSeparators) = true :=
    fun c member => decide_eq_true (notMem_of_isDigit (isDigit_toDigits member) (by decide))
  rw [List.append_assoc, normalizeNumber_signed form begins unsigned, List.filter_append,
    List.filter_cons_of_pos (p := fun c => decide (c ∉ groupSeparators)) (decide_eq_true decimal_kept),
    fraction_kept, List.append_assoc]
  congr 1
  rcases kinds with ⟨other, different, separate⟩ | separator
  · -- Two different marks are left: the last one is the decimal one.
    have group_kept : (grouped mark (Nat.toDigits 10 integer)).filter
        (fun c => decide (c ∉ groupSeparators)) = grouped mark (Nat.toDigits 10 integer) := by
      refine List.filter_eq_self.mpr fun c member => ?_
      rcases mem_grouped member with rfl | digit
      · exact decide_eq_true separate
      · exact integer_kept c digit
    rw [group_kept, normalizeUnsigned_grouped isMark free other different (mark_mem_grouped long),
      filter_grouped (by simp [List.mem_pair.mp other]) fun c member => decide_eq_true (plain c member),
      if_neg fun both => separate both.1]
  · -- The separators are gone, and the decimal mark is alone.
    rw [filter_grouped (by simp [separator]) integer_kept,
      normalizeUnsigned_single isMark free plain]
    by_cases three : fraction.length = 3
    · rw [if_pos three, if_pos ⟨separator, three⟩]
    · rw [if_neg three, if_neg fun both => three both.2]

theorem mem_renderings {text : Text} : text ∈ renderings negative integer fraction ↔
    ∃ sign ∈ signForms negative, ∃ mark decimal, (mark, decimal) ∈ formats ∧
      text = sign ++ grouped mark (Nat.toDigits 10 integer) ++ decimal :: fraction := by
  simp only [renderings, List.mem_flatMap, List.mem_map, Prod.exists]
  grind

theorem toDigits_injective {n m : Nat} (same : Nat.toDigits 10 n = Nat.toDigits 10 m) : n = m := by
  have values := congrArg (fun digits => Nat.ofDigitChars 10 digits 0) same
  simpa only [Nat.ofDigitChars_ten_toDigits] using values

/-- What comes behind the integer part in a normal form. -/
def IsTail (fraction tail : Text) : Prop :=
  tail = '.' :: fraction ∨ (tail = fraction ∧ fraction.length = 3)

/-- No two numbers have a normal form in common. -/
theorem normal_injective {negative' : Bool} {integer' : Nat} {fraction' tail tail' : Text}
    (isFraction : IsFraction fraction) (isFraction' : IsFraction fraction')
    (isTail : IsTail fraction tail) (isTail' : IsTail fraction' tail')
    (same : minus negative ++ Nat.toDigits 10 integer ++ tail =
      minus negative' ++ Nat.toDigits 10 integer' ++ tail') :
    negative = negative' ∧ integer = integer' ∧ fraction = fraction' := by
  have point : ('.' : Char).isDigit = false := by decide
  have dash : ('-' : Char).isDigit = false := by decide
  have noPoint : ∀ n, '.' ∉ Nat.toDigits 10 n := fun n member => by
    rw [isDigit_toDigits member] at point
    cases point
  have noPoint_fraction : ∀ {f}, IsFraction f → '.' ∉ f := fun known member => by
    rw [known.digits _ member] at point
    cases point
  have begins : ∀ n (t : Text), ∃ c, (Nat.toDigits 10 n ++ t).head? = some c ∧ c.isDigit = true := by
    intro n t
    cases shape : Nat.toDigits 10 n with
    | nil => exact absurd shape Nat.toDigits_ne_nil
    | cons c rest => exact ⟨c, rfl, isDigit_toDigits (shape ▸ List.mem_cons_self)⟩
  have signs_same : negative = negative' := by
    obtain ⟨c, starts, digit⟩ := begins integer tail
    obtain ⟨c', starts', digit'⟩ := begins integer' tail'
    have heads := congrArg List.head? same
    rw [List.append_assoc, List.append_assoc] at heads
    cases negative <;> cases negative'
    · rfl
    · cases starts.symm.trans heads
      rw [digit] at dash
      cases dash
    · cases starts'.symm.trans heads.symm
      rw [digit'] at dash
      cases dash
    · rfl
  subst signs_same
  have rest : Nat.toDigits 10 integer ++ tail = Nat.toDigits 10 integer' ++ tail' := by
    rw [List.append_assoc, List.append_assoc] at same
    exact List.append_cancel_left same
  refine ⟨rfl, ?_⟩
  rcases isTail with rfl | ⟨rfl, three⟩ <;> rcases isTail' with rfl | ⟨rfl, three'⟩
  · have parts := congrArg (rpartition '.') rest
    rw [rpartition_mark _ (noPoint_fraction isFraction), rpartition_mark _ (noPoint_fraction isFraction'),
      Prod.mk.injEq] at parts
    exact ⟨toDigits_injective parts.1, parts.2⟩
  · have member : '.' ∈ Nat.toDigits 10 integer' ++ tail' := by
      rw [← rest]
      simp
    rcases List.mem_append.mp member with inInteger | inFraction
    · exact absurd inInteger (noPoint integer')
    · exact absurd inFraction (noPoint_fraction isFraction')
  · have member : '.' ∈ Nat.toDigits 10 integer ++ tail := by
      rw [rest]
      simp
    rcases List.mem_append.mp member with inInteger | inFraction
    · exact absurd inInteger (noPoint integer)
    · exact absurd inFraction (noPoint_fraction isFraction)
  · obtain ⟨integers, fractions⟩ := List.append_inj' rest (three.trans three'.symm)
    exact ⟨toDigits_injective integers, fractions⟩

/-- A rendering is normalized to a normal form of its number. -/
theorem exists_tail (large : 1000 ≤ integer) (isFraction : IsFraction fraction) {text : Text}
    (rendering : text ∈ renderings negative integer fraction) :
    ∃ tail, IsTail fraction tail ∧
      normalizeNumber text = minus negative ++ Nat.toDigits 10 integer ++ tail := by
  obtain ⟨sign, form, mark, decimal, format, rfl⟩ := mem_renderings.mp rendering
  refine ⟨_, ?_, normalizeNumber_rendering large isFraction form format⟩
  by_cases merged : mark ∈ groupSeparators ∧ fraction.length = 3
  · exact .inr ⟨if_pos merged, merged.2⟩
  · exact .inl (if_neg merged)

/-- The renderings of a number have one normal form, and no other number has it. -/
def Equivalent (integer : Nat) (fraction : Text) : Prop :=
  (∀ negative, ∀ text ∈ renderings negative integer fraction,
    ∀ other ∈ renderings negative integer fraction, normalizeNumber text = normalizeNumber other) ∧
  ∀ negative negative' integer' fraction', 1000 ≤ integer' → IsFraction fraction' →
    ∀ text ∈ renderings negative integer fraction, ∀ other ∈ renderings negative' integer' fraction',
      normalizeNumber text = normalizeNumber other →
        negative = negative' ∧ integer = integer' ∧ fraction = fraction'

/-- The formats agree on a number exactly when its fraction has not three digits. -/
theorem formats_equivalent_iff (large : 1000 ≤ integer) (isFraction : IsFraction fraction) :
    Equivalent integer fraction ↔ fraction.length ≠ 3 := by
  constructor
  · rintro ⟨agree, _⟩ three
    have unsigned : [] ∈ signForms false := List.mem_singleton_self []
    have spaced : (' ', ',') ∈ formats := by simp [formats, groupSeparators]
    have dotted : ('.', ',') ∈ formats := by simp [formats]
    have merged := normalizeNumber_rendering large isFraction unsigned spaced
    have pointed := normalizeNumber_rendering large isFraction unsigned dotted
    rw [if_pos ⟨by simp [groupSeparators], three⟩] at merged
    rw [if_neg (by simp [groupSeparators])] at pointed
    have same := agree false _ (mem_renderings.mpr ⟨[], unsigned, ' ', ',', spaced, rfl⟩) _
      (mem_renderings.mpr ⟨[], unsigned, '.', ',', dotted, rfl⟩)
    rw [merged, pointed] at same
    have lengths := congrArg List.length (List.append_cancel_left same)
    rw [List.length_cons] at lengths
    omega
  · intro other
    refine ⟨?_, ?_⟩
    · intro negative text rendering text' rendering'
      obtain ⟨tail, isTail, normal⟩ := exists_tail large isFraction rendering
      obtain ⟨tail', isTail', normal'⟩ := exists_tail large isFraction rendering'
      rw [normal, normal', isTail.resolve_right fun merged => other merged.2,
        isTail'.resolve_right fun merged => other merged.2]
    · intro negative negative' integer' fraction' large' isFraction' text rendering text' rendering' same
      obtain ⟨tail, isTail, normal⟩ := exists_tail large isFraction rendering
      obtain ⟨tail', isTail', normal'⟩ := exists_tail large' isFraction' rendering'
      exact normal_injective isFraction isFraction' isTail isTail' (normal.symm.trans (same.trans normal'))

theorem formats_equivalent_tenths : Equivalent 1234 ['5'] :=
  (formats_equivalent_iff (by decide) ⟨by decide, by simp⟩).mpr (by decide)

/-- With three digits the space is gone and the comma is taken for a group. -/
theorem thousandths_merged : ¬Equivalent 1234 ['5', '6', '7'] := by
  rintro ⟨agree, _⟩
  have same := agree false "1 234,567".toList (by decide +kernel) "1.234,567".toList (by decide +kernel)
  revert same
  decide +kernel

end Renderings
end Collector.Translation
