import Collector.Lib.Labels
import Mathlib

/-!
The text of a URL with an authority, taken apart and put together as `urllib.parse` does it: white
space and controls in front are skipped, tabs and line ends dropped, and the first delimiters decide.
Parts of the right characters are read back from the text they are written to; so are they without
the white space at the end of that text.
-/

namespace Collector.Lib

/-- The five parts of a URL. -/
structure UrlText where
  scheme : List Char
  netloc : List Char
  path : List Char
  query : List Char
  fragment : List Char
  deriving DecidableEq

namespace UrlText

/-- The controls of ASCII and the space. -/
def isControl (c : Char) : Bool := decide (c.toNat ≤ 0x20)

/-- The characters that are dropped wherever they stand. -/
def isDropped (c : Char) : Bool := decide (c ∈ ['\t', '\r', '\n'])

def isSchemeChar (c : Char) : Bool := c.isAlphanum || decide (c ∈ ['+', '-', '.'])

/-- A character that does not end the authority. -/
def isAuthority (c : Char) : Bool := decide (c ∉ ['/', '?', '#'])

/-- `text.partition(x)` without the separator. -/
def cut (x : Char) (text : List Char) : List Char × List Char :=
  (text.takeWhile fun c => decide (c ≠ x), (text.dropWhile fun c => decide (c ≠ x)).tail)

/-- A scheme of ASCII letters, digits and marks before the first colon, in lower case. -/
def splitScheme (text : List Char) : List Char × List Char :=
  let name := text.takeWhile fun c => decide (c ≠ ':')
  if ':' ∈ text ∧ name.head?.any Char.isAlpha = true ∧ name.all isSchemeChar = true then
    (name.map Char.toLower, (cut ':' text).2)
  else ([], text)

def splitNetloc (text : List Char) : List Char × List Char :=
  if ['/', '/'].isPrefixOf text then
    ((text.drop 2).takeWhile isAuthority, (text.drop 2).dropWhile isAuthority)
  else ([], text)

/-- `urlsplit`, but for the checks of the authority. -/
def read (url : List Char) : UrlText :=
  let text := (url.dropWhile isControl).filter fun c => !isDropped c
  let (scheme, text) := splitScheme text
  let (netloc, text) := splitNetloc text
  let (text, fragment) := cut '#' text
  let (path, query) := cut '?' text
  ⟨scheme, netloc, path, query, fragment⟩

/-- `urlunsplit`; `hierarchical` are the schemes that take an empty authority. -/
def write (hierarchical : List (List Char)) (url : UrlText) : List Char :=
  let slashes := ['/', '/']
  let text :=
    if url.netloc ≠ [] then
      slashes ++ url.netloc ++ (if url.path ≠ [] ∧ url.path.head? ≠ some '/' then '/' :: url.path else url.path)
    else if slashes.isPrefixOf url.path then slashes ++ url.path
    else if url.scheme ≠ [] ∧ hierarchical.contains url.scheme ∧ (url.path = [] ∨ url.path.head? = some '/') then
      slashes ++ url.path
    else url.path
  let text := if url.scheme ≠ [] then url.scheme ++ ':' :: text else text
  let text := if url.query ≠ [] then text ++ '?' :: url.query else text
  if url.fragment ≠ [] then text ++ '#' :: url.fragment else text

section Cut

theorem takeWhile_stop {p : Char → Bool} {x : Char} (other : p x = false) {text : List Char}
    (meets : ∀ c ∈ text, p c = true) (rest : List Char) : (text ++ x :: rest).takeWhile p = text := by
  rw [List.takeWhile_append_of_pos meets, List.takeWhile_cons_of_neg (by simp [other]), List.append_nil]

theorem cut_of_notMem {x : Char} {text : List Char} (free : x ∉ text) : cut x text = (text, []) := by
  have meets : ∀ c ∈ text, decide (c ≠ x) = true := by
    intro c member
    exact decide_eq_true fun same => free (same ▸ member)
  rw [cut, List.takeWhile_eq_self_iff.mpr meets, List.dropWhile_eq_nil_iff.mpr meets]
  rfl

theorem cut_append {x : Char} {text : List Char} (free : x ∉ text) (rest : List Char) :
    cut x (text ++ x :: rest) = (text, rest) := by
  have meets : ∀ c ∈ text, decide (c ≠ x) = true := by
    intro c member
    exact decide_eq_true fun same => free (same ▸ member)
  have stop : decide (x ≠ x) = false := by simp
  have drops := Labels.dropWhile_stop (p := fun c => decide (c ≠ x)) stop text rest
  rw [cut, takeWhile_stop stop meets, drops, List.dropWhile_eq_nil_iff.mpr meets]
  rfl

theorem notMem_cut_fst (x : Char) (text : List Char) : x ∉ (cut x text).1 := by
  intro member
  simpa using List.mem_takeWhile_imp member

theorem cut_subset {x : Char} {text : List Char} {c : Char} (member : c ∈ (cut x text).1 ∨ c ∈ (cut x text).2) :
    c ∈ text := by
  rcases member with early | late
  · exact List.takeWhile_subset _ early
  · exact List.dropWhile_subset _ (List.mem_of_mem_tail late)

end Cut

section Characters

theorem not_isControl_of_isAlpha {c : Char} (letter : c.isAlpha = true) : isControl c = false := by
  simp only [Char.isAlpha, Char.isUpper, Char.isLower, Bool.or_eq_true, Bool.and_eq_true, decide_eq_true_eq,
    UInt32.le_iff_toNat_le] at letter
  have upper : 'A'.val.toNat = 65 := rfl
  have lower : 'a'.val.toNat = 97 := rfl
  refine decide_eq_false ?_
  change ¬c.val.toNat ≤ 32
  omega

theorem isSchemeChar_toLower {c : Char} (meets : isSchemeChar c = true) : isSchemeChar c.toLower = true := by
  by_cases letter : c.isAlpha = true
  · have lower : c.toLower.isAlpha = true := by rw [Char.isAlpha_toLower_eq_isAlpha, letter]
    simp [isSchemeChar, Char.isAlphanum, lower]
  · have upper : ¬c.isUpper = true := fun upper => letter (by simp [Char.isAlpha, upper])
    rw [Char.toLower_eq_of_not_isUpper upper]
    exact meets

theorem not_isSchemeChar_of_isDropped {c : Char} (dropped : isDropped c = true) : isSchemeChar c = false := by
  have one : c ∈ ['\t', '\r', '\n'] := of_decide_eq_true dropped
  fin_cases one <;> decide

end Characters

section RoundTrip

/-- The scheme of a text that was read. -/
def IsScheme (scheme : List Char) : Prop :=
  scheme = [] ∨ scheme.head?.any Char.isAlpha = true ∧ scheme.all isSchemeChar = true ∧
    scheme.map Char.toLower = scheme

/-- The parts that a text can carry, for a URL with an authority and without a fragment. -/
structure Formed (url : UrlText) : Prop where
  scheme : IsScheme url.scheme
  present : url.netloc ≠ []
  authority : ∀ c ∈ url.netloc, isAuthority c = true
  rooted : url.path.head? = some '/'
  path : '?' ∉ url.path ∧ '#' ∉ url.path
  query : '#' ∉ url.query
  fragment : url.fragment = []
  kept : ∀ c ∈ url.netloc ++ url.path ++ url.query, isDropped c = false

/-- The text up to the path. -/
def front (url : UrlText) : List Char :=
  (if url.scheme ≠ [] then url.scheme ++ [':'] else []) ++ '/' :: '/' :: (url.netloc ++ url.path)

variable {url : UrlText}

theorem write_eq (formed : Formed url) (hierarchical : List (List Char)) :
    write hierarchical url = front url ++ if url.query ≠ [] then '?' :: url.query else [] := by
  have rooted : ¬(url.path ≠ [] ∧ url.path.head? ≠ some '/') := fun both => both.2 formed.rooted
  unfold write front
  dsimp only
  rw [if_pos formed.present, if_neg rooted, if_neg (not_not.mpr formed.fragment)]
  by_cases noScheme : url.scheme = [] <;> by_cases noQuery : url.query = [] <;> simp [noScheme, noQuery]

theorem notMem_scheme {c : Char} {scheme : List Char} (isScheme : IsScheme scheme)
    (other : isSchemeChar c = false) : c ∉ scheme := by
  intro member
  rcases isScheme with rfl | ⟨_, all, _⟩
  · cases member
  · have meets := List.all_eq_true.mp all c member
    rw [other] at meets
    cases meets

theorem splitScheme_front (formed : Formed url) (tail : List Char) :
    splitScheme (front url ++ tail) = (url.scheme, '/' :: '/' :: (url.netloc ++ url.path ++ tail)) := by
  by_cases noScheme : url.scheme = []
  · have text : front url ++ tail = '/' :: '/' :: (url.netloc ++ url.path ++ tail) := by
      simp [front, noScheme]
    rw [text, splitScheme, if_neg, noScheme]
    rintro ⟨_, letter, _⟩
    rw [List.takeWhile_cons_of_pos (by decide)] at letter
    simp at letter
  · have text : front url ++ tail = url.scheme ++ ':' :: '/' :: '/' :: (url.netloc ++ url.path ++ tail) := by
      simp [front, noScheme]
    obtain ⟨letter, all, lower⟩ := formed.scheme.resolve_left noScheme
    have free : ':' ∉ url.scheme := notMem_scheme formed.scheme (by decide)
    have cutText := cut_append free ('/' :: '/' :: (url.netloc ++ url.path ++ tail))
    have name : (front url ++ tail).takeWhile (fun c => decide (c ≠ ':')) = url.scheme := by
      rw [text]
      exact congrArg Prod.fst cutText
    rw [splitScheme, name, if_pos, lower, text, cutText]
    exact ⟨by rw [text]; simp, letter, all⟩

theorem splitNetloc_front (formed : Formed url) (tail : List Char) :
    splitNetloc ('/' :: '/' :: (url.netloc ++ url.path ++ tail)) = (url.netloc, url.path ++ tail) := by
  obtain ⟨rest, path⟩ : ∃ rest, url.path = '/' :: rest := by
    cases shape : url.path with
    | nil =>
      have rooted := formed.rooted
      rw [shape] at rooted
      cases rooted
    | cons c rest =>
      have rooted := formed.rooted
      rw [shape] at rooted
      cases rooted
      exact ⟨rest, rfl⟩
  have slash : isAuthority '/' = false := by decide
  have drop : ('/' :: '/' :: (url.netloc ++ url.path ++ tail)).drop 2 = url.netloc ++ '/' :: (rest ++ tail) := by
    rw [path]
    simp
  have slashes : ['/', '/'].isPrefixOf ('/' :: '/' :: (url.netloc ++ url.path ++ tail)) = true := by
    simp [List.isPrefixOf]
  rw [splitNetloc, if_pos slashes, drop, takeWhile_stop slash formed.authority, Labels.dropWhile_stop slash,
    List.dropWhile_eq_nil_iff.mpr formed.authority, path, List.nil_append, List.cons_append]

/-- What is written up to the path is read back, whatever query follows. -/
theorem read_front (formed : Formed url) {tail : List Char} (tailKept : ∀ c ∈ tail, isDropped c = false)
    (noHash : '#' ∉ tail) :
    read (front url ++ tail) =
      ⟨url.scheme, url.netloc, (cut '?' (url.path ++ tail)).1, (cut '?' (url.path ++ tail)).2, []⟩ := by
  have starts : (front url ++ tail).dropWhile isControl = front url ++ tail := by
    rcases formed.scheme with noScheme | ⟨letter, _, _⟩
    · simp [front, noScheme, isControl]
    · cases shape : url.scheme with
      | nil => simp [front, shape, isControl]
      | cons c rest =>
        rw [shape, List.head?_cons, Option.any_some] at letter
        have visible : isControl c = false := not_isControl_of_isAlpha letter
        simp [front, shape, visible]
  have stays : (front url ++ tail).filter (fun c => !isDropped c) = front url ++ tail := by
    rw [List.filter_eq_self]
    intro c member
    have part : c ∈ url.scheme ∨ c ∈ [':', '/'] ∨ c ∈ url.netloc ++ url.path ++ url.query ∨ c ∈ tail := by
      by_cases noScheme : url.scheme = [] <;> simp [front, noScheme] at member ⊢ <;> grind
    rcases part with inScheme | mark | inside | behind
    · cases dropped : isDropped c with
      | false => rfl
      | true => exact absurd inScheme (notMem_scheme formed.scheme (not_isSchemeChar_of_isDropped dropped))
    · fin_cases mark <;> rfl
    · rw [formed.kept c inside]
      rfl
    · rw [tailKept c behind]
      rfl
  have free : '#' ∉ url.path ++ tail := by simp [formed.path.2, noHash]
  rw [read, starts, stays, splitScheme_front formed]
  dsimp only
  rw [splitNetloc_front formed, cut_of_notMem free]

theorem read_front_nil (formed : Formed url) : read (front url) = { url with query := [] } := by
  have nothing : ∀ c ∈ ([] : List Char), isDropped c = false := List.forall_mem_nil _
  have reads := read_front formed nothing List.not_mem_nil
  rw [List.append_nil, List.append_nil, cut_of_notMem formed.path.1] at reads
  rw [reads, formed.fragment]

theorem read_front_query (formed : Formed url) {query : List Char} (queryKept : ∀ c ∈ query, isDropped c = false)
    (noHash : '#' ∉ query) : read (front url ++ '?' :: query) = { url with query } := by
  have tailKept : ∀ c ∈ '?' :: query, isDropped c = false := by
    rw [List.forall_mem_cons]
    exact ⟨by decide, queryKept⟩
  have reads := read_front formed tailKept (by simp [noHash])
  rw [cut_append formed.path.1, ← formed.fragment] at reads
  exact reads

/-- What is written is read back. -/
theorem read_write (formed : Formed url) (hierarchical : List (List Char)) : read (write hierarchical url) = url := by
  rw [write_eq formed]
  by_cases noQuery : url.query = []
  · rw [if_neg (not_not.mpr noQuery), List.append_nil, read_front_nil formed, ← noQuery]
  · rw [if_pos noQuery]
    exact read_front_query formed
      (fun c member => formed.kept c (List.mem_append_right _ member)) formed.query

end RoundTrip

section Trimming
variable {blank : Char → Bool} {url : UrlText}

/-- The parts without the white space at the end of the text. -/
def trimmed (blank : Char → Bool) (url : UrlText) : UrlText :=
  if url.query ≠ [] then { url with query := url.query.rdropWhile blank }
  else { url with path := url.path.rdropWhile blank }

theorem Formed.path_cons (formed : Formed url) : ∃ rest, url.path = '/' :: rest := by
  have rooted := formed.rooted
  cases shape : url.path with
  | nil =>
    rw [shape] at rooted
    cases rooted
  | cons c rest =>
    rw [shape] at rooted
    cases rooted
    exact ⟨rest, rfl⟩

theorem Formed.trimmed (formed : Formed url) (slash : blank '/' = false) : Formed (trimmed blank url) := by
  rw [UrlText.trimmed]
  split
  · have less : url.query.rdropWhile blank ⊆ url.query := (List.rdropWhile_prefix _ _).subset
    exact { formed with
      query := fun member => formed.query (less member)
      kept := by
        intro c member
        refine formed.kept c ?_
        rcases List.mem_append.mp member with early | late
        · exact List.mem_append_left _ early
        · exact List.mem_append_right _ (less late) }
  · have less : url.path.rdropWhile blank ⊆ url.path := (List.rdropWhile_prefix _ _).subset
    exact { formed with
      rooted := by
        obtain ⟨rest, shape⟩ := formed.path_cons
        have stop := Labels.rdropWhile_stop slash [] rest
        rw [List.nil_append, List.nil_append] at stop
        rw [shape, stop]
        rfl
      path := ⟨fun member => formed.path.1 (less member), fun member => formed.path.2 (less member)⟩
      kept := by
        intro c member
        refine formed.kept c ?_
        simp only [List.mem_append] at member ⊢
        rcases member with (early | middle) | late
        · exact .inl (.inl early)
        · exact .inl (.inr (less middle))
        · exact .inr late }

/-- White space at the end of a written text is in its query, or in its path where it has none. -/
theorem read_strip_write (formed : Formed url) (hierarchical : List (List Char)) (slash : blank '/' = false)
    (mark : blank '?' = false) (schemes : ∀ c, isSchemeChar c = true → blank c = false) :
    read (((write hierarchical url).dropWhile blank).rdropWhile blank) = trimmed blank url := by
  have starts (tail : List Char) : (front url ++ tail).dropWhile blank = front url ++ tail := by
    rcases formed.scheme with noScheme | ⟨letter, all, _⟩
    · simp [front, noScheme, slash]
    · cases shape : url.scheme with
      | nil => simp [front, shape, slash]
      | cons c rest =>
        rw [shape] at all
        have visible := schemes c (List.all_eq_true.mp all c List.mem_cons_self)
        simp [front, shape, visible]
  have again := formed.trimmed slash
  rw [write_eq formed, starts]
  by_cases noQuery : url.query = []
  · rw [if_neg (not_not.mpr noQuery), List.append_nil]
    have same : trimmed blank url = { url with path := url.path.rdropWhile blank } := if_neg (not_not.mpr noQuery)
    obtain ⟨rest, shape⟩ := formed.path_cons
    have front_eq : (front url).rdropWhile blank = front (trimmed blank url) := by
      have split : front url = (if url.scheme ≠ [] then url.scheme ++ [':'] else []) ++ '/' :: '/' :: url.netloc ++
          '/' :: rest := by
        rw [front, shape]
        simp
      have stop := Labels.rdropWhile_stop slash [] rest
      rw [List.nil_append, List.nil_append] at stop
      rw [split, Labels.rdropWhile_stop slash, same, front, shape, stop]
      simp
    rw [front_eq, read_front_nil again, same]
    dsimp only
    rw [← noQuery]
  · have same : trimmed blank url = { url with query := url.query.rdropWhile blank } := if_pos noQuery
    rw [if_pos noQuery, Labels.rdropWhile_stop mark, read_front_query formed, same]
    · intro c member
      exact formed.kept c (List.mem_append_right _ ((List.rdropWhile_prefix _ _).subset member))
    · exact fun member => formed.query ((List.rdropWhile_prefix _ _).subset member)

end Trimming

section Parts
variable {url : UrlText}

/-- What is known of the parts of any text. -/
structure Parsed (url : UrlText) : Prop where
  scheme : IsScheme url.scheme
  authority : ∀ c ∈ url.netloc, isAuthority c = true
  rooted : url.netloc ≠ [] → url.path = [] ∨ url.path.head? = some '/'
  path : '?' ∉ url.path ∧ '#' ∉ url.path
  query : '#' ∉ url.query
  kept : ∀ c ∈ url.netloc ++ url.path ++ url.query, isDropped c = false

theorem isScheme_splitScheme (text : List Char) : IsScheme (splitScheme text).1 := by
  rw [splitScheme]
  split
  · rename_i named
    refine .inr ⟨?_, ?_, ?_⟩
    · rw [List.head?_map, Option.any_map]
      simpa [Function.comp_def, Char.isAlpha_toLower_eq_isAlpha] using named.2.1
    · rw [List.all_map]
      refine List.all_eq_true.mpr fun c member => ?_
      exact isSchemeChar_toLower (List.all_eq_true.mp named.2.2 c member)
    · rw [List.map_map]
      refine List.map_congr_left fun c _ => ?_
      exact Char.toLower_toLower_eq_toLower c
  · exact .inl rfl

theorem splitScheme_subset {text : List Char} {c : Char} (member : c ∈ (splitScheme text).2) : c ∈ text := by
  rw [splitScheme] at member
  split at member
  · exact cut_subset (.inr member)
  · exact member

theorem splitNetloc_subset {text : List Char} {c : Char}
    (member : c ∈ (splitNetloc text).1 ∨ c ∈ (splitNetloc text).2) : c ∈ text := by
  rw [splitNetloc] at member
  split at member
  · refine List.drop_subset 2 text ?_
    rcases member with early | late
    · exact List.takeWhile_subset _ early
    · exact List.dropWhile_subset _ late
  · rcases member with early | late
    · cases early
    · exact late

theorem splitNetloc_head {text : List Char} (present : (splitNetloc text).1 ≠ []) :
    ∀ c, (splitNetloc text).2.head? = some c → isAuthority c = false := by
  rw [splitNetloc] at present ⊢
  split at present
  · rename_i slashes
    rw [if_pos slashes]
    intro c first
    have stops := List.head?_dropWhile_not isAuthority (text.drop 2)
    rw [first] at stops
    simpa using stops
  · exact absurd rfl present

theorem parsed_read (text : List Char) : Parsed (read text) := by
  have kept : ∀ c ∈ (text.dropWhile isControl).filter fun c => !isDropped c, isDropped c = false := by
    intro c member
    simpa using (List.mem_filter.mp member).2
  refine ⟨isScheme_splitScheme _, ?_, ?_, ?_, ?_, ?_⟩
  all_goals simp only [read]
  all_goals generalize (text.dropWhile isControl).filter (fun c => !isDropped c) = clean at kept ⊢
  · intro c member
    rw [splitNetloc] at member
    split at member
    · exact List.mem_takeWhile_imp member
    · cases member
  · intro present
    have head := splitNetloc_head present
    generalize (splitNetloc (splitScheme clean).2).2 = rest at head ⊢
    cases rest with
    | nil => exact .inl rfl
    | cons c rest =>
      have stops := head c rfl
      have mark : c = '/' ∨ c = '?' ∨ c = '#' := by
        simpa [isAuthority, or_iff_not_imp_left] using stops
      rcases mark with rfl | rfl | rfl
      · exact .inr (by simp [cut])
      · exact .inl (by simp [cut])
      · exact .inl (by simp [cut])
  · refine ⟨notMem_cut_fst '?' _, fun member => notMem_cut_fst '#' _ (cut_subset (.inl member))⟩
  · exact fun member => notMem_cut_fst '#' _ (cut_subset (.inr member))
  · intro c member
    refine kept c (splitScheme_subset ?_)
    simp only [List.mem_append] at member
    rcases member with (early | middle) | late
    · exact splitNetloc_subset (.inl early)
    · exact splitNetloc_subset (.inr (cut_subset (.inl (cut_subset (.inl middle)))))
    · exact splitNetloc_subset (.inr (cut_subset (.inl (cut_subset (.inr late)))))

end Parts

end UrlText

end Collector.Lib
