import Collector.Workers.Redaction
import Mathlib.Data.Bool.AllAny

/-!
Which passwords the redaction hides: those whose user the expression reads whole, as far as the
first `@` of the password. What stands behind that `@`, and the password of a user that is empty,
begins with a colon or holds an `@`, goes through.
-/

namespace Collector.Workers
open Collector.Lib
open Collector.Lib.Regex (afterOne afterText)
open Collector.Persistence (isSpace)

section Passwords

/-- A text that may stand in the user or the password of a URL. -/
def Plain (text : List Char) : Prop := ∀ c ∈ text, isSpace c = false ∧ c ≠ '/'

/-- The users the expression reads whole, up to the last colon. -/
structure UserRead (user : List Char) : Prop where
  first : ∃ c rest, user = c :: rest ∧ c ≠ ':'
  free : '@' ∉ user

/-- A password from its first `@` on. -/
def fromAt (password : List Char) : List Char := password.dropWhile fun c => decide (c ≠ '@')

theorem isPassword_of_plain {text : List Char} (plain : Plain text) (free : '@' ∉ text) :
    ∀ c ∈ text, isPassword c = true := by
  intro c member
  have other : c ≠ '@' := by
    rintro rfl
    exact free member
  simp [isPassword, plain c member, other]

theorem isUser_of_plain {text : List Char} (plain : Plain text) (free : '@' ∉ text) {c : Char} (member : c ∈ text) :
    isUser c = decide (c ≠ ':') := by
  have other : c ≠ '@' := by
    rintro rfl
    exact free member
  simp [isUser, plain c member, other]

theorem afterPassword_plain {user password : List Char} (plainUser : Plain user) (plainPassword : Plain password)
    (read : UserRead user) (free : '@' ∉ password) : afterPassword (user ++ ':' :: password) = some [] := by
  obtain ⟨⟨c, rest, rfl, other⟩, userFree⟩ := read
  have restFree : '@' ∉ rest := fun member => userFree (List.mem_cons_of_mem c member)
  have plainRest : Plain rest := fun d member => plainUser d (List.mem_cons_of_mem c member)
  have starts : isUser c = true := by
    rw [isUser_of_plain plainUser userFree List.mem_cons_self]
    exact decide_eq_true other
  have all (text : List Char) (meets : ∀ d ∈ text, isPassword d = true) : text.dropWhile isPassword = [] :=
    List.dropWhile_eq_nil_iff.mpr meets
  have passwordRead := isPassword_of_plain plainPassword free
  have colon : isUser ':' = false := by decide
  rw [afterPassword, List.cons_append, afterOne, if_pos starts, Option.bind_some, Labels.dropWhile_stop colon]
  cases stop : rest.dropWhile isUser with
  | nil => simp [afterText, afterOne, all password passwordRead]
  | cons d tail =>
    obtain ⟨names, split⟩ := List.dropWhile_suffix isUser (l := rest)
    rw [stop] at split
    have inside : ∀ e ∈ d :: tail, e ∈ rest := fun e member => split ▸ List.mem_append_right names member
    have stops : isUser d = false := by simpa [stop] using List.head?_dropWhile_not isUser rest
    rw [isUser_of_plain plainRest restFree (inside d List.mem_cons_self)] at stops
    have mark : d = ':' := by simpa using stops
    have tailRead : ∀ e ∈ tail ++ ':' :: password, isPassword e = true := by
      intro e member
      rcases List.mem_append.mp member with early | late
      · exact isPassword_of_plain plainRest restFree e (inside e (List.mem_cons_of_mem d early))
      · rcases List.mem_cons.mp late with rfl | late
        · decide
        · exact passwordRead e late
    simp [mark, afterText, afterOne, all _ tailRead]

theorem takeWhile_fromAt (password : List Char) :
    ∃ head, password = head ++ fromAt password ∧ '@' ∉ head := by
  refine ⟨password.takeWhile fun c => decide (c ≠ '@'), List.takeWhile_append_dropWhile.symm, fun member => ?_⟩
  simpa using List.mem_takeWhile_imp member

theorem fromAt_cases (password : List Char) : fromAt password = [] ∨ ∃ tail, fromAt password = '@' :: tail := by
  cases shape : fromAt password with
  | nil => exact .inl rfl
  | cons c tail =>
    have stops := List.head?_dropWhile_not (fun c => decide (c ≠ '@')) password
    rw [fromAt] at shape
    rw [shape] at stops
    have mark : c = '@' := by simpa using stops
    exact .inr ⟨tail, by rw [mark]⟩

/-- The credentials leave what stands behind the first `@` from the password on. -/
theorem afterUser_read {user password : List Char} (plainUser : Plain user) (plainPassword : Plain password)
    (read : UserRead user) (post : List Char) :
    afterUser (user ++ ':' :: (password ++ '@' :: post)) = some (fromAt password ++ '@' :: post).tail := by
  obtain ⟨head, split, free⟩ := takeWhile_fromAt password
  have starts : ∃ rest, fromAt password ++ '@' :: post = '@' :: rest := by
    rcases fromAt_cases password with none | ⟨tail, more⟩
    · exact ⟨post, by rw [none, List.nil_append]⟩
    · exact ⟨tail ++ '@' :: post, by rw [more, List.cons_append]⟩
  obtain ⟨rest, tail⟩ := starts
  have plainHead : Plain head := fun c member => plainPassword c (split ▸ List.mem_append_left _ member)
  have whole : user ++ ':' :: (password ++ '@' :: post) = (user ++ ':' :: head) ++ '@' :: rest := by
    rw [← tail]
    nth_rewrite 1 [split]
    simp
  have none : '@' ∉ user ++ ':' :: head := by
    simp [read.free, free]
  rw [whole, afterUser_at none, if_pos (afterPassword_plain plainUser plainHead read free), tail, List.tail_cons]

/-- A message with a URL: `pre`, the URL up to its `@`, and `post`. -/
def urlMessage (pre scheme user password post : String) : String :=
  pre ++ scheme ++ "://" ++ user ++ ":" ++ password ++ "@" ++ post

theorem toList_urlMessage (pre scheme user password post : String) :
    (urlMessage pre scheme user password post).toList = (pre.toList ++ scheme.toList) ++ ':' :: '/' :: '/' ::
      (user.toList ++ ':' :: (password.toList ++ '@' :: post.toList)) := by
  simp only [urlMessage, String.toList_append, schemeEnd, List.append_assoc]
  rfl

end Passwords

section Redactions
variable {word : Char → Bool}

theorem slash_of_reads {text : List Char} (read : Regex.Reads (credentialsInUrl word) text) : '/' ∈ text := by
  cases read with
  | seq scheme _ =>
    cases scheme with
    | group scheme =>
      cases scheme with
      | seq _ names =>
        cases names with
        | seq _ mark =>
          rw [Regex.eq_of_reads_text mark]
          simp

theorem equals_of_reads {text : List Char} (read : Regex.Reads secretQueryParam text) : '=' ∈ text := by
  cases read with
  | seq _ rest =>
    cases rest with
    | seq mark _ =>
      rw [Regex.eq_of_reads_text mark]
      simp

/-- A URL on its own, whose credentials are replaced or left as they are. -/
theorem scrub_lone (wordClass : WordClass word) {text : List Char} (free : '/' ∉ text) :
    scrub word ('a' :: ':' :: '/' :: '/' :: text) = match afterUser text with
      | some rest => ['a', ':', '/', '/'] ++ redacted ++ '@' :: rest
      | none => 'a' :: ':' :: '/' :: '/' :: text := by
  have scheme : afterScheme word ('a' :: ':' :: '/' :: '/' :: text) = some text :=
    afterScheme_whole wordClass (by decide : isLetter 'a' = true) (List.forall_mem_nil _) text
  have still {rest : List Char} (free : '/' ∉ rest) : scrub word rest = rest :=
    Regex.sub_eq_self (fun _ => slash_of_reads) free
  cases left : afterUser text with
  | some rest =>
    have restFree : '/' ∉ rest := fun member => free ((consumes_afterUser text rest left).subset member)
    have before : ('a' :: ':' :: '/' :: '/' :: text).take
        (('a' :: ':' :: '/' :: '/' :: text).length - text.length) = ['a', ':', '/', '/'] := by
      rw [List.length_cons, List.length_cons, List.length_cons, List.length_cons,
        show text.length + 1 + 1 + 1 + 1 - text.length = 4 by omega]
      rfl
    rw [scrub_credentials wordClass scheme left, before, still restFree]
  | none =>
    rw [scrub_cons wordClass (by rw [scheme, Option.bind_some, left]), scrub_cons wordClass (by rfl),
      scrub_cons wordClass (by rfl), scrub_cons wordClass (by rfl), still free]

theorem redact_eq_scrub {message : String} (free : '=' ∉ scrub word message.toList) :
    redact word message = String.ofList (scrub word message.toList) := by
  rw [redact, Regex.sub_eq_self (fun _ => equals_of_reads) free]

/-- The schemes the expression reads. -/
def IsScheme (word : Char → Bool) (scheme : String) : Prop :=
  ∃ c names, scheme.toList = c :: names ∧ isLetter c = true ∧ ∀ d ∈ names, isName word d = true

/-- No message with a URL of this user tells the two passwords apart. -/
def PasswordsHidden (word : Char → Bool) (user first second : String) : Prop :=
  ∀ pre scheme post, IsScheme word scheme →
    redact word (urlMessage pre scheme user first post) = redact word (urlMessage pre scheme user second post)

/-- The user is read whole, and the passwords do not differ from their first `@` on. -/
def SameBehindUser (user first second : String) : Prop :=
  UserRead user.toList ∧ fromAt first.toList = fromAt second.toList

theorem hidden_of_sameBehindUser (wordClass : WordClass word) {user first second : String}
    (plainUser : Plain user.toList) (plainFirst : Plain first.toList) (plainSecond : Plain second.toList)
    (same : SameBehindUser user first second) : PasswordsHidden word user first second := by
  rintro pre scheme post ⟨c, names, shape, letter, areNames⟩
  have one := afterUser_read plainUser plainFirst same.1 post.toList
  have other := afterUser_read plainUser plainSecond same.1 post.toList
  rw [same.2] at one
  have ends : EndsInScheme word (pre.toList ++ scheme.toList) :=
    ⟨pre.toList, c, names, by rw [shape], letter, areNames⟩
  rw [redact, redact, toList_urlMessage, toList_urlMessage, scrub_walk wordClass one other ends]

theorem redact_lone (wordClass : WordClass word) {user password : String} (plainUser : Plain user.toList)
    (plainPassword : Plain password.toList) (freeUser : '=' ∉ user.toList) (freePassword : '=' ∉ password.toList) :
    redact word (urlMessage "" "a" user password "") =
      String.ofList (match afterUser (user.toList ++ ':' :: (password.toList ++ ['@'])) with
        | some rest => ['a', ':', '/', '/'] ++ redacted ++ '@' :: rest
        | none => 'a' :: ':' :: '/' :: '/' :: (user.toList ++ ':' :: (password.toList ++ ['@']))) := by
  have noSlash : '/' ∉ user.toList ++ ':' :: (password.toList ++ ['@']) := by
    have one : '/' ∉ user.toList := fun member => (plainUser _ member).2 rfl
    have other : '/' ∉ password.toList := fun member => (plainPassword _ member).2 rfl
    simp [one, other]
  have noEquals : '=' ∉ user.toList ++ ':' :: (password.toList ++ ['@']) := by simp [freeUser, freePassword]
  have scrubbed := scrub_lone wordClass noSlash
  have whole : (urlMessage "" "a" user password "").toList =
      'a' :: ':' :: '/' :: '/' :: (user.toList ++ ':' :: (password.toList ++ ['@'])) := by
    rw [toList_urlMessage]
    rfl
  have free : '=' ∉ scrub word (urlMessage "" "a" user password "").toList := by
    rw [whole, scrubbed]
    cases left : afterUser (user.toList ++ ':' :: (password.toList ++ ['@'])) with
    | none => simpa using noEquals
    | some rest =>
      have restFree : '=' ∉ rest := fun member => noEquals ((consumes_afterUser _ rest left).subset member)
      have mark : '=' ∉ redacted := by decide
      simp only [List.mem_append, List.mem_cons, List.not_mem_nil, not_or]
      exact ⟨⟨by decide, mark⟩, by decide, restFree⟩
  rw [redact_eq_scrub free, whole, scrubbed]

/-- What is behind the credentials tells the passwords apart, or they were the same. -/
theorem same_of_afterUser {user first second : List Char} (plainUser : Plain user) (plainFirst : Plain first)
    (plainSecond : Plain second) {replaced : List Char → List Char} (injective : Function.Injective replaced)
    (left : (match afterUser (user ++ ':' :: (first ++ ['@'])) with
        | some rest => replaced rest
        | none => 'a' :: ':' :: '/' :: '/' :: (user ++ ':' :: (first ++ ['@']))) =
      match afterUser (user ++ ':' :: (second ++ ['@'])) with
        | some rest => replaced rest
        | none => 'a' :: ':' :: '/' :: '/' :: (user ++ ':' :: (second ++ ['@']))) :
    first = second ∨ UserRead user ∧ fromAt first = fromAt second := by
  have unread (front : List Char) (same : front ++ ':' :: (first ++ ['@']) = front ++ ':' :: (second ++ ['@'])) :
      first = second := by simpa using same
  have starts (rest : List Char) : afterUser (':' :: rest) = none := rfl
  obtain ⟨head, split, free⟩ := takeWhile_fromAt user
  rcases fromAt_cases user with none | ⟨tail, more⟩
  · rw [none, List.append_nil] at split
    subst split
    cases user with
    | nil =>
      rw [List.nil_append, List.nil_append, starts, starts] at left
      exact .inl (unread [] (by simpa using left))
    | cons c rest =>
      by_cases colon : c = ':'
      · subst colon
        rw [List.cons_append, List.cons_append, starts, starts] at left
        exact .inl (unread rest (by simpa using left))
      · have read : UserRead (c :: rest) := ⟨⟨c, rest, rfl, colon⟩, free⟩
        rw [afterUser_read plainUser plainFirst read, afterUser_read plainUser plainSecond read] at left
        refine .inr ⟨read, ?_⟩
        have tails := injective left
        rcases fromAt_cases first with one | ⟨one, here⟩ <;> rcases fromAt_cases second with two | ⟨two, there⟩
        · rw [one, two]
        · rw [one, there] at tails
          simp at tails
        · rw [here, two] at tails
          simp at tails
        · rw [here, there] at tails ⊢
          simpa using tails
  · rw [more] at split
    subst split
    have reach (password : List Char) : head ++ '@' :: tail ++ ':' :: (password ++ ['@']) =
        head ++ '@' :: (tail ++ ':' :: (password ++ ['@'])) := by simp
    rw [reach, reach, afterUser_at free, afterUser_at free] at left
    by_cases ends : afterPassword head = some []
    · rw [if_pos ends, if_pos ends] at left
      exact .inl (unread tail (injective left))
    · rw [if_neg ends, if_neg ends] at left
      exact .inl (unread (head ++ '@' :: tail) (by simpa using left))

/-- The redaction hides a password whose user is not empty, does not begin with a colon and has no
`@`, up to the first `@` of the password; and no other one, where no secret query parameter can cover
what is left. -/
theorem passwords_hidden_iff (wordClass : WordClass word) {user first second : String}
    (plainUser : Plain user.toList) (plainFirst : Plain first.toList) (plainSecond : Plain second.toList) :
    (first = second ∨ SameBehindUser user first second → PasswordsHidden word user first second) ∧
      ('=' ∉ user.toList → '=' ∉ first.toList → '=' ∉ second.toList →
        (PasswordsHidden word user first second ↔ first = second ∨ SameBehindUser user first second)) := by
  have enough : first = second ∨ SameBehindUser user first second → PasswordsHidden word user first second := by
    rintro (rfl | same)
    · exact fun pre scheme post isScheme => rfl
    · exact hidden_of_sameBehindUser wordClass plainUser plainFirst plainSecond same
  refine ⟨enough, fun freeUser freeFirst freeSecond => ⟨fun hidden => ?_, enough⟩⟩
  have isScheme : IsScheme word "a" := ⟨'a', [], rfl, by decide, List.forall_mem_nil _⟩
  have same := hidden "" "a" "" isScheme
  rw [redact_lone wordClass plainUser plainFirst freeUser freeFirst,
    redact_lone wordClass plainUser plainSecond freeUser freeSecond, String.ofList_inj] at same
  have injective : Function.Injective fun rest => ['a', ':', '/', '/'] ++ redacted ++ '@' :: rest := by
    intro one other equal
    simpa using equal
  rcases same_of_afterUser plainUser plainFirst plainSecond injective same with equal | behind
  · exact .inl (String.toList_inj.mp equal)
  · exact .inr behind

end Redactions

section Samples

/-- `\w` in ASCII. -/
def asciiWord (c : Char) : Bool := c.isAlphanum || c == '_'

theorem asciiWord_wordClass : WordClass asciiWord where
  letter := by
    intro c letter
    rw [isLetter] at letter
    simp [asciiWord, Char.isAlphanum, letter]
  marks := List.all_iff_forall_prop.mp (by decide)

theorem plain_of_all {text : String} (all : (text.toList.all fun c => !isSpace c && decide (c ≠ '/')) = true) :
    Plain text.toList := by
  intro c member
  simpa using List.all_eq_true.mp all c member

theorem named_user_hidden : PasswordsHidden asciiWord "user" "s3cret" "hunter2" :=
  (passwords_hidden_iff asciiWord_wordClass (plain_of_all (by decide)) (plain_of_all (by decide))
    (plain_of_all (by decide))).1 (.inr ⟨⟨⟨'u', "ser".toList, by decide, by decide⟩, by decide⟩, by decide⟩)

/-- A URL without a user keeps its password. -/
theorem empty_user_leaks : ¬∀ user first second : String, Plain user.toList → Plain first.toList →
    Plain second.toList → first ≠ "" → second ≠ "" → PasswordsHidden asciiWord user first second := by
  intro all
  have isScheme : IsScheme asciiWord "redis" :=
    ⟨'r', "edis".toList, by decide, by decide, List.all_eq_true.mp (by decide)⟩
  have hidden := all "" "s3cret" "hunter2" (plain_of_all (by decide)) (plain_of_all (by decide))
    (plain_of_all (by decide)) (by decide) (by decide) "at " "redis" "cache/0" isScheme
  have differ : redact asciiWord (urlMessage "at " "redis" "" "s3cret" "cache/0") ≠
      redact asciiWord (urlMessage "at " "redis" "" "hunter2" "cache/0") := by decide +kernel
  exact differ hidden

end Samples

end Collector.Workers
