import Collector.Lib.ReadCommitted

/-!
Reasoning about READ COMMITTED transactions one at a time. A discipline says what is always
true of the committed data and what a transaction with given locks can rely on while others
commit. A transaction is verified alone, against every move the discipline allows between two
of its steps; in a run of verified transactions each one that ended is then explained by the
committed data before and after it, as if they had run one after the other.
-/

namespace Collector.Lib
variable {σ κ ε α β Call : Type}

structure Discipline (σ κ : Type) where
  inv : σ → Prop
  rely : List (κ × LockMode) → σ → σ → Prop
  refl : ∀ held c, rely held c c
  mono : ∀ held more a b, held ⊆ more → rely more a b → rely held a b
  trans : ∀ held a b c, rely held a b → rely held b c → rely held a c

/-- Two sets of locks that can be held at the same time. -/
def Apart (held other : List (κ × LockMode)) : Prop :=
  ∀ row m n, (row, m) ∈ held → (row, n) ∈ other → m.conflicts n = false

theorem Apart.symm {held other : List (κ × LockMode)} (apart : Apart held other) :
    Apart other held := by
  intro row m n mine theirs
  rw [LockMode.conflicts_comm]
  exact apart row n m theirs mine

theorem apart_nil (held : List (κ × LockMode)) : Apart held [] := by
  intro row m n _ theirs
  exact absurd theirs List.not_mem_nil

/-- Nobody else guards a row that a transaction holds for writing. -/
theorem not_apart_of_writer {row : κ} {held other : List (κ × LockMode)} {mine theirs : LockMode}
    (member : (row, mine) ∈ held) (also : (row, theirs) ∈ other)
    (writes : mine = .noKeyUpdate ∨ mine = .update) (guards : theirs.conflicts .noKeyUpdate = true) :
    ¬Apart held other := by
  intro apart
  have free := apart _ _ _ member also
  rcases writes with rfl | rfl
  · rw [LockMode.conflicts_comm, guards] at free
    cases free
  · cases theirs <;> simp_all [LockMode.conflicts]

theorem Apart.cons {held other : List (κ × LockMode)} {row : κ} {mode : LockMode}
    (apart : Apart held other) (free : ∀ m, (row, m) ∈ other → mode.conflicts m = false) :
    Apart ((row, mode) :: held) other := by
  intro place m n mine theirs
  rcases List.mem_cons.mp mine with same | mine
  · cases same
    exact free n theirs
  · exact apart place m n mine theirs

/-- What has to hold when a transaction ends: its outcome, its locks, its own writes and the
committed data at that moment. -/
abbrev Ending (σ κ ε α : Type) := Except ε α → List (κ × LockMode) → (σ → σ) → σ → Prop

/-- No write of the transaction changes what `kept` reads off the data. -/
def Txn.Keeps {γ : Type} (kept : σ → γ) : Txn σ κ ε α → Prop
  | .commit _ => True
  | .raise _ => True
  | .read next => ∀ s, (next s).Keeps kept
  | .lock _ _ next => next.Keeps kept
  | .tryLock _ _ next => ∀ got, (next got).Keeps kept
  | .write change next => (∀ s, kept (change s) = kept s) ∧ next.Keeps kept

section Keeps
variable {γ : Type} {kept : σ → γ}

theorem Txn.Keeps.bind {p : Txn σ κ ε α} {f : α → Txn σ κ ε β} (first : p.Keeps kept)
    (rest : ∀ a, (f a).Keeps kept) : (p >>= f).Keeps kept := by
  change (p.bind f).Keeps kept
  induction p with
  | commit a => exact rest a
  | raise e => trivial
  | read next ih => exact fun s => ih s (first s)
  | lock mode row next ih => exact ih first
  | tryLock mode row next ih => exact fun got => ih got (first got)
  | write change next ih => exact ⟨first.1, ih first.2⟩

theorem Txn.Keeps.map {p : Txn σ κ ε α} {f : α → β} (first : p.Keeps kept) :
    (f <$> p).Keeps kept := Txn.Keeps.bind first fun _ => trivial

theorem Txn.keeps_view {f : σ → Txn σ κ ε β} (rest : ∀ s, (f s).Keeps kept) :
    (Txn.view >>= f).Keeps kept := rest

theorem Txn.keeps_modify {change : σ → σ} {f : Unit → Txn σ κ ε β}
    (same : ∀ s, kept (change s) = kept s) (rest : (f ()).Keeps kept) :
    (Txn.modify change >>= f).Keeps kept := ⟨same, rest⟩

theorem Txn.keeps_ensure {condition : Bool} {e : ε} :
    (Txn.ensure condition e : Txn σ κ ε Unit).Keeps kept := by
  cases condition <;> trivial

theorem Txn.keeps_selectLocked {mode : LockMode} {row : κ} {look : σ → Option α} :
    (Txn.selectLocked mode row look : Txn σ κ ε (Option α)).Keeps kept := by
  apply Txn.keeps_view
  intro s
  split
  · trivial
  · exact fun _ => trivial

theorem Txn.keeps_insertUnique {entry : κ} {taken : σ → Bool} {e : ε} :
    (Txn.insertUnique entry taken e : Txn σ κ ε Unit).Keeps kept := by
  intro s
  exact Txn.keeps_ensure

theorem Txn.keeps_updateEach {ι : Type} {row : ι → κ} {still : σ → ι → Bool} {change : ι → σ → σ}
    (same : ∀ i s, kept (change i s) = kept s) (visit : List ι) :
    (Txn.updateEach row still change visit : Txn σ κ ε (List ι)).Keeps kept := by
  induction visit with
  | nil => trivial
  | cons i rest ih =>
    apply Txn.Keeps.bind (p := Txn.locked _ _) trivial
    intro _
    apply Txn.keeps_view
    intro s
    split
    · exact Txn.keeps_modify (same i) ih.map
    · exact ih

/-- A transaction on one part of the data keeps what does not depend on that part. -/
theorem Txn.keeps_zoom {part lockPart : Type} {get : σ → part} {put : part → σ → σ}
    {name : lockPart → κ} (same : ∀ x s, kept (put x s) = kept s) (p : Txn part lockPart ε α) :
    (p.zoom get put name).Keeps kept := by
  induction p with
  | commit a => trivial
  | raise e => trivial
  | read next ih => exact fun s => ih (get s)
  | lock mode row next ih => exact ih
  | tryLock mode row next ih => exact ih
  | write change next ih => exact ⟨fun s => same _ s, ih⟩

end Keeps

namespace Discipline

/-- The transaction ends in `Q` whatever the discipline lets others commit between its steps. -/
def wp (d : Discipline σ κ) (Q : Ending σ κ ε α) :
    Txn σ κ ε α → List (κ × LockMode) → (σ → σ) → σ → Prop
  | .commit a, held, pending, c => Q (.ok a) held pending c
  | .raise e, held, pending, c => Q (.error e) held pending c
  | .read next, held, pending, c => ∀ c', d.inv c' → d.rely held c c' →
      d.wp Q (next (pending c)) held pending c'
  | .lock mode row next, held, pending, c => ∀ c', d.inv c' → d.rely ((row, mode) :: held) c c' →
      d.wp Q next ((row, mode) :: held) pending c'
  | .tryLock mode row next, held, pending, c =>
      (∀ c', d.inv c' → d.rely ((row, mode) :: held) c c' →
        d.wp Q (next true) ((row, mode) :: held) pending c') ∧
      (∀ c', d.inv c' → d.rely held c c' → d.wp Q (next false) held pending c')
  | .write change next, held, pending, c => ∀ c', d.inv c' → d.rely held c c' →
      d.wp Q next held (change ∘ pending) c'

variable {d : Discipline σ κ} {held : List (κ × LockMode)} {pending : σ → σ} {c : σ}

/-- The ending of the first part of a transaction that goes on with `f`. -/
def andThen (d : Discipline σ κ) (f : α → Txn σ κ ε β) (Q : Ending σ κ ε β) : Ending σ κ ε α
  | .ok a, held, pending, c => d.wp Q (f a) held pending c
  | .error e, held, pending, c => Q (.error e) held pending c

theorem wp_bind {f : α → Txn σ κ ε β} {Q : Ending σ κ ε β} (p : Txn σ κ ε α) :
    d.wp Q (p >>= f) held pending c ↔ d.wp (d.andThen f Q) p held pending c := by
  change d.wp Q (p.bind f) held pending c ↔ _
  induction p generalizing held pending c with
  | commit a => exact Iff.rfl
  | raise e => exact Iff.rfl
  | read next ih => exact forall_congr' fun c' => imp_congr_right fun _ => imp_congr_right fun _ => ih _
  | lock mode row next ih =>
    exact forall_congr' fun c' => imp_congr_right fun _ => imp_congr_right fun _ => ih
  | tryLock mode row next ih =>
    exact and_congr
      (forall_congr' fun c' => imp_congr_right fun _ => imp_congr_right fun _ => ih true)
      (forall_congr' fun c' => imp_congr_right fun _ => imp_congr_right fun _ => ih false)
  | write change next ih =>
    exact forall_congr' fun c' => imp_congr_right fun _ => imp_congr_right fun _ => ih

theorem wp_map {f : α → β} {Q : Ending σ κ ε β} (p : Txn σ κ ε α) :
    d.wp Q (f <$> p) held pending c ↔
      d.wp (fun r held pending c => Q (r.map f) held pending c) p held pending c := by
  have same : d.andThen (fun a => (pure (f a) : Txn σ κ ε β)) Q =
      fun r held pending c => Q (r.map f) held pending c := by
    funext r held pending c
    cases r <;> rfl
  rw [← same]
  exact wp_bind p

theorem wp_mono {Q Q' : Ending σ κ ε α} (weaker : ∀ r held pending c, Q r held pending c →
    Q' r held pending c) {p : Txn σ κ ε α} (proved : d.wp Q p held pending c) :
    d.wp Q' p held pending c := by
  induction p generalizing held pending c with
  | commit a => exact weaker _ _ _ _ proved
  | raise e => exact weaker _ _ _ _ proved
  | read next ih => exact fun c' valid moved => ih _ (proved c' valid moved)
  | lock mode row next ih => exact fun c' valid moved => ih (proved c' valid moved)
  | tryLock mode row next ih =>
    exact ⟨fun c' valid moved => ih true (proved.1 c' valid moved),
      fun c' valid moved => ih false (proved.2 c' valid moved)⟩
  | write change next ih => exact fun c' valid moved => ih (proved c' valid moved)

section Statements
variable {Q : Ending σ κ ε β}

theorem wp_pure {a : β} : d.wp Q (pure a) held pending c ↔ Q (.ok a) held pending c := Iff.rfl

theorem wp_raise {e : ε} : d.wp Q (.raise e) held pending c ↔ Q (.error e) held pending c := Iff.rfl

theorem wp_view {f : σ → Txn σ κ ε β} : d.wp Q (.view >>= f) held pending c ↔
    ∀ c', d.inv c' → d.rely held c c' → d.wp Q (f (pending c)) held pending c' := Iff.rfl

theorem wp_locked {mode : LockMode} {row : κ} {f : Unit → Txn σ κ ε β} :
    d.wp Q (.locked mode row >>= f) held pending c ↔
    ∀ c', d.inv c' → d.rely ((row, mode) :: held) c c' →
      d.wp Q (f ()) ((row, mode) :: held) pending c' := Iff.rfl

theorem wp_modify {change : σ → σ} {f : Unit → Txn σ κ ε β} :
    d.wp Q (.modify change >>= f) held pending c ↔
    ∀ c', d.inv c' → d.rely held c c' → d.wp Q (f ()) held (change ∘ pending) c' := Iff.rfl

theorem wp_ensure {condition : Bool} {e : ε} {f : Unit → Txn σ κ ε β} :
    d.wp Q (.ensure condition e >>= f) held pending c ↔
    (condition = true → d.wp Q (f ()) held pending c) ∧
      (condition = false → Q (.error e) held pending c) := by
  cases condition with
  | true => simp [Txn.ensure, bind, Txn.bind]
  | false => simp [Txn.ensure, bind, Txn.bind, wp]

/-- A locking query answers with nothing, at once or after the wait, or with the row as it is
once the lock is held. -/
theorem wp_selectLocked {mode : LockMode} {row : κ} {look : σ → Option α}
    {f : Option α → Txn σ κ ε β}
    (absent : ∀ held' c', held ⊆ held' → d.inv c' → d.rely held c c' →
      d.wp Q (f none) held' pending c')
    (found : ∀ c' c'' a, d.inv c' → d.inv c'' → d.rely held c c' →
      d.rely ((row, mode) :: held) c' c'' → look (pending c') = some a →
      d.wp Q (f (some a)) ((row, mode) :: held) pending c'') :
    d.wp Q (.selectLocked mode row look >>= f) held pending c := by
  rw [wp_bind, Txn.selectLocked, wp_view]
  intro c₁ valid₁ moved₁
  split
  · exact absent held c₁ (List.Subset.refl held) valid₁ moved₁
  · intro c₂ valid₂ moved₂ c₃ valid₃ moved₃
    have waited := d.trans _ _ _ _ moved₁ (d.mono _ _ _ _ (List.subset_cons_self _ _) moved₂)
    change d.wp Q (f (look (pending c₂))) ((row, mode) :: held) pending c₃
    cases again : look (pending c₂) with
    | none =>
      apply absent _ c₃ (List.subset_cons_self _ _) valid₃
      exact d.trans _ _ _ _ waited (d.mono _ _ _ _ (List.subset_cons_self _ _) moved₃)
    | some a => exact found c₂ c₃ a valid₂ valid₃ waited moved₃ again

/-- A locking query for a row that the transaction can already count on. -/
theorem wp_selectLocked_known {mode : LockMode} {row : κ} {look : σ → Option α}
    {f : Option α → Txn σ κ ε β} {a : α} (valid : d.inv c)
    (known : ∀ c', d.inv c' → d.rely held c c' → look (pending c') = some a)
    (next : ∀ c', d.inv c' → d.rely held c c' → d.wp Q (f (some a)) ((row, mode) :: held) pending c') :
    d.wp Q (.selectLocked mode row look >>= f) held pending c := by
  rw [wp_bind, Txn.selectLocked, wp_view]
  intro c₁ valid₁ moved₁
  rw [known c valid (d.refl _ _)]
  intro c₂ valid₂ moved₂ c₃ valid₃ moved₃
  have waited := d.trans _ _ _ _ moved₁ (d.mono _ _ _ _ (List.subset_cons_self _ _) moved₂)
  have here := d.trans _ _ _ _ waited (d.mono _ _ _ _ (List.subset_cons_self _ _) moved₃)
  change d.wp Q (f (look (pending c₂))) ((row, mode) :: held) pending c₃
  rw [known c₂ valid₂ waited]
  exact next c₃ valid₃ here

/-- An insertion goes on only while its index entry is held and nobody has committed it. -/
theorem wp_insertUnique {entry : κ} {taken : σ → Bool} {e : ε} {f : Unit → Txn σ κ ε β}
    (refused : ∀ held' c', d.inv c' → d.rely held c c' → Q (.error e) held' pending c')
    (free : ∀ c' c'', d.inv c' → d.inv c'' → d.rely held c c' →
      d.rely ((entry, .update) :: held) c' c'' → taken (pending c') = false →
      d.wp Q (f ()) ((entry, .update) :: held) pending c'') :
    d.wp Q (.insertUnique entry taken e >>= f) held pending c := by
  rw [wp_bind, Txn.insertUnique, wp_locked]
  intro c₁ valid₁ moved₁
  have waited := d.mono _ _ _ _ (List.subset_cons_self _ _) moved₁
  rw [wp_view]
  intro c₂ valid₂ moved₂
  cases used : taken (pending c₁) with
  | true =>
    apply refused _ c₂ valid₂
    exact d.trans _ _ _ _ waited (d.mono _ _ _ _ (List.subset_cons_self _ _) moved₂)
  | false => exact free c₁ c₂ valid₁ valid₂ waited moved₂ used

/-- A loop invariant of an `UPDATE` over several rows: `I` is about the rows still to visit. -/
theorem wp_updateEach {ι : Type} {row : ι → κ} {still : σ → ι → Bool} {change : ι → σ → σ}
    {I : List ι → List (κ × LockMode) → (σ → σ) → σ → Prop} {Q : Ending σ κ ε (List ι)}
    (moves : ∀ i rest held pending c c', d.inv c' → d.rely ((row i, .noKeyUpdate) :: held) c c' →
      I (i :: rest) held pending c →
      I (i :: rest) ((row i, .noKeyUpdate) :: held) pending c')
    (stays : ∀ xs held pending c c', d.inv c' → d.rely held c c' → I xs held pending c →
      I xs held pending c')
    (left : ∀ i rest held pending c, (row i, .noKeyUpdate) ∈ held → d.inv c →
      I (i :: rest) held pending c → still (pending c) i = false → I rest held pending c)
    (written : ∀ i rest held pending c, (row i, .noKeyUpdate) ∈ held → d.inv c →
      I (i :: rest) held pending c → still (pending c) i = true → I rest held (change i ∘ pending) c)
    (done : ∀ returned held pending c, I [] held pending c → Q (.ok returned) held pending c)
    (visit : List ι) (valid : d.inv c) (start : I visit held pending c) :
    d.wp Q (Txn.updateEach row still change visit) held pending c := by
  induction visit generalizing held pending c Q with
  | nil => exact done [] held pending c start
  | cons i rest ih =>
    rw [Txn.updateEach, wp_locked]
    intro c₁ valid₁ moved₁
    have now := moves i rest held pending c c₁ valid₁ moved₁ start
    rw [wp_view]
    intro c₂ valid₂ moved₂
    split
    · rename_i matches_
      rw [wp_modify]
      intro c₃ valid₃ moved₃
      have after := written i rest _ pending c₁ List.mem_cons_self valid₁ now matches_
      rw [wp_bind]
      apply ih _ valid₃ (stays _ _ _ _ _ valid₃ moved₃ (stays _ _ _ _ _ valid₂ moved₂ after))
      intro returned held pending c ended
      exact done (i :: returned) held pending c ended
    · rename_i fails
      have after := left i rest _ pending c₁ List.mem_cons_self valid₁ now (by simpa using fails)
      exact ih done valid₂ (stays _ _ _ _ _ valid₂ moved₂ after)

end Statements

/-- How a verified transaction ends: a commit keeps the invariant and does nothing that a
transaction with compatible locks relies on not happening. -/
def Ends (d : Discipline σ κ) (post : Except ε α → σ → σ → Prop) : Ending σ κ ε α
  | .ok a, held, pending, c => d.inv (pending c) ∧
      (∀ other, Apart held other → d.rely other c (pending c)) ∧ post (.ok a) c (pending c)
  | .error e, _, _, c => post (.error e) c c

theorem Ends.mono {post post' : Except ε α → σ → σ → Prop} {r : Except ε α}
    (weaker : ∀ r a b, post r a b → post' r a b) (ends : d.Ends post r held pending c) :
    d.Ends post' r held pending c := by
  cases r with
  | error e => exact weaker _ _ _ ends
  | ok a => exact ⟨ends.1, ends.2.1, weaker _ _ _ ends.2.2⟩

/-- A transaction that keeps `kept` never gives up a lock, so from its first to its last step
the committed data move as its first locks allow. -/
theorem wp_keeps {γ : Type} {kept : σ → γ} {first : List (κ × LockMode)} {pending₀ : σ → σ} {c₀ : σ}
    {p : Txn σ κ ε α} (keeps : p.Keeps kept) (same : ∀ s, kept (pending s) = kept (pending₀ s))
    (valid : d.inv c) (sub : first ⊆ held) (since : d.rely first c₀ c) :
    d.wp (fun _ held pending c => d.inv c ∧ first ⊆ held ∧ d.rely first c₀ c ∧
      ∀ s, kept (pending s) = kept (pending₀ s)) p held pending c := by
  have later {held' : List (κ × LockMode)} {a b : σ} (more : first ⊆ held') (moved : d.rely held' a b)
      (before : d.rely first c₀ a) : d.rely first c₀ b :=
    d.trans _ _ _ _ before (d.mono _ _ _ _ more moved)
  induction p generalizing held pending c with
  | commit a => exact ⟨valid, sub, since, same⟩
  | raise e => exact ⟨valid, sub, since, same⟩
  | read next ih => exact fun c' valid' moved => ih _ (keeps _) same valid' sub (later sub moved since)
  | lock mode row next ih =>
    intro c' valid' moved
    have more := List.subset_cons_of_subset (row, mode) sub
    exact ih keeps same valid' more (later more moved since)
  | tryLock mode row next ih =>
    constructor
    · intro c' valid' moved
      have more := List.subset_cons_of_subset (row, mode) sub
      exact ih true (keeps true) same valid' more (later more moved since)
    · intro c' valid' moved
      exact ih false (keeps false) same valid' sub (later sub moved since)
  | write change next ih =>
    intro c' valid' moved
    exact ih keeps.2 (fun s => (keeps.1 _).trans (same s)) valid' sub (later sub moved since)

/-- A part that keeps `kept` can be stepped over. -/
theorem wp_bind_of_keeps {γ : Type} {kept : σ → γ} {p : Txn σ κ ε α} {f : α → Txn σ κ ε β}
    {Q : Ending σ κ ε β} (keeps : p.Keeps kept) (valid : d.inv c)
    (refused : ∀ e held' pending' c', d.inv c' → Q (.error e) held' pending' c')
    (next : ∀ a held' pending' c', d.inv c' → held ⊆ held' → d.rely held c c' →
      (∀ s, kept (pending' s) = kept (pending s)) → d.wp Q (f a) held' pending' c') :
    d.wp Q (p >>= f) held pending c := by
  rw [wp_bind]
  apply wp_mono _ (wp_keeps keeps (fun _ => rfl) valid (List.Subset.refl _) (d.refl _ _))
  intro outcome held' pending' c' ⟨valid', sub, since, same⟩
  cases outcome with
  | error e => exact refused e held' pending' c' valid'
  | ok a => exact next a held' pending' c' valid' sub since same

/-- A transaction that leaves alone what the discipline is about. -/
theorem ends_of_keeps {γ : Type} {kept : σ → γ} {post : Except ε α → σ → σ → Prop}
    {p : Txn σ κ ε α} (about : ∀ a b, kept b = kept a → d.inv a → d.inv b ∧ ∀ held, d.rely held a b)
    (keeps : p.Keeps kept) (said : ∀ r a b, d.inv a → kept b = kept a → post r a b)
    (valid : d.inv c) : d.wp (d.Ends post) p [] id c := by
  apply wp_mono _ (wp_keeps keeps (fun _ => rfl) valid (List.Subset.refl _) (d.refl _ _))
  intro r held pending c ⟨valid, _, _, same⟩
  cases r with
  | error e => exact said _ _ _ valid rfl
  | ok a =>
    have effect := about c (pending c) (same c) valid
    exact ⟨effect.1, fun other _ => effect.2 other, said _ _ _ valid (same c)⟩

/-- Every call is verified from its first statement on. -/
def Verified (d : Discipline σ κ) (program : Call → Txn σ κ ε α)
    (post : Call → Except ε α → σ → σ → Prop) : Prop :=
  ∀ call c, d.inv c → d.wp (d.Ends (post call)) (program call) [] id c

variable {program : Call → Txn σ κ ε α} {post : Call → Except ε α → σ → σ → Prop}

/-- The state of a run: live transactions hold compatible locks, and each is verified from
where it stands against everything that may still happen before its next step. -/
structure Kept (d : Discipline σ κ) (post : Call → Except ε α → σ → σ → Prop)
    (s : System σ κ ε α Call) : Prop where
  inv : d.inv s.committed
  apart : ∀ t u mine theirs, t ≠ u → s.live t = some mine → s.live u = some theirs →
    Apart mine.held theirs.held
  verified : ∀ t session, s.live t = some session → ∀ c, d.inv c →
    d.rely session.held s.committed c →
    d.wp (d.Ends (post session.call)) session.program session.held session.pending c

section Sessions
variable {s : System σ κ ε α Call} {t : Nat} {session next : Session σ κ ε α Call}

theorem Kept.now (kept : d.Kept post s) (live : s.live t = some session) :
    d.wp (d.Ends (post session.call)) session.program session.held session.pending s.committed :=
  kept.verified t session live s.committed kept.inv (d.refl _ _)

/-- A step that only moves one transaction on. -/
theorem Kept.put (kept : d.Kept post s)
    (apart : ∀ u other, u ≠ t → s.live u = some other → Apart next.held other.held)
    (verified : ∀ c, d.inv c → d.rely next.held s.committed c →
      d.wp (d.Ends (post next.call)) next.program next.held next.pending c) :
    d.Kept post (s.put t next) where
  inv := kept.inv
  apart := by
    intro a b mine theirs different first second
    simp only [System.put, Function.update_apply] at first second
    split at first <;> split at second
    · rename_i one two
      exact absurd (one.trans two.symm) different
    · rename_i one two
      cases first
      exact apart b theirs two second
    · rename_i one two
      cases second
      exact (apart a mine one first).symm
    · exact kept.apart a b mine theirs different first second
  verified := by
    intro a other live
    simp only [System.put, Function.update_apply] at live
    split at live
    · cases live
      exact verified
    · exact kept.verified a other live

theorem Kept.drop (kept : d.Kept post s) : d.Kept post (s.drop t) where
  inv := kept.inv
  apart := by
    intro a b mine theirs different first second
    simp only [System.drop, Function.update_apply] at first second
    split at first
    · cases first
    split at second
    · cases second
    exact kept.apart a b mine theirs different first second
  verified := by
    intro a other live
    simp only [System.drop, Function.update_apply] at live
    split at live
    · cases live
    · exact kept.verified a other live

/-- A transaction that keeps its locks is apart from the others as before. -/
theorem Kept.apart_same (kept : d.Kept post s) (live : s.live t = some session) (u : Nat)
    (other : Session σ κ ε α Call) (different : u ≠ t) (alive : s.live u = some other) :
    Apart session.held other.held :=
  kept.apart t u session other different.symm live alive

/-- A granted lock keeps the transactions apart. -/
theorem Kept.apart_free (kept : d.Kept post s) (live : s.live t = some session) {mode : LockMode}
    {row : κ} (free : s.Free t mode row) (u : Nat) (other : Session σ κ ε α Call)
    (different : u ≠ t) (alive : s.live u = some other) :
    Apart ((row, mode) :: session.held) other.held :=
  (kept.apart_same live u other different alive).cons (free u other different alive)

theorem Kept.commit (kept : d.Kept post s) {call : Call} {a : α} {held : List (κ × LockMode)}
    {pending : σ → σ} (live : s.live t = some ⟨call, .commit a, held, pending⟩) :
    d.Kept post { s.drop t with committed := pending s.committed } where
  inv := (kept.now live).1
  apart := kept.drop.apart
  verified := by
    intro u other alive c valid moved
    have different : u ≠ t := by
      intro same
      simp [System.drop, same] at alive
    have before : s.live u = some other := by
      simpa [System.drop, Function.update_apply, different] using alive
    have allowed := (kept.now live).2.1 other.held (kept.apart_same live u other different before)
    exact kept.verified u other before c valid (d.trans _ _ _ _ allowed moved)

end Sessions

/-- One step of any transaction keeps the run's state, if what it starts is verified. -/
theorem Kept.move {s next : System σ κ ε α Call} {ended : Option (Ended σ ε α Call)} (kept : d.Kept post s)
    (starts : ∀ t call, s.live t = none → next = s.put t ⟨call, program call, [], id⟩ →
      ∀ c, d.inv c → d.rely [] s.committed c → d.wp (d.Ends (post call)) (program call) [] id c)
    (step : System.Step program s ended next) : d.Kept post next := by
  cases step with
  | start call free =>
    apply kept.put
    · intro u other _ _
      exact (apart_nil _).symm
    · exact starts _ call free rfl
  | read live =>
    have apart := kept.apart_same live
    apply kept.put
    · exact apart
    · exact kept.now live
  | lock live free =>
    apply kept.put
    · exact kept.apart_free live free
    · exact kept.now live
  | take live free =>
    apply kept.put
    · exact kept.apart_free live free
    · exact (kept.now live).1
  | skip live _ =>
    have apart := kept.apart_same live
    apply kept.put
    · exact apart
    · exact (kept.now live).2
  | write live =>
    have apart := kept.apart_same live
    apply kept.put
    · exact apart
    · exact kept.now live
  | raise _ => exact kept.drop
  | commit live => exact kept.commit live
  | cut _ => exact kept.drop

theorem Kept.step (all : d.Verified program post) {s next : System σ κ ε α Call}
    {ended : Option (Ended σ ε α Call)} (kept : d.Kept post s)
    (step : System.Step program s ended next) : d.Kept post next :=
  kept.move (fun _ call _ _ c valid _ => all call c valid) step

/-- What a step reports about a transaction that ended. -/
theorem Kept.ended {s next : System σ κ ε α Call} {entry : Ended σ ε α Call}
    (kept : d.Kept post s) (step : System.Step program s (some entry) next) :
    entry.before = s.committed ∧ entry.after = next.committed ∧
      d.rely [] entry.before entry.after ∧ post entry.call entry.outcome entry.before entry.after := by
  cases step with
  | raise live => exact ⟨rfl, rfl, d.refl _ _, kept.now live⟩
  | commit live =>
    obtain ⟨_, allowed, said⟩ := kept.now live
    exact ⟨rfl, rfl, allowed [] (apart_nil _), said⟩

theorem committed_of_step_none {s next : System σ κ ε α Call}
    (step : System.Step program s none next) : next.committed = s.committed := by
  cases step <;> rfl

theorem kept_of_run (all : d.Verified program post) {start : σ} (base : d.inv start)
    {history : List (Ended σ ε α Call)} {s : System σ κ ε α Call}
    (run : System.Run program start history s) : d.Kept post s := by
  induction run with
  | nil =>
    refine ⟨base, ?_, ?_⟩
    · intro t u mine theirs _ live
      cases live
    · intro t session live
      cases live
  | step _ step ih => exact ih.step all step

/-- Every interleaving of verified transactions is explained in the order in which they
ended: a property kept by each of them alone holds after the run. -/
theorem Verified.serial (all : d.Verified program post) {start : σ} (valid : d.inv start)
    {P : List (Ended σ ε α Call) → σ → Prop} (base : P [] start)
    (kept : ∀ history entry, P history entry.before → d.inv entry.before → d.inv entry.after →
      d.rely [] entry.before entry.after →
      post entry.call entry.outcome entry.before entry.after → P (entry :: history) entry.after)
    {history : List (Ended σ ε α Call)} {s : System σ κ ε α Call}
    (run : System.Run program start history s) : P history s.committed := by
  induction run with
  | nil => exact base
  | @step history s next ended before step ih =>
    have now := kept_of_run all valid before
    cases ended with
    | none => simpa [committed_of_step_none step] using ih
    | some entry =>
      obtain ⟨first, last, moved, said⟩ := now.ended step
      rw [← last]
      apply kept history entry (first ▸ ih) (first ▸ now.inv) _ moved said
      rw [last]
      exact (now.step all step).inv

/-- A transaction that ended, with what holds around it: the data moved from its end to `c` as
anyone may rely on. -/
structure Explained (d : Discipline σ κ) (post : Call → Except ε α → σ → σ → Prop) (c : σ)
    (entry : Ended σ ε α Call) : Prop where
  before : d.inv entry.before
  after : d.inv entry.after
  moved : d.rely [] entry.before entry.after
  said : post entry.call entry.outcome entry.before entry.after
  since : d.rely [] entry.after c

theorem Explained.later {c c' : σ} {entry : Ended σ ε α Call} (explained : d.Explained post c entry)
    (moved : d.rely [] c c') : d.Explained post c' entry :=
  { explained with since := d.trans _ _ _ _ explained.since moved }

/-- In a run of verified transactions each one that ended is explained alone, and between two of
them the data moved as anyone may rely on. -/
theorem Verified.explained (all : d.Verified program post) {start : σ} (valid : d.inv start)
    {history : List (Ended σ ε α Call)} {s : System σ κ ε α Call}
    (run : System.Run program start history s) :
    d.inv s.committed ∧ (∀ entry ∈ history, d.Explained post s.committed entry) ∧
      history.Pairwise fun newer older => d.rely [] older.after newer.before := by
  apply all.serial valid (P := fun history c => d.inv c ∧
    (∀ entry ∈ history, d.Explained post c entry) ∧
      history.Pairwise fun newer older => d.rely [] older.after newer.before) _ _ run
  · exact ⟨valid, by simp, .nil⟩
  · intro history entry ⟨_, each, order⟩ before after moved said
    refine ⟨after, ?_, ?_⟩
    · intro other member
      rcases List.mem_cons.mp member with rfl | member
      · exact ⟨before, after, moved, said, d.refl _ _⟩
      · exact (each other member).later moved
    · exact List.pairwise_cons.mpr ⟨fun other member => (each other member).since, order⟩

end Discipline
end Collector.Lib
