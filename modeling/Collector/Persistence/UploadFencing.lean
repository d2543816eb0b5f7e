import Collector.Persistence.UploadClaims

/-!
Fencing of upload claims. What an answered call does to the claim of one key is said once;
monotone generations, the finality of a commit and the rejection of stale tokens follow for
every run.
-/

namespace Collector.Persistence.UploadClaims
open Collector.Lib

abbrev Event := Entry Call Answer PersistenceError

def Call.acquires (call : Call) (key : String) : Bool :=
  match call with
  | .acquireUploadClaim objectKey _ _ _ _ => decide (objectKey = key)
  | _ => false

/-- The fencing token that a commit or a release of the key presents. -/
def Call.token (call : Call) (key : String) : Option Int :=
  match call with
  | .commitReference objectKey generation _ _ _ _ _ _ | .releaseClaim objectKey generation _ _ =>
    if objectKey = key then some generation else none
  | _ => none

/-- An acquire that finds a claim expired, released or past its lease. -/
def takesOver (call : Call) (claim : UploadClaim) : Bool :=
  match call with
  | .acquireUploadClaim objectKey _ _ _ now =>
    decide (objectKey = claim.objectKey) && !claim.live now
  | _ => false

/-- The effect of an answered call on the claim of one key. -/
inductive ClaimEffect (call : Call) (key : String) :
    Option UploadClaim → Option UploadClaim → Prop
  | same (claim : Option UploadClaim) (idle : call.acquires key = false) :
      ClaimEffect call key claim claim
  | created {owner : String} {leaseSeconds : Int} {mediaType : Option String} {now : Time}
      (called : call = .acquireUploadClaim key owner leaseSeconds mediaType now) :
      ClaimEffect call key none
        (some (newClaim key owner (now + seconds leaseSeconds) mediaType now))
  | extended {claim : UploadClaim} {owner : String} {leaseSeconds : Int}
      {mediaType : Option String} {now : Time}
      (called : call = .acquireUploadClaim key owner leaseSeconds mediaType now)
      (live : claim.live now = true) (mine : claim.owner = owner) :
      ClaimEffect call key (some claim)
        (some (claim.extend (now + seconds leaseSeconds) mediaType now))
  | reacquired {claim : UploadClaim} {owner : String} {leaseSeconds : Int}
      {mediaType : Option String} {now : Time}
      (called : call = .acquireUploadClaim key owner leaseSeconds mediaType now)
      (dead : claim.live now = false) (uncommitted : claim.status ≠ .committed) :
      ClaimEffect call key (some claim)
        (some ((claim.reacquire owner now).extend (now + seconds leaseSeconds) mediaType now))
  | committed {claim next : UploadClaim} {generation sizeBytes : Int} {owner sha256 uri : String}
      {mediaType : Option String} {now : Time}
      (called : call = .commitReference key generation owner sha256 sizeBytes uri mediaType now)
      (fenced : claim.commitable generation owner now = true)
      (written : next = { claim with
        status := .committed
        committedAt := some now
        sha256 := some sha256
        sizeBytes := some sizeBytes
        uri := some uri
        mediaType := orElse mediaType claim.mediaType
        updatedAt := now }) :
      ClaimEffect call key (some claim) (some next)
  | released {claim : UploadClaim} {generation : Int} {owner : String} {now : Time}
      (called : call = .releaseClaim key generation owner now)
      (mine : claim.owner = owner) (current : claim.claimGeneration = generation)
      (leased : claim.status = .leased) :
      ClaimEffect call key (some claim)
        (some { claim with status := .released, releasedAt := some now, updatedAt := now })
  | expired {claim : UploadClaim} {limit : Int} {skip : List String} {now : Time}
      (called : call = .expireClaims limit skip now) (leased : claim.status = .leased)
      (ended : claim.leaseExpiresAt ≤ now) :
      ClaimEffect call key (some claim) (some (claim.expire now))

theorem write_eq_ok {db next : Db} {claim old row : UploadClaim}
    (wrote : db.write claim = .ok (row, next)) (known : db.claims.find? claim.objectKey = some old) :
    row = claim ∧ ∀ key, next.claims.find? key =
      if key = claim.objectKey then some claim else db.claims.find? key := by
  unfold Db.write at wrote
  simp only [Except.bind_eq_ok, ensure_eq_ok, pure, Except.pure, Except.ok.injEq,
    Prod.mk.injEq] at wrote
  obtain ⟨_, _, rfl, rfl⟩ := wrote
  exact ⟨rfl, db.claims.find?_put _ known⟩

section Single
variable {db next : Db} {call : Call} {objectKey : String} {claim : UploadClaim}

/-- A call that writes the claim of its own key and no other. -/
private theorem effect_write {row written : UploadClaim} (found : db.claims.find? objectKey = some claim)
    (wrote : db.write row = .ok (written, next)) (same : row.objectKey = claim.objectKey)
    (aim : ∀ key, key ≠ objectKey → call.acquires key = false)
    (effect : ClaimEffect call objectKey (some claim) (some row)) (key : String) :
    ClaimEffect call key (db.claims.find? key) (next.claims.find? key) := by
  have located := ((db.claims.find?_eq_some _ _).mp found).2
  obtain ⟨_, lookup⟩ := write_eq_ok wrote (same ▸ located ▸ found)
  rw [lookup, same, located]
  by_cases here : key = objectKey
  · rw [if_pos here, here, found]
    exact effect
  · rw [if_neg here]
    exact .same _ (aim key here)

end Single

private theorem acquires_own {objectKey owner : String} {leaseSeconds : Int}
    {mediaType : Option String} {now : Time} (key : String) (other : key ≠ objectKey) :
    (Call.acquireUploadClaim objectKey owner leaseSeconds mediaType now).acquires key = false := by
  simp [Call.acquires, other.symm]

theorem acquireUploadClaim_effect {db next : Db} {objectKey owner : String} {leaseSeconds : Int}
    {mediaType : Option String} {now : Time} {row : UploadClaim}
    (done : acquireUploadClaim db objectKey owner leaseSeconds mediaType now = .ok (row, next))
    (key : String) :
    ClaimEffect (.acquireUploadClaim objectKey owner leaseSeconds mediaType now) key
      (db.claims.find? key) (next.claims.find? key) := by
  unfold acquireUploadClaim at done
  simp only [Except.bind_eq_ok, ensure_eq_ok] at done
  obtain ⟨_, _, _, _, done⟩ := done
  cases found : db.claims.find? objectKey with
  | none =>
    simp only [found, pure, Except.pure, Except.ok.injEq, Prod.mk.injEq] at done
    obtain ⟨_, rfl⟩ := done
    rw [db.claims.find?_insert _ ((db.claims.find?_eq_none _).mp found)]
    change ClaimEffect _ _ _ (if objectKey = key then _ else _)
    by_cases here : objectKey = key
    · subst here
      rw [if_pos rfl, found]
      exact .created rfl
    · rw [if_neg here]
      exact .same _ (acquires_own key (Ne.symm here))
  | some claim =>
    simp only [found] at done
    split at done
    · cases done
    · rename_i uncommitted
      split at done
      · cases done
      · rename_i notForeign
        split at done
        · rename_i live
          have mine : claim.owner = owner := by simpa [live] using notForeign
          exact effect_write found done rfl acquires_own (.extended rfl live mine) key
        · rename_i dead
          exact effect_write found done rfl acquires_own
            (.reacquired rfl (Bool.not_eq_true _ ▸ dead) uncommitted) key

/-- The answered row is the one that is stored. -/
theorem acquireUploadClaim_row {db next : Db} {objectKey owner : String} {leaseSeconds : Int}
    {mediaType : Option String} {now : Time} {row : UploadClaim}
    (done : acquireUploadClaim db objectKey owner leaseSeconds mediaType now = .ok (row, next)) :
    next.claims.find? objectKey = some row := by
  unfold acquireUploadClaim at done
  simp only [Except.bind_eq_ok, ensure_eq_ok] at done
  obtain ⟨_, _, _, _, done⟩ := done
  cases found : db.claims.find? objectKey with
  | none =>
    simp only [found, pure, Except.pure, Except.ok.injEq, Prod.mk.injEq] at done
    obtain ⟨rfl, rfl⟩ := done
    rw [db.claims.find?_insert _ ((db.claims.find?_eq_none _).mp found)]
    exact if_pos rfl
  | some claim =>
    obtain rfl := ((db.claims.find?_eq_some _ _).mp found).2
    have stored {row' : UploadClaim} (wrote : db.write row' = .ok (row, next))
        (same : row'.objectKey = claim.objectKey) : next.claims.find? claim.objectKey = some row := by
      obtain ⟨rfl, lookup⟩ := write_eq_ok wrote (same ▸ found)
      rw [lookup, same, if_pos rfl]
    simp only [found] at done
    split at done
    · cases done
    · split at done
      · cases done
      · split at done
        · exact stored done rfl
        · exact stored done rfl

theorem commitReference_effect {db next : Db} {objectKey : String} {generation sizeBytes : Int}
    {owner sha256 uri : String} {mediaType : Option String} {now : Time} {row : UploadClaim}
    (done : commitReference db objectKey generation owner sha256 sizeBytes uri mediaType now =
      .ok (row, next)) (key : String) :
    ClaimEffect (.commitReference objectKey generation owner sha256 sizeBytes uri mediaType now) key
      (db.claims.find? key) (next.claims.find? key) := by
  unfold commitReference at done
  simp only [Except.bind_eq_ok, require_eq_ok] at done
  obtain ⟨claim, found, done⟩ := done
  split at done
  · rename_i fenced
    exact effect_write found done rfl (fun _ _ => rfl) (.committed rfl fenced rfl) key
  · simp only [Except.bind_eq_ok, ensure_eq_ok, pure, Except.pure, Except.ok.injEq,
      Prod.mk.injEq] at done
    obtain ⟨_, _, _, rfl⟩ := done
    exact .same _ rfl

theorem releaseClaim_effect {db next : Db} {objectKey : String} {generation : Int} {owner : String}
    {now : Time} {row : Option UploadClaim}
    (done : releaseClaim db objectKey generation owner now = .ok (row, next)) (key : String) :
    ClaimEffect (.releaseClaim objectKey generation owner now) key
      (db.claims.find? key) (next.claims.find? key) := by
  unfold releaseClaim at done
  cases found : db.claims.find? objectKey with
  | none =>
    simp only [found, pure, Except.pure, Except.ok.injEq, Prod.mk.injEq] at done
    rw [done.2]
    exact .same _ rfl
  | some claim =>
    simp only [found] at done
    split at done
    · rename_i owned
      simp only [Except.bind_eq_ok, pure, Except.pure, Except.ok.injEq, Prod.mk.injEq] at done
      obtain ⟨⟨written, middle⟩, wrote, _, rfl⟩ := done
      exact effect_write found wrote rfl (fun _ _ => rfl)
        (.released rfl owned.1 owned.2.1 owned.2.2) key
    · split at done <;>
      · simp only [pure, Except.pure, Except.ok.injEq, Prod.mk.injEq] at done
        rw [done.2]
        exact .same _ rfl

theorem expireClaims_effect {db next : Db} {limit : Int} {skip : List String} {now : Time}
    {keys : List String} (done : expireClaims db limit skip now = .ok (keys, next)) (key : String) :
    ClaimEffect (.expireClaims limit skip now) key (db.claims.find? key) (next.claims.find? key) := by
  unfold expireClaims at done
  simp only [Except.bind_eq_ok, ensure_eq_ok, pure, Except.pure, Except.ok.injEq,
    Prod.mk.injEq] at done
  obtain ⟨_, _, rfl, rfl⟩ := done
  dsimp only
  rw [Table.find?_update]
  cases found : db.claims.find? key with
  | none => exact .same _ rfl
  | some claim =>
    obtain ⟨present, rfl⟩ := (db.claims.find?_eq_some _ _).mp found
    simp only [Option.map_some, decide_eq_true_eq]
    split
    · rename_i member
      obtain ⟨chosen, picked, same⟩ := List.mem_map.mp member
      obtain ⟨stored, selected⟩ := Table.mem_of_mem_select picked
      obtain rfl := db.claims.eq_of_key_eq stored present same
      simp only [Bool.and_eq_true, decide_eq_true_eq] at selected
      exact .expired rfl selected.1.1 selected.1.2
    · exact .same _ rfl

theorem exec_effect {db next : Db} {call : Call} {a : Answer}
    (answered : machine.exec call db = .ok (a, next)) (key : String) :
    ClaimEffect call key (db.claims.find? key) (next.claims.find? key) := by
  cases call with
  | acquireUploadClaim objectKey owner leaseSeconds mediaType now =>
    obtain ⟨row, done, rfl⟩ := answer_eq_ok.mp answered
    exact acquireUploadClaim_effect done key
  | commitReference objectKey generation owner sha256 sizeBytes uri mediaType now =>
    obtain ⟨row, done, rfl⟩ := answer_eq_ok.mp answered
    exact commitReference_effect done key
  | releaseClaim objectKey generation owner now =>
    obtain ⟨row, done, rfl⟩ := answer_eq_ok.mp answered
    exact releaseClaim_effect done key
  | expireClaims limit skip now =>
    obtain ⟨keys, done, rfl⟩ := answer_eq_ok.mp answered
    exact expireClaims_effect done key

section Effect
variable {call : Call} {key : String} {claim : UploadClaim} {after : Option UploadClaim}

/-- The generation moves by one at a takeover and at no other call. -/
theorem ClaimEffect.generation (effect : ClaimEffect call key (some claim) after)
    (located : claim.objectKey = key) :
    ∃ next, after = some next ∧
      next.claimGeneration = claim.claimGeneration + if takesOver call claim then 1 else 0 := by
  cases effect with
  | same _ idle =>
    refine ⟨claim, rfl, ?_⟩
    cases call <;> simp_all [takesOver, Call.acquires]
  | extended called live mine =>
    subst called
    exact ⟨_, rfl, by simp [takesOver, live, UploadClaim.extend]⟩
  | reacquired called dead =>
    subst called
    exact ⟨_, rfl, by simp [takesOver, dead, located, UploadClaim.extend, UploadClaim.reacquire]⟩
  | committed called fenced written =>
    subst called written
    exact ⟨_, rfl, by simp [takesOver]⟩
  | released called | expired called =>
    subst called
    exact ⟨_, rfl, by simp [takesOver, UploadClaim.expire]⟩

/-- A committed claim is final. -/
theorem ClaimEffect.final (effect : ClaimEffect call key (some claim) after)
    (committed : claim.status = .committed) : after = some claim := by
  cases effect with
  | same => rfl
  | extended called live => simp [UploadClaim.live, committed] at live
  | reacquired called dead uncommitted => exact absurd committed uncommitted
  | committed called fenced => simp [UploadClaim.commitable, committed] at fenced
  | released called mine current leased | expired called leased =>
    rw [committed] at leased
    cases leased

/-- A commit or release that writes presents the current generation. -/
theorem ClaimEffect.token_current (effect : ClaimEffect call key (some claim) after)
    {generation : Int} (token : call.token key = some generation) (wrote : after ≠ some claim) :
    generation = claim.claimGeneration := by
  cases effect with
  | same => exact absurd rfl wrote
  | extended called | reacquired called | expired called =>
    subst called
    cases token
  | committed called fenced =>
    subst called
    simp only [Call.token, if_true, Option.some.injEq] at token
    simp only [UploadClaim.commitable, Bool.and_eq_true, decide_eq_true_eq] at fenced
    exact token.symm.trans fenced.1.1.2.symm
  | released called mine current =>
    subst called
    simp only [Call.token, if_true, Option.some.injEq] at token
    exact token.symm.trans current.symm

/-- A commit that writes finds its own live lease. -/
theorem ClaimEffect.commitable {generation sizeBytes : Int} {owner sha256 uri : String}
    {mediaType : Option String} {now : Time}
    (effect : ClaimEffect
      (.commitReference key generation owner sha256 sizeBytes uri mediaType now) key
      (some claim) after) (wrote : after ≠ some claim) :
    claim.commitable generation owner now = true := by
  cases effect with
  | same => exact absurd rfl wrote
  | extended called | reacquired called | released called | expired called => cases called
  | committed called fenced =>
    cases called
    exact fenced

/-- The generation moves whenever the owner may. -/
theorem ClaimEffect.keeps (effect : ClaimEffect call key (some claim) after) :
    ∃ next, after = some next ∧ claim.claimGeneration ≤ next.claimGeneration ∧
      (next.claimGeneration = claim.claimGeneration → next.owner = claim.owner) ∧
      (claim.status = .committed → next = claim) := by
  have final : claim.status = .committed → after = some claim := effect.final
  cases effect with
  | same => exact ⟨_, rfl, le_rfl, fun _ => rfl, fun _ => rfl⟩
  | reacquired called dead uncommitted =>
    refine ⟨_, rfl, ?_, ?_, fun committed => absurd committed uncommitted⟩ <;>
      simp [UploadClaim.extend, UploadClaim.reacquire]
  | extended | released | expired =>
    exact ⟨_, rfl, le_rfl, fun _ => rfl, fun committed => Option.some.inj (final committed)⟩
  | committed called fenced written =>
    subst written
    exact ⟨_, rfl, le_rfl, fun _ => rfl, fun committed => Option.some.inj (final committed)⟩

/-- A claim found committed was committed before, or this call commits it. -/
theorem ClaimEffect.committed_by {before : Option UploadClaim}
    (effect : ClaimEffect call key before (some claim)) (committed : claim.status = .committed) :
    before = some claim ∨
      ∃ generation owner sha256 sizeBytes uri mediaType now,
        call = .commitReference key generation owner sha256 sizeBytes uri mediaType now ∧
        claim.owner = owner ∧ claim.claimGeneration = generation ∧ claim.uri = some uri := by
  cases effect with
  | same => exact .inl rfl
  | created | reacquired | released | expired => cases committed
  | @extended old _ _ _ _ called live =>
    simp only [UploadClaim.live, Bool.and_eq_true, decide_eq_true_eq] at live
    have leased : old.status = .committed := committed
    rw [live.1] at leased
    cases leased
  | committed called fenced written =>
    subst written
    simp only [UploadClaim.commitable, Bool.and_eq_true, decide_eq_true_eq] at fenced
    exact .inr ⟨_, _, _, _, _, _, _, called, fenced.1.1.1, fenced.1.1.2, rfl⟩

end Effect

/-- An answered commit leaves the claim committed under what the caller presented. -/
theorem commitReference_committed {db next : Db} {objectKey : String} {generation sizeBytes : Int}
    {owner sha256 uri : String} {mediaType : Option String} {now : Time} {row : UploadClaim}
    (done : commitReference db objectKey generation owner sha256 sizeBytes uri mediaType now =
      .ok (row, next)) :
    ∃ claim, next.claims.find? objectKey = some claim ∧ claim.status = .committed ∧
      claim.owner = owner ∧ claim.claimGeneration = generation ∧ claim.sha256 = some sha256 := by
  unfold commitReference at done
  simp only [Except.bind_eq_ok, require_eq_ok] at done
  obtain ⟨claim, found, done⟩ := done
  have located := ((db.claims.find?_eq_some _ _).mp found).2
  split at done
  · rename_i fenced
    simp only [UploadClaim.commitable, Bool.and_eq_true, decide_eq_true_eq] at fenced
    obtain ⟨_, lookup⟩ := write_eq_ok done (located ▸ found)
    have stored := lookup objectKey
    rw [if_pos located.symm] at stored
    exact ⟨_, stored, rfl, fenced.1.1.1, fenced.1.1.2, rfl⟩
  · simp only [Except.bind_eq_ok, ensure_eq_ok, Bool.and_eq_true, decide_eq_true_eq, pure,
      Except.pure, Except.ok.injEq, Prod.mk.injEq] at done
    obtain ⟨_, repeated, _, rfl⟩ := done
    exact ⟨claim, found, repeated.1.1.1, repeated.1.2, repeated.1.1.2, repeated.2⟩

/-- Over a run a claim stays, its generation never decreases and a commit is final. -/
theorem run_claim {db later : Db} {history : List Event} (run : machine.Run db history later)
    {key : String} {claim : UploadClaim} (known : db.claims.find? key = some claim) :
    ∃ current, later.claims.find? key = some current ∧
      claim.claimGeneration ≤ current.claimGeneration ∧
      (claim.status = .committed → current = claim) := by
  refine run.invariant (P := fun db => ∃ current, db.claims.find? key = some current ∧
    claim.claimGeneration ≤ current.claimGeneration ∧
    (claim.status = .committed → current = claim)) ⟨claim, known, le_rfl, fun _ => rfl⟩ ?_
  rintro s call a next ⟨current, found, grown, final⟩ answered
  have effect := exec_effect answered key
  rw [found] at effect
  obtain ⟨after, after_eq, generation⟩ := effect.generation ((s.claims.find?_eq_some _ _).mp found).2
  refine ⟨after, after_eq, ?_, ?_⟩
  · rw [generation]
    split <;> omega
  · intro committed
    obtain rfl := final committed
    exact Option.some.inj (after_eq.symm.trans (effect.final committed))

/-- **Fencing.** From every state on, whatever the calls and their `now`: a claim's generation
grows by one exactly at takeovers, a commit is final, a commit writes only under its own live
lease, a token below a generation once seen writes nothing, and after a commit was answered
only its repetition is. -/
theorem upload_claims_fenced {db later : Db} {history : List Event}
    (run : machine.Run db history later) (key : String) :
    (∀ claim, db.claims.find? key = some claim →
      ∃ current, later.claims.find? key = some current ∧
        claim.claimGeneration ≤ current.claimGeneration ∧
        (claim.status = .committed → current = claim) ∧
        ∀ call a next, machine.exec call later = .ok (a, next) →
          ∃ after, next.claims.find? key = some after ∧
            after.claimGeneration =
              current.claimGeneration + (if takesOver call current then 1 else 0) ∧
            (∀ generation, call.token key = some generation →
              generation < claim.claimGeneration → after = current) ∧
            ∀ generation owner sha256 sizeBytes uri mediaType now,
              call = .commitReference key generation owner sha256 sizeBytes uri mediaType now →
              after ≠ current → current.owner = owner ∧ current.claimGeneration = generation ∧
                current.status = .leased ∧ now < current.leaseExpiresAt) ∧
    ∀ start a b next generation owner sha256 sizeBytes uri mediaType now
      generation' owner' sha256' sizeBytes' uri' mediaType' now',
      machine.exec (.commitReference key generation owner sha256 sizeBytes uri mediaType now) start =
        .ok (a, db) →
      machine.exec (.commitReference key generation' owner' sha256' sizeBytes' uri' mediaType' now')
        later = .ok (b, next) →
      owner' = owner ∧ generation' = generation ∧ sha256' = sha256 := by
  refine ⟨?_, ?_⟩
  · intro claim known
    obtain ⟨current, found, grown, final⟩ := run_claim run known
    refine ⟨current, found, grown, final, ?_⟩
    intro call a next answered
    have effect := exec_effect answered key
    rw [found] at effect
    obtain ⟨after, after_eq, moved⟩ :=
      effect.generation ((later.claims.find?_eq_some _ _).mp found).2
    refine ⟨after, after_eq, moved, ?_, ?_⟩
    · intro generation token stale
      by_contra changed
      have current_eq := effect.token_current token (fun same => changed (by
        rw [after_eq] at same
        exact Option.some.inj same))
      omega
    · rintro generation owner sha256 sizeBytes uri mediaType now rfl changed
      have fenced := effect.commitable (fun same => changed (by
        rw [after_eq] at same
        exact Option.some.inj same))
      simp only [UploadClaim.commitable, Bool.and_eq_true, decide_eq_true_eq] at fenced
      exact ⟨fenced.1.1.1, fenced.1.1.2, fenced.1.2, fenced.2⟩
  · intro start a b next generation owner sha256 sizeBytes uri mediaType now
      generation' owner' sha256' sizeBytes' uri' mediaType' now' first second
    obtain ⟨row, done, rfl⟩ := answer_eq_ok.mp first
    obtain ⟨row', again, rfl⟩ := answer_eq_ok.mp second
    obtain ⟨claim, known, committed, owned, current, hash⟩ := commitReference_committed done
    obtain ⟨claim', found, _, final⟩ := run_claim run known
    obtain rfl := final committed
    obtain ⟨after, found', _, owned', current', hash'⟩ := commitReference_committed again
    have effect := exec_effect second key
    rw [found, found'] at effect
    obtain rfl := Option.some.inj (effect.final committed)
    rw [hash] at hash'
    exact ⟨owned'.symm.trans owned, current'.symm.trans current, (Option.some.inj hash').symm⟩

/-- A producer whose lease runs out and a second one that takes the key over. -/
def acquired : Db := (machine.replay Db.empty [.acquireUploadClaim "k" "a" 10 none 0]).2

theorem upload_claims_fenced_takeover :
    ∃ claim current, acquired.claims.find? "k" = some claim ∧
      (machine.replay acquired [.acquireUploadClaim "k" "b" 10 none (seconds 10)]).2.claims.find? "k" =
        some current ∧ current.claimGeneration = 2 ∧
      claim.claimGeneration ≤ current.claimGeneration := by
  have run := machine.run_replay acquired [.acquireUploadClaim "k" "b" 10 none (seconds 10)]
  have known := (Option.some_get (show (acquired.claims.find? "k").isSome by decide)).symm
  obtain ⟨current, found, grown, _⟩ := (upload_claims_fenced run "k").1 _ known
  refine ⟨_, current, known, found, ?_, grown⟩
  have second : ((machine.replay acquired
      [.acquireUploadClaim "k" "b" 10 none (seconds 10)]).2.claims.find? "k").map
        UploadClaim.claimGeneration = some 2 := by decide
  rw [found] at second
  exact Option.some.inj second

end Collector.Persistence.UploadClaims
