import Collector.Storage.Upload

/-!
The invariant of uploads and sweeps. Uploaders and sweepers never share an owner, so a generation
belongs to one side: while a sweeper's claim is current no producer holds a token that could still
commit, and what a producer's token has seen in the store stays there as long as the token is
current.
-/

namespace Collector.Storage
open Collector.Lib Collector.Persistence Collector.Persistence.UploadClaims

def System.present (s : System) (bucket key : String) : Prop := (s.objects bucket key).isSome

variable {sweeper : String → Prop}

/-- The key is committed, and not to a sweeper. -/
def System.settled (sweeper : String → Prop) (s : System) (key : String) : Prop :=
  ∃ claim, s.db.claims.find? key = some claim ∧ claim.status = .committed ∧ ¬ sweeper claim.owner

/-- A fencing token: a generation of the key that was once acquired. -/
def System.holdsToken (s : System) (key : String) (generation : Int) : Prop :=
  ∃ claim, s.db.claims.find? key = some claim ∧ generation ≤ claim.claimGeneration

/-- As long as the token is current its object is in the store. -/
def System.guards (s : System) (upload : Upload) (generation : Int) : Prop :=
  ∃ claim, s.db.claims.find? upload.key = some claim ∧ generation ≤ claim.claimGeneration ∧
    (claim.owner = upload.owner → claim.claimGeneration = generation →
      s.present upload.bucket upload.key)

/-- What an upload that stands at a phase knows of the claims and of the store. -/
def UploadPhase.knows (sweeper : String → Prop) (s : System) (upload : Upload) : UploadPhase → Prop
  | .verifying _ => s.settled sweeper upload.key
  | .referencing _ stored => stored.bucket = upload.bucket ∧ stored.key = upload.key ∧
      s.settled sweeper upload.key ∧ s.present upload.bucket upload.key
  | .putting _ generation => s.holdsToken upload.key generation
  | .heading _ generation => s.guards upload generation
  | .committing _ generation stored => stored.bucket = upload.bucket ∧ stored.key = upload.key ∧
      s.guards upload generation
  | .acquiring _ | .reading _ | .finished _ _ _ | .failed _ => True

structure System.Sound (sweeper : String → Prop) (s : System) : Prop where
  uploads : ∀ id call, s.uploads id = some call →
    ¬ sweeper call.upload.owner ∧ call.phase.knows sweeper s call.upload
  sweeps : ∀ id call, s.sweeps id = some call → sweeper call.sweep.owner
  claims : ∀ key claim, s.db.claims.find? key = some claim → claim.status = .committed →
    ¬ sweeper claim.owner ∧ ∃ bucket, claim.uri = some (uriOf bucket key) ∧ s.present bucket key
  references : ∀ bucket key, (bucket, key) ∈ s.references →
    s.settled sweeper key ∧ s.present bucket key

theorem System.start_sound (objects : String → String → Option ObjectHead) :
    (System.start objects).Sound sweeper where
  uploads id call known := by simp [System.start] at known
  sweeps id call known := by simp [System.start] at known
  claims key claim found := by simp [System.start, Db.empty] at found
  references bucket key member := absurd member List.not_mem_nil

/-- What a step may do to the claims and the store: a claim keeps its owner until its generation
moves, a commit is final, and an object only goes while its claim is a sweeper's. -/
structure Keeps (sweeper : String → Prop) (s next : System) : Prop where
  claims : ∀ key claim, s.db.claims.find? key = some claim →
    ∃ after, next.db.claims.find? key = some after ∧
      claim.claimGeneration ≤ after.claimGeneration ∧
      (after.claimGeneration = claim.claimGeneration → after.owner = claim.owner) ∧
      (claim.status = .committed → after = claim)
  objects : ∀ bucket key claim, s.db.claims.find? key = some claim → ¬ sweeper claim.owner →
    s.present bucket key → next.present bucket key

section Keeps
variable {s next : System} {key bucket : String} {generation : Int} {upload : Upload}

theorem Keeps.settled (keeps : Keeps sweeper s next) (settled : s.settled sweeper key) :
    next.settled sweeper key := by
  obtain ⟨claim, found, committed, producer⟩ := settled
  obtain ⟨after, found', _, _, final⟩ := keeps.claims key claim found
  obtain rfl := final committed
  exact ⟨after, found', committed, producer⟩

theorem Keeps.present (keeps : Keeps sweeper s next) (settled : s.settled sweeper key)
    (present : s.present bucket key) : next.present bucket key := by
  obtain ⟨claim, found, _, producer⟩ := settled
  exact keeps.objects bucket key claim found producer present

theorem Keeps.holdsToken (keeps : Keeps sweeper s next) (token : s.holdsToken key generation) :
    next.holdsToken key generation := by
  obtain ⟨claim, found, old⟩ := token
  obtain ⟨after, found', grown, _⟩ := keeps.claims key claim found
  exact ⟨after, found', old.trans grown⟩

theorem Keeps.guards (keeps : Keeps sweeper s next) (producer : ¬ sweeper upload.owner)
    (guards : s.guards upload generation) : next.guards upload generation := by
  obtain ⟨claim, found, old, covered⟩ := guards
  obtain ⟨after, found', grown, owned, _⟩ := keeps.claims upload.key claim found
  refine ⟨after, found', old.trans grown, ?_⟩
  intro mine current
  -- A token that is current afterwards was current before, under the same owner.
  have unmoved : after.claimGeneration = claim.claimGeneration := by omega
  have before : claim.owner = upload.owner := (owned unmoved).symm.trans mine
  apply keeps.objects _ _ claim found (before ▸ producer)
  exact covered before (by omega)

theorem Keeps.knows (keeps : Keeps sweeper s next) (producer : ¬ sweeper upload.owner)
    {phase : UploadPhase} (knows : phase.knows sweeper s upload) :
    phase.knows sweeper next upload := by
  cases phase with
  | verifying => exact keeps.settled knows
  | referencing attempt stored =>
    obtain ⟨bucket, key, settled, present⟩ := knows
    exact ⟨bucket, key, keeps.settled settled, keeps.present settled present⟩
  | putting => exact keeps.holdsToken knows
  | heading => exact keeps.guards producer knows
  | committing attempt generation stored =>
    obtain ⟨bucket, key, guards⟩ := knows
    exact ⟨bucket, key, keeps.guards producer guards⟩
  | acquiring | reading | finished | failed => trivial

/-- A move of the claims and the store keeps the invariant when what it commits and refers to is
in the store. -/
theorem System.Sound.move (sound : s.Sound sweeper) (keeps : Keeps sweeper s next)
    (uploads : next.uploads = s.uploads) (sweeps : next.sweeps = s.sweeps)
    (claims : ∀ key claim, next.db.claims.find? key = some claim → claim.status = .committed →
      s.db.claims.find? key = some claim ∨ (¬ sweeper claim.owner ∧
        ∃ bucket, claim.uri = some (uriOf bucket key) ∧ next.present bucket key))
    (references : ∀ bucket key, (bucket, key) ∈ next.references →
      (bucket, key) ∈ s.references ∨ (next.settled sweeper key ∧ next.present bucket key)) :
    next.Sound sweeper where
  uploads id call known := by
    obtain ⟨producer, knows⟩ := sound.uploads id call (uploads ▸ known)
    exact ⟨producer, keeps.knows producer knows⟩
  sweeps id call known := sound.sweeps id call (sweeps ▸ known)
  claims key claim found committed := by
    rcases claims key claim found committed with old | fresh
    · obtain ⟨producer, bucket, located, present⟩ := sound.claims key claim old committed
      exact ⟨producer, bucket, located, keeps.objects bucket key claim old producer present⟩
    · exact fresh
  references bucket key member := by
    rcases references bucket key member with old | fresh
    · obtain ⟨settled, present⟩ := sound.references bucket key old
      exact ⟨keeps.settled settled, keeps.present settled present⟩
    · exact fresh

theorem System.Sound.setUpload (sound : s.Sound sweeper) {id : Nat} {call : UploadCall}
    (producer : ¬ sweeper call.upload.owner) {phase : UploadPhase}
    (knows : phase.knows sweeper s call.upload) : (s.setUpload id call phase).Sound sweeper where
  uploads other moved known := by
    change Function.update s.uploads id _ other = _ at known
    by_cases here : other = id
    · subst here
      rw [Function.update_self, Option.some.injEq] at known
      subst known
      exact ⟨producer, knows⟩
    · rw [Function.update_of_ne here] at known
      exact sound.uploads other moved known
  sweeps := sound.sweeps
  claims := sound.claims
  references := sound.references

theorem System.Sound.setSweep (sound : s.Sound sweeper) {id : Nat} {call : SweepCall}
    (sweeps : sweeper call.sweep.owner) {phase : SweepPhase} :
    (s.setSweep id call phase).Sound sweeper where
  uploads := sound.uploads
  sweeps other moved known := by
    change Function.update s.sweeps id _ other = _ at known
    by_cases here : other = id
    · subst here
      rw [Function.update_self, Option.some.injEq] at known
      subst known
      exact sweeps
    · rw [Function.update_of_ne here] at known
      exact sound.sweeps other moved known
  claims := sound.claims
  references := sound.references

end Keeps

section Claims
variable {s next : System} {call : Call} {db : Db}

/-- A transaction that only writes claims. -/
theorem Keeps.of_effects
    (effects : ∀ key, ClaimEffect call key (s.db.claims.find? key) (db.claims.find? key))
    (same : next.objects = s.objects) (written : next.db = db) : Keeps sweeper s next where
  claims key claim found := by
    have effect := effects key
    rw [found] at effect
    obtain ⟨after, found', rest⟩ := effect.keeps
    exact ⟨after, written ▸ found', rest⟩
  objects bucket key claim _ _ present := by
    unfold System.present
    rw [same]
    exact present

/-- A step that leaves the claims alone. -/
theorem Keeps.of_objects (same : next.db = s.db)
    (kept : ∀ bucket key claim, s.db.claims.find? key = some claim → ¬ sweeper claim.owner →
      s.present bucket key → next.present bucket key) : Keeps sweeper s next where
  claims _ claim found := ⟨claim, same ▸ found, le_rfl, fun _ => rfl, fun _ => rfl⟩
  objects := kept

/-- A transaction on the claims, where what it commits is in the store. -/
theorem System.Sound.write (sound : s.Sound sweeper)
    (effects : ∀ key, ClaimEffect call key (s.db.claims.find? key) (db.claims.find? key))
    (fresh : ∀ key generation owner sha256 sizeBytes uri mediaType now,
      call = .commitReference key generation owner sha256 sizeBytes uri mediaType now →
        ¬ sweeper owner ∧ ∃ bucket, uri = uriOf bucket key ∧ s.present bucket key) :
    ({ s with db := db } : System).Sound sweeper := by
  have keeps : Keeps sweeper s { s with db := db } := Keeps.of_effects effects rfl rfl
  apply sound.move keeps rfl rfl
  · intro key claim found committed
    have effect := effects key
    rw [show db.claims.find? key = some claim from found] at effect
    rcases effect.committed_by committed with old | ⟨_, _, _, _, _, _, _, called, owned, _, located⟩
    · exact .inl old
    · obtain ⟨producer, bucket, rfl, present⟩ := fresh _ _ _ _ _ _ _ _ called
      exact .inr ⟨owned ▸ producer, bucket, located, present⟩
  · intro bucket key member
    exact .inl member

/-- A change of the store that no object under a producer's claim is lost by. -/
theorem System.Sound.store (sound : s.Sound sweeper)
    {objects : String → String → Option ObjectHead}
    (kept : ∀ bucket key claim, s.db.claims.find? key = some claim → ¬ sweeper claim.owner →
      s.present bucket key → (objects bucket key).isSome) :
    ({ s with objects := objects } : System).Sound sweeper := by
  have keeps : Keeps sweeper s { s with objects := objects } := .of_objects rfl kept
  apply sound.move keeps rfl rfl
  · intro key claim found _
    exact .inl found
  · intro bucket key member
    exact .inl member

/-- A reference to a committed key whose object is in the store. -/
theorem System.Sound.refer (sound : s.Sound sweeper) {bucket key : String}
    (settled : s.settled sweeper key) (present : s.present bucket key) :
    ({ s with references := s.references ++ [(bucket, key)] } : System).Sound sweeper := by
  have keeps : Keeps sweeper s { s with references := s.references ++ [(bucket, key)] } :=
    .of_objects rfl fun _ _ _ _ _ present => present
  apply sound.move keeps rfl rfl
  · intro key claim found _
    exact .inl found
  · intro bucket' key' member
    rcases List.mem_append.mp member with old | new
    · exact .inl old
    · rw [List.mem_singleton, Prod.mk.injEq] at new
      obtain ⟨rfl, rfl⟩ := new
      exact .inr ⟨settled, present⟩

end Claims

section Steps
variable {s : System} {id : Nat}

theorem System.Sound.acquire (sound : s.Sound sweeper) {call : UploadCall}
    (producer : ¬ sweeper call.upload.owner) (attempt : Nat) (now : Time) :
    (s.acquire id call attempt now).Sound sweeper := by
  unfold System.acquire
  split
  · rename_i claim db done
    have effects := acquireUploadClaim_effect done
    apply (sound.write effects nofun).setUpload producer
    exact ⟨claim, acquireUploadClaim_row done, le_rfl⟩
  · exact sound.setUpload producer trivial
  · exact sound.setUpload producer trivial

theorem System.Sound.readClaim (sound : s.Sound sweeper) {call : UploadCall}
    (producer : ¬ sweeper call.upload.owner) (attempt : Nat) :
    (s.readClaim id call attempt).Sound sweeper := by
  unfold System.readClaim
  split
  · rename_i claim found
    split
    · rename_i committed
      apply sound.setUpload producer
      exact ⟨claim, found, committed, (sound.claims _ claim found committed).1⟩
    · exact sound.setUpload producer trivial
  · exact sound.setUpload producer trivial

/-- A verified HEAD found the object. -/
theorem System.present_of_verifiedHead {upload : Upload} {head : ObjectHead}
    (verified : s.verifiedHead upload = .ok head) : s.present upload.bucket upload.key := by
  unfold System.verifiedHead at verified
  split at verified
  · cases verified
  · rename_i found
    unfold System.present
    rw [found]
    rfl

theorem System.Sound.verifyExisting (sound : s.Sound sweeper) {call : UploadCall}
    (producer : ¬ sweeper call.upload.owner) (attempt : Nat)
    (settled : s.settled sweeper call.upload.key) :
    (s.verifyExisting id call attempt).Sound sweeper := by
  unfold System.verifyExisting
  split
  · exact sound.setUpload producer trivial
  · rename_i head verified
    apply sound.setUpload producer
    exact ⟨rfl, rfl, settled, System.present_of_verifiedHead verified⟩

theorem System.Sound.reference (sound : s.Sound sweeper) {call : UploadCall}
    (producer : ¬ sweeper call.upload.owner) (attempt : Nat) (stored : StoredObject)
    (callback : Callback)
    (knows : (UploadPhase.referencing attempt stored).knows sweeper s call.upload) :
    (s.reference id call attempt stored callback).Sound sweeper := by
  obtain ⟨sameBucket, sameKey, settled, present⟩ := knows
  rw [← sameKey] at settled
  rw [← sameBucket, ← sameKey] at present
  cases callback with
  | returns => exact (sound.refer settled present).setUpload producer trivial
  | staleClaim | raises => exact sound.setUpload producer trivial

theorem System.Sound.put (sound : s.Sound sweeper) {call : UploadCall}
    (producer : ¬ sweeper call.upload.owner) (attempt : Nat) (generation : Int) (etag : Option String)
    (token : s.holdsToken call.upload.key generation) :
    (s.put id call attempt generation etag).Sound sweeper := by
  obtain ⟨claim, found, old⟩ := token
  refine System.Sound.setUpload (sound.store ?_) producer ?_
  · intro bucket key _ _ _ present
    by_cases sameBucket : bucket = call.upload.bucket
    · subst sameBucket
      rw [Function.update_self, Function.update_apply]
      split
      · rfl
      · exact present
    · rw [Function.update_of_ne sameBucket]
      exact present
  · refine ⟨claim, found, old, fun _ _ => ?_⟩
    simp [System.present]

theorem System.Sound.head (sound : s.Sound sweeper) {call : UploadCall}
    (producer : ¬ sweeper call.upload.owner) (attempt : Nat) (generation : Int)
    (guards : s.guards call.upload generation) : (s.head id call attempt generation).Sound sweeper := by
  unfold System.head
  split
  · exact sound.setUpload producer trivial
  · exact sound.setUpload producer ⟨rfl, rfl, guards⟩

theorem System.knows_retryPhase (upload : Upload) (attempt : Nat) :
    (System.retryPhase upload attempt).knows sweeper s upload := by
  unfold System.retryPhase
  split <;> trivial

/-- The commit transaction: it writes under the upload's own token, whose object is there. -/
theorem System.Sound.commit (sound : s.Sound sweeper) {call : UploadCall}
    (producer : ¬ sweeper call.upload.owner) (attempt : Nat) (generation : Int)
    (stored : StoredObject) (callback : Callback) (now : Time)
    (knows : (UploadPhase.committing attempt generation stored).knows sweeper s call.upload) :
    (s.commit id call attempt generation stored callback now).Sound sweeper := by
  obtain ⟨sameBucket, sameKey, claim, found, old, covered⟩ := knows
  unfold System.commit
  split
  · rename_i row db done
    cases callback with
    | returns =>
      have effects := commitReference_effect done
      obtain ⟨after, found', committed, owned, current, _⟩ := commitReference_committed done
      -- The commit leaves owner and generation as they were, so the token was current.
      have present : s.present call.upload.bucket call.upload.key := by
        have effect := effects call.upload.key
        rw [found, found'] at effect
        obtain ⟨next, same, grown, unmoved, _⟩ := effect.keeps
        obtain rfl := Option.some.inj same
        have still : after.claimGeneration = claim.claimGeneration := by omega
        exact covered ((unmoved still).symm.trans owned) (by omega)
      have written : ({ s with db := db } : System).Sound sweeper := by
        apply sound.write effects
        intro key _ _ _ _ _ _ _ called
        cases called
        refine ⟨producer, call.upload.bucket, ?_, present⟩
        rw [StoredObject.uri, sameBucket, sameKey]
      have settled : ({ s with db := db } : System).settled sweeper call.upload.key :=
        ⟨after, found', committed, owned ▸ producer⟩
      rw [sameBucket, sameKey]
      exact (written.refer settled present).setUpload producer trivial
    | staleClaim => exact sound.setUpload producer (System.knows_retryPhase _ _)
    | raises => exact sound.setUpload producer trivial
  · exact sound.setUpload producer (System.knows_retryPhase _ _)
  · exact sound.setUpload producer trivial

theorem System.Sound.listOrphans (sound : s.Sound sweeper) {call : SweepCall}
    (sweeps : sweeper call.sweep.owner) (now : Time) : (s.listOrphans id call now).Sound sweeper := by
  unfold System.listOrphans
  split
  · apply sound.setSweep
    exact sweeps
  · exact sound.setSweep sweeps

theorem System.Sound.sweepAcquire (sound : s.Sound sweeper) {call : SweepCall}
    (sweeps : sweeper call.sweep.owner) (keys : List String) (now : Time) :
    (s.sweepAcquire id call keys now).Sound sweeper := by
  unfold System.sweepAcquire
  split
  · exact sound.setSweep sweeps
  · split
    · rename_i done
      exact (sound.write (acquireUploadClaim_effect done) nofun).setSweep sweeps
    · apply sound.setSweep
      exact sweeps
    · exact sound.setSweep sweeps

theorem System.Sound.delete (sound : s.Sound sweeper) {call : SweepCall}
    (sweeps : sweeper call.sweep.owner) (key : String) (generation : Int) (rest : List String)
    (raised : Bool) (current : s.claimCurrent key call.sweep.owner generation = true) :
    (s.delete id call key generation rest raised).Sound sweeper := by
  apply System.Sound.setSweep
  · apply sound.store
    intro bucket other claim found producer present
    -- The claim of the deleted key is the sweeper's own.
    have different : other ≠ key := by
      rintro rfl
      simp only [System.claimCurrent, found, decide_eq_true_eq] at current
      exact producer (current.1 ▸ sweeps)
    by_cases sameBucket : bucket = call.sweep.bucketForKey key
    · subst sameBucket
      rw [Function.update_self, Function.update_of_ne different]
      exact present
    · rw [Function.update_of_ne sameBucket]
      exact present
  · exact sweeps

theorem System.Sound.release (sound : s.Sound sweeper) {call : SweepCall}
    (sweeps : sweeper call.sweep.owner) (key : String) (generation : Int) (rest : List String)
    (raised : Bool) (now : Time) : (s.release id call key generation rest raised now).Sound sweeper := by
  unfold System.release
  split
  · rename_i done
    exact (sound.write (releaseClaim_effect done) nofun).setSweep sweeps
  · exact sound.setSweep sweeps

end Steps

end Collector.Storage
