import Collector.Storage.UploadInvariant

/-!
No committed reference to a deleted object: every step of an upload or a sweep keeps the invariant,
and so does every interleaving of them.
-/

namespace Collector.Storage
open Collector.Lib Collector.Persistence Collector.Persistence.UploadClaims

variable {sweeper : String → Prop}

/-- Uploads are started by producers and sweeps by sweepers. -/
def Action.apart (sweeper : String → Prop) : Action → Prop
  | .startUpload _ upload => ¬ sweeper upload.owner
  | .startSweep _ sweep => sweeper sweep.owner
  | _ => True

/-- A step that an upload takes from its own phase. -/
private theorem upload_step {s next : System} {id : Nat} {f : UploadCall → Option System}
    (sound : s.Sound sweeper) (stepped : (s.uploads id).bind f = some next)
    (each : ∀ call, ¬ sweeper call.upload.owner → call.phase.knows sweeper s call.upload →
      f call = some next → next.Sound sweeper) : next.Sound sweeper := by
  obtain ⟨call, known, moved⟩ := Option.bind_eq_some_iff.mp stepped
  obtain ⟨producer, knows⟩ := sound.uploads id call known
  exact each call producer knows moved

private theorem sweep_step {s next : System} {id : Nat} {f : SweepCall → Option System}
    (sound : s.Sound sweeper) (stepped : (s.sweeps id).bind f = some next)
    (each : ∀ call, sweeper call.sweep.owner → f call = some next → next.Sound sweeper) :
    next.Sound sweeper := by
  obtain ⟨call, known, moved⟩ := Option.bind_eq_some_iff.mp stepped
  exact each call (sound.sweeps id call known) moved

theorem System.Sound.step {s next : System} {action : Action} (sound : s.Sound sweeper)
    (apart : action.apart sweeper) (stepped : s.step action = some next) : next.Sound sweeper := by
  cases action with
  | startUpload id upload =>
    simp only [System.step, Option.ite_none_right_eq_some, Option.some.injEq] at stepped
    rw [← stepped.2]
    have producer : ¬ sweeper (UploadCall.mk upload (.acquiring 1)).upload.owner := apart
    exact sound.setUpload producer trivial
  | acquire id now =>
    refine upload_step sound stepped fun call producer knows moved => ?_
    split at moved
    · cases moved
      exact sound.acquire producer _ now
    · cases moved
  | readClaim id =>
    refine upload_step sound stepped fun call producer knows moved => ?_
    split at moved
    · cases moved
      exact sound.readClaim producer _
    · cases moved
  | verifyExisting id =>
    refine upload_step sound stepped fun call producer knows moved => ?_
    split at moved
    · rename_i phase
      rw [phase] at knows
      cases moved
      exact sound.verifyExisting producer _ knows
    · cases moved
  | reference id callback =>
    refine upload_step sound stepped fun call producer knows moved => ?_
    split at moved
    · rename_i phase
      rw [phase] at knows
      cases moved
      exact sound.reference producer _ _ callback knows
    · cases moved
  | put id etag =>
    refine upload_step sound stepped fun call producer knows moved => ?_
    split at moved
    · rename_i phase
      rw [phase] at knows
      cases moved
      exact sound.put producer _ _ etag knows
    · cases moved
  | head id =>
    refine upload_step sound stepped fun call producer knows moved => ?_
    split at moved
    · rename_i phase
      rw [phase] at knows
      cases moved
      exact sound.head producer _ _ knows
    · cases moved
  | commit id callback now =>
    refine upload_step sound stepped fun call producer knows moved => ?_
    split at moved
    · rename_i phase
      rw [phase] at knows
      cases moved
      exact sound.commit producer _ _ _ callback now knows
    · cases moved
  | failUpload id =>
    refine upload_step sound stepped fun call producer knows moved => ?_
    cases moved
    exact sound.setUpload producer trivial
  | startSweep id sweep =>
    simp only [System.step, Option.ite_none_right_eq_some, Option.some.injEq] at stepped
    rw [← stepped.2]
    have sweeps : sweeper (SweepCall.mk sweep .listing 0 [] []).sweep.owner := apart
    exact sound.setSweep sweeps
  | listOrphans id now =>
    refine sweep_step sound stepped fun call sweeps moved => ?_
    split at moved
    · cases moved
      exact sound.listOrphans sweeps now
    · cases moved
  | sweepAcquire id now =>
    refine sweep_step sound stepped fun call sweeps moved => ?_
    split at moved
    · cases moved
      exact sound.sweepAcquire sweeps _ now
    · cases moved
  | delete id raised =>
    refine sweep_step sound stepped fun call sweeps moved => ?_
    split at moved
    · split at moved
      · rename_i current
        cases moved
        exact sound.delete sweeps _ _ _ raised current
      · cases moved
    · cases moved
  | failDelete id =>
    refine sweep_step sound stepped fun call sweeps moved => ?_
    split at moved
    · cases moved
      exact sound.setSweep sweeps
    · cases moved
  | release id now =>
    refine sweep_step sound stepped fun call sweeps moved => ?_
    split at moved
    · cases moved
      exact sound.release sweeps _ _ _ _ now
    · cases moved
  | expireClaims limit skip now =>
    simp only [System.step] at stepped
    split at stepped
    · rename_i done
      cases stepped
      exact sound.write (expireClaims_effect done) (by rintro _ _ _ _ _ _ _ _ ⟨⟩)
    · cases stepped

theorem System.Sound.run {s final : System} {actions : List Action} (sound : s.Sound sweeper)
    (apart : ∀ action ∈ actions, action.apart sweeper) (ran : s.run actions = some final) :
    final.Sound sweeper := by
  induction actions generalizing s with
  | nil =>
    cases ran
    exact sound
  | cons action actions ih =>
    rw [System.run, List.foldlM_cons] at ran
    obtain ⟨next, stepped, rest⟩ := Option.bind_eq_some_iff.mp ran
    exact ih (sound.step (apart action List.mem_cons_self) stepped)
      (fun other member => apart other (List.mem_cons_of_mem _ member)) rest

/-- **No committed reference to a deleted object.** After every interleaving of uploads and sweeps
whose owners are apart, a committed key and a key that a commit callback refers to have their
object in the store. -/
theorem committed_objects_present {objects : String → String → Option ObjectHead}
    {actions : List Action} {s : System} (ran : (System.start objects).run actions = some s)
    (apart : ∀ i j upload sweep, Action.startUpload i upload ∈ actions →
      Action.startSweep j sweep ∈ actions → upload.owner ≠ sweep.owner) :
    (∀ key claim, s.db.claims.find? key = some claim → claim.status = .committed →
      ∃ bucket, claim.uri = some (uriOf bucket key) ∧ (s.objects bucket key).isSome) ∧
    ∀ bucket key, (bucket, key) ∈ s.references → (s.objects bucket key).isSome := by
  have sound : s.Sound fun owner => ∃ j sweep, Action.startSweep j sweep ∈ actions ∧
      sweep.owner = owner := by
    refine (System.start_sound objects).run (fun action member => ?_) ran
    cases action with
    | startUpload i upload =>
      rintro ⟨j, sweep, started, same⟩
      exact apart i j upload sweep member started same.symm
    | startSweep j sweep => exact ⟨j, sweep, member, rfl⟩
    | _ => trivial
  refine ⟨?_, ?_⟩
  · intro key claim found committed
    exact (sound.claims key claim found committed).2
  · intro bucket key member
    exact (sound.references bucket key member).2

/-- An upload of the empty object. -/
def emptyUpload (owner : String) (named : owner ≠ "") : Upload where
  owner := owner
  leaseSeconds := 120
  maxAttempts := 3
  bucket := "raw"
  key := "raw/e3b0c44298fc1c149afbf4c8996fb92427ae41e4649b934ca495991b7852b855"
  size := 0
  sha256 := "e3b0c44298fc1c149afbf4c8996fb92427ae41e4649b934ca495991b7852b855"
  mediaType := "text/html"
  named := named
  leased := by decide
  tries := by decide

def hourlySweep : Sweep where
  owner := "sweeper"
  grace := seconds 3600
  minimumGrace := seconds 600
  leaseSeconds := 120
  limit := 1000
  bucketForKey := fun _ => "raw"
  patient := by decide

/-- A producer stalls after its HEAD, a sweeper deletes the object, the late commit is fenced off
and the producer uploads again; a second producer then finds the key committed. -/
def stalledProducer : List Action :=
  [.startUpload 0 (emptyUpload "fetcher" (by decide)), .acquire 0 0, .put 0 none, .head 0,
    .startSweep 0 hourlySweep, .listOrphans 0 (seconds 4000), .sweepAcquire 0 (seconds 4001),
    .delete 0 false, .commit 0 .returns (seconds 4002), .release 0 (seconds 4003),
    .acquire 0 (seconds 4004), .put 0 none, .head 0, .commit 0 .returns (seconds 4005),
    .sweepAcquire 0 (seconds 4006), .startUpload 1 (emptyUpload "parser" (by decide)),
    .acquire 1 (seconds 4007), .readClaim 1, .verifyExisting 1, .reference 1 .returns]

theorem committed_objects_present_stalled :
    ∃ s claim, (System.start fun _ _ => none).run stalledProducer = some s ∧
      s.references.length = 2 ∧
      s.db.claims.find? (emptyUpload "parser" (by decide)).key = some claim ∧
      claim.status = .committed ∧ claim.claimGeneration = 3 ∧
      ∃ bucket, claim.uri = some (uriOf bucket (emptyUpload "parser" (by decide)).key) ∧
        (s.objects bucket (emptyUpload "parser" (by decide)).key).isSome := by
  have ends : (((System.start fun _ _ => none).run stalledProducer).bind fun s =>
      (s.db.claims.find? (emptyUpload "parser" (by decide)).key).map fun claim =>
        (s.references.length, claim.status, claim.claimGeneration)) = some (2, .committed, 3) := by
    decide +kernel
  obtain ⟨s, ran, found⟩ := Option.bind_eq_some_iff.mp ends
  obtain ⟨claim, found, shape⟩ := Option.map_eq_some_iff.mp found
  simp only [Prod.mk.injEq] at shape
  obtain ⟨references, committed, generation⟩ := shape
  refine ⟨s, claim, ran, references, found, committed, generation, ?_⟩
  refine (committed_objects_present ran ?_).1 _ claim found committed
  intro i j upload sweep started swept
  simp only [stalledProducer, List.mem_cons, List.not_mem_nil, or_false, reduceCtorEq, false_or,
    Action.startUpload.injEq, Action.startSweep.injEq] at started swept
  rw [swept.2]
  rcases started with ⟨_, rfl⟩ | ⟨_, rfl⟩ <;> decide

end Collector.Storage
