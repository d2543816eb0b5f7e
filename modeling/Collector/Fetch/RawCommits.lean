import Collector.Fetch.Records

/-!
The transaction of a stored body, run to its end: the row of the fetch, the raw object, the job to
parse it and the state of the route. What is refused is refused for a row that does not fit.
-/

namespace Collector.Fetch
open Collector.Lib Collector.Persistence

section Commit
variable {β : Type}

/-- `INSERT` of a row of `fetches`. -/
def insertFetch (record : FetchRecord) (d : Drawn) (db : FetchDb) : FetchDb :=
  { db with fetches := db.fetches ++ [{ record with fetchId := d.fetchId, createdAt := d.now }] }

/-- `INSERT … ON CONFLICT DO NOTHING` of a raw object. -/
def insertRaw (raw : RawObject) (db : FetchDb) : FetchDb :=
  if db.rawObjects.any fun other => other.sha256 = raw.sha256 then db
  else { db with rawObjects := db.rawObjects ++ [raw] }

def insertJob (job : Queue.NewJob) (d : Drawn) (db : FetchDb) : FetchDb :=
  if db.jobs.any fun other => other.idempotencyKey = job.idempotencyKey then db
  else { db with jobs := db.jobs ++ [job.row d.jobId d.now] }

variable {f : Unit → FetchTxn β} {pending : FetchDb → FetchDb} {db : FetchDb}

theorem recordFetch_alone (record : FetchRecord) (d : Drawn) :
    (recordFetch record d >>= f).alone pending db =
      if record.admissible then (f ()).alone (insertFetch record d ∘ pending) db
      else (.error (.integrityError "fetches"), db) := by
  rw [recordFetch, Txn.bind_assoc, Txn.alone_ensure]
  rfl

/-- A write under a condition on what the transaction sees. -/
theorem writeUnless_alone (known : FetchDb → Bool) (change : FetchDb → FetchDb) :
    ((do if known (← Txn.view) then pure () else Txn.modify change : FetchTxn Unit) >>= f).alone
        pending db =
      (f ()).alone ((fun db => if known db then db else change db) ∘ pending) db := by
  change ((if known (pending db) then pure () else Txn.modify change : FetchTxn Unit) >>= f).alone
    pending db = _
  cases found : known (pending db) with
  | true =>
    apply Txn.alone_congr
    simp [found]
  | false =>
    change (f ()).alone (change ∘ pending) db = _
    apply Txn.alone_congr
    simp [found]

theorem recordRawObject_alone (raw : RawObject) :
    (recordRawObject raw >>= f).alone pending db =
      if raw.admissible then (f ()).alone (insertRaw raw ∘ pending) db
      else (.error (.integrityError "raw_objects"), db) := by
  rw [recordRawObject, Txn.bind_assoc, Txn.alone_ensure]
  congr 1
  exact writeUnless_alone (fun db => db.rawObjects.any fun other => other.sha256 = raw.sha256) _

theorem enqueueJob_alone (job : Queue.NewJob) (d : Drawn) :
    (enqueueJob job d >>= f).alone pending db =
      if (job.row d.jobId d.now).admissible then (f ()).alone (insertJob job d ∘ pending) db
      else (.error (.integrityError "crawl_jobs"), db) := by
  simp only [enqueueJob]
  rw [Txn.bind_assoc, Txn.alone_ensure]
  congr 1
  exact writeUnless_alone
    (fun db => db.jobs.any fun other => other.idempotencyKey = job.idempotencyKey) _

variable (argsText : List (String × ArgValue) → String) (a : RawArgs) (d : Drawn)

/-- The row of the attempt, as `commit` builds it. -/
def RawArgs.record : FetchRecord :=
  fetchRecord a.task a.requestedUrl a.fetched d.fetchedAt (some a.sha256) a.requestVariant

/-- The media type of the raw object. -/
def RawArgs.mediaType : String :=
  ((a.storedMediaType.filter (· ≠ "")).or (a.fetched.mediaType.filter (· ≠ ""))).getD
    "application/octet-stream"

/-- The raw object, as `commit` builds it. -/
def RawArgs.raw : RawObject where
  rawObjectId := d.rawObjectId
  sha256 := a.sha256
  objectKey := a.objectKey
  uri := a.uri
  sizeBytes := a.size
  mediaType := a.mediaType
  contentEncoding := a.fetched.headers.lookup "content-encoding"
  firstFetchId := some d.fetchId
  firstSeenAt := d.now

/-- What is left of `commit` behind its rows: the job to parse, and the route. -/
def finishRaw : FetchTxn Unit := do
  if a.enqueueParse then enqueueJob (parseJob argsText a d.fetchId) d else pure ()
  let _ ← resetRouteFailures a.routeId d.now
  return

theorem commitRaw_alone : (commitRaw argsText a d).alone id db =
    if (a.record d).admissible then
      if (a.raw d).admissible then
        (finishRaw argsText a d).alone (insertRaw (a.raw d) ∘ insertFetch (a.record d) d) db
      else (.error (.integrityError "raw_objects"), db)
    else (.error (.integrityError "fetches"), db) := by
  refine (recordFetch_alone (a.record d) d).trans ?_
  congr 1
  exact recordRawObject_alone (f := fun _ => finishRaw argsText a d) (a.raw d)

theorem resetRouteFailures_alone (routeId : Uuid) (now : Time) {g : RouteState → FetchTxn β} :
    (resetRouteFailures routeId now >>= g).alone pending db =
      match (pending db).routes.find? routeId with
      | none => (.error (.routeNotFound routeId), db)
      | some route =>
        if (route.resetFailures now).admissible then
          (g route.state).alone ((fun db =>
            { db with routes := db.routes.put (route.resetFailures now) }) ∘ pending) db
        else (.error (.integrityError "source_routes"), db) := by
  simp only [resetRouteFailures, updateRoute, Txn.bind_assoc]
  rw [Txn.alone_selectLocked]
  cases here : (pending db).routes.find? routeId with
  | none => rfl
  | some route =>
    have kept : (some route).filter (fun _ => true) = some route := rfl
    rw [kept]
    dsimp only
    rw [Txn.bind_assoc, Txn.alone_ensure]
    rfl

/-- The job is sound, and the route is there. -/
def RawArgs.Finishes (db : FetchDb) : Prop :=
  (a.enqueueParse = true → ((parseJob argsText a d.fetchId).row d.jobId d.now).admissible = true) ∧
    ∃ route, db.routes.find? a.routeId = some route ∧ (route.resetFailures d.now).admissible = true

/-- The database after the commit. -/
def RawArgs.finished (db : FetchDb) (route : SourceRoute) : FetchDb :=
  let db := if a.enqueueParse then insertJob (parseJob argsText a d.fetchId) d db else db
  { db with routes := db.routes.put (route.resetFailures d.now) }

theorem resetAndReturn_alone {route : SourceRoute}
    (found : (pending db).routes.find? a.routeId = some route)
    (sound : (route.resetFailures d.now).admissible = true) :
    (do let _ ← resetRouteFailures a.routeId d.now; return : FetchTxn Unit).alone pending db =
      (.ok (), { pending db with
        routes := (pending db).routes.put (route.resetFailures d.now) }) := by
  rw [resetRouteFailures_alone, found]
  dsimp only
  rw [if_pos sound]
  rfl

theorem insertJob_routes (job : Queue.NewJob) (db : FetchDb) :
    (insertJob job d db).routes = db.routes := by
  unfold insertJob
  split <;> rfl

theorem finishRaw_alone (finishes : a.Finishes argsText d (pending db)) :
    ∃ route, (finishRaw argsText a d).alone pending db =
      (.ok (), a.finished argsText d (pending db) route) := by
  obtain ⟨job, route, found, sound⟩ := finishes
  refine ⟨route, ?_⟩
  simp only [finishRaw, RawArgs.finished]
  split
  · next enqueues =>
    rw [enqueueJob_alone, if_pos (job enqueues)]
    have there : ((insertJob (parseJob argsText a d.fetchId) d ∘ pending) db).routes.find? a.routeId =
        some route := by
      rw [Function.comp_apply, insertJob_routes, found]
    exact resetAndReturn_alone a d there sound
  · exact resetAndReturn_alone a d found sound

theorem route_of_reset {after : FetchDb} (done : (do
      let _ ← resetRouteFailures a.routeId d.now
      return : FetchTxn Unit).alone pending db = (.ok (), after)) :
    ∃ route, (pending db).routes.find? a.routeId = some route ∧
      (route.resetFailures d.now).admissible = true := by
  rw [resetRouteFailures_alone] at done
  split at done
  · cases done
  · next route found =>
    refine ⟨route, found, ?_⟩
    by_contra unsound
    rw [if_neg unsound] at done
    cases done

theorem finishes_of_finishRaw {after : FetchDb}
    (done : (finishRaw argsText a d).alone pending db = (.ok (), after)) :
    a.Finishes argsText d (pending db) := by
  simp only [finishRaw] at done
  split at done
  · next enqueues =>
    rw [enqueueJob_alone] at done
    by_cases sound : ((parseJob argsText a d.fetchId).row d.jobId d.now).admissible = true
    · rw [if_pos sound] at done
      obtain ⟨route, found, rest⟩ := route_of_reset a d done
      rw [Function.comp_apply, insertJob_routes] at found
      exact ⟨fun _ => sound, route, found, rest⟩
    · rw [if_neg sound] at done
      cases done
  · next quiet => exact ⟨fun enqueues => absurd enqueues quiet, route_of_reset a d done⟩

/-- The same result without the headers of its response. -/
def FetchResult.bare (fetched : FetchResult) : FetchResult :=
  { fetched with headers := [], mediaType := none }

def RawArgs.bare : RawArgs := { a with fetched := a.fetched.bare, storedMediaType := none }

/-- But for the headers, the page can be recorded. -/
def RawArgs.InOrder (db : FetchDb) : Prop :=
  ∃ after, (commitRaw argsText a.bare d).alone id db = (.ok (), after)

/-- The row of the fetch, the raw object and the job are committed. -/
def RawArgs.Committed (db : FetchDb) : Prop :=
  ∃ after, (commitRaw argsText a d).alone id db = (.ok (), after) ∧
    (∃ row ∈ after.fetches, row.fetchId = d.fetchId ∧ row.toFetchRecord = a.record d) ∧
    (∃ raw ∈ after.rawObjects, raw.sha256 = a.sha256) ∧
    (a.enqueueParse = true →
      ∃ job ∈ after.jobs, job.idempotencyKey = (parseJob argsText a d.fetchId).idempotencyKey)

theorem insertRaw_routes (raw : RawObject) (db : FetchDb) :
    (insertRaw raw db).routes = db.routes := by
  unfold insertRaw
  split <;> rfl

theorem insertRaw_fetches (raw : RawObject) (db : FetchDb) :
    (insertRaw raw db).fetches = db.fetches := by
  unfold insertRaw
  split <;> rfl

theorem mem_insertRaw (raw : RawObject) (db : FetchDb) :
    ∃ row ∈ (insertRaw raw db).rawObjects, row.sha256 = raw.sha256 := by
  unfold insertRaw
  split
  · next known =>
    obtain ⟨row, member, same⟩ := List.any_eq_true.mp known
    exact ⟨row, member, of_decide_eq_true same⟩
  · exact ⟨raw, List.mem_append_right _ List.mem_cons_self, rfl⟩

theorem mem_insertJob (job : Queue.NewJob) (db : FetchDb) :
    ∃ row ∈ (insertJob job d db).jobs, row.idempotencyKey = job.idempotencyKey := by
  unfold insertJob
  split
  · next known =>
    obtain ⟨row, member, same⟩ := List.any_eq_true.mp known
    exact ⟨row, member, of_decide_eq_true same⟩
  · exact ⟨job.row d.jobId d.now, List.mem_append_right _ List.mem_cons_self, rfl⟩

theorem finished_fetches (db : FetchDb) (route : SourceRoute) :
    (a.finished argsText d db route).fetches = db.fetches := by
  unfold RawArgs.finished insertJob
  split
  · split <;> rfl
  · rfl

theorem finished_rawObjects (db : FetchDb) (route : SourceRoute) :
    (a.finished argsText d db route).rawObjects = db.rawObjects := by
  unfold RawArgs.finished insertJob
  split
  · split <;> rfl
  · rfl

variable {argsText a d}

theorem RawArgs.InOrder.rows (inOrder : a.InOrder argsText d db) :
    (a.bare.record d).admissible = true ∧ (a.bare.raw d).admissible = true := by
  obtain ⟨after, done⟩ := inOrder
  rw [commitRaw_alone] at done
  split at done
  · next record =>
    split at done
    · next raw => exact ⟨record, raw⟩
    · cases done
  · cases done

theorem RawArgs.InOrder.finishes (inOrder : a.InOrder argsText d db) :
    a.Finishes argsText d db := by
  obtain ⟨record, raw⟩ := inOrder.rows
  obtain ⟨after, done⟩ := inOrder
  rw [commitRaw_alone, if_pos record, if_pos raw] at done
  have finishes := finishes_of_finishRaw argsText a.bare d done
  rwa [Function.comp_apply, RawArgs.Finishes, insertRaw_routes] at finishes

/-- If all else is in order, the two rows decide. -/
theorem committed_iff (inOrder : a.InOrder argsText d db) :
    a.Committed argsText d db ↔
      (a.record d).admissible = true ∧ (a.raw d).admissible = true := by
  constructor
  · rintro ⟨after, done, _⟩
    rw [commitRaw_alone] at done
    split at done
    · next record =>
      split at done
      · next raw => exact ⟨record, raw⟩
      · cases done
    · cases done
  · rintro ⟨record, raw⟩
    have ready : a.Finishes argsText d ((insertRaw (a.raw d) ∘ insertFetch (a.record d) d) db) := by
      rw [Function.comp_apply, RawArgs.Finishes, insertRaw_routes]
      exact inOrder.finishes
    obtain ⟨route, committed⟩ := finishRaw_alone argsText a d ready
    refine ⟨a.finished argsText d ((insertRaw (a.raw d) ∘ insertFetch (a.record d) d) db) route,
      ?_, ?_, ?_, ?_⟩
    · rw [commitRaw_alone, if_pos record, if_pos raw, committed]
    · rw [finished_fetches, Function.comp_apply, insertRaw_fetches]
      exact ⟨_, List.mem_append_right _ List.mem_cons_self, rfl, rfl⟩
    · rw [finished_rawObjects]
      exact mem_insertRaw (a.raw d) _
    · intro enqueues
      simp only [RawArgs.finished, if_pos enqueues]
      exact mem_insertJob d _ _

end Commit

end Collector.Fetch
