import Collector.Persistence.Sources

/-!
The control plane of a source over whole runs. Every transaction holds the row from where it checks the
revision to its end, so the row, its policy versions and its trail change together, one revision at a
time: no two calls succeed on the same revision, and no version number is left out or given twice.
-/

namespace Collector.Persistence.Sources
open Collector.Lib

/-- The row of the source, its policy versions and the log. -/
structure SourceView where
  source : Option Source
  policies : List SourcePolicyVersion
  audit : List AuditRow

def sourceView (sourcePk : Uuid) (db : ControlDb) : SourceView :=
  ⟨db.sources.find? sourcePk, policiesOf sourcePk db, db.audit⟩

/-- The trail of the source. -/
def changes (sourceId : String) (audit : List AuditRow) : List AuditRow :=
  audit.filter fun row => row.resourceType = "source" ∧ row.resourceId = sourceId

/-- A row of the trail that says which revision it found and which one it left. -/
structure Recorded (source next : Source) (row : AuditRow) : Prop where
  about : row.resourceType = "source" ∧ row.resourceId = source.sourceId
  found : (row.beforeState.bind (·.lookup "revision")) = some (.int source.revision)
  left : (row.afterState.bind (·.lookup "revision")) = some (.int (source.revision + 1))
  state : ((row.afterState.bind (·.lookup "state")).getD (.text source.state.value)) = .text next.state.value

/-- What one transaction does to the source. -/
inductive SourceMove (sourcePk : Uuid) (call : SourceCall) (outcome : Except ControlError SourceAnswer)
    (before after : SourceView) : Prop
  | raised (e : ControlError) : outcome = .error e → after = before →
      SourceMove sourcePk call outcome before after
  | set (source next : Source) (row : AuditRow) : outcome = .ok (.source next) →
      before.source = some source → call.expectedRevision = source.revision →
      next.revision = source.revision + 1 → next.sourceId = source.sourceId →
      next.currentPolicyVersionId = source.currentPolicyVersionId → Recorded source next row →
      after = ⟨some next, before.policies, before.audit ++ [row]⟩ →
      SourceMove sourcePk call outcome before after
  | added (source next : Source) (policy : SourcePolicyVersion) (row : AuditRow) :
      outcome = .ok (.policy policy) → before.source = some source →
      call.expectedRevision = source.revision → next.revision = source.revision + 1 →
      next.sourceId = source.sourceId → next.currentPolicyVersionId = some policy.id →
      policy.version = ((before.policies.map SourcePolicyVersion.version).max?).getD 0 + 1 →
      Recorded source next row →
      after = ⟨some next, before.policies ++ [policy], before.audit ++ [row]⟩ →
      SourceMove sourcePk call outcome before after

section Moves
variable {sourcePk : Uuid} {β : Type}

abbrev sourceWatch (sourcePk : Uuid) : Discipline ControlDb ControlLock :=
  watching (sourceView sourcePk) (.source sourcePk) fun _ => True

abbrev SourcePost (sourcePk : Uuid) : SourceCall → Except ControlError SourceAnswer → ControlDb →
    ControlDb → Prop := Moved (sourceView sourcePk) (fun _ => True) (SourceMove sourcePk)

theorem source_refused {call : SourceCall} {e : ControlError} {c : ControlDb} :
    SourcePost sourcePk call (.error e) c c := ⟨trivial, .raised e rfl rfl⟩

theorem source_view_eq {a b : ControlDb} {held : List (ControlLock × LockMode)} {mode : LockMode}
    (moved : (sourceWatch sourcePk).rely held a b) (locked : (.source sourcePk, mode) ∈ held)
    (writes : mode = .noKeyUpdate ∨ mode = .update) : sourceView sourcePk b = sourceView sourcePk a :=
  moved (.of_writer locked writes)

theorem find?_putSource {db : ControlDb} {source next : Source}
    (known : db.sources.find? sourcePk = some source) (same : next.id = source.id) :
    (putSource next db).sources.find? sourcePk = some next := by
  obtain ⟨_, key⟩ := (Table.find?_eq_some _ _ _).mp known
  have named : next.id = sourcePk := same.trans key
  have found := db.sources.find?_put next (named ▸ known) sourcePk
  rwa [if_pos named.symm] at found

theorem sourceView_added {db : ControlDb} {source next : Source} {policy : SourcePolicyVersion}
    (row : AuditRow) (known : db.sources.find? sourcePk = some source) (same : next.id = source.id)
    (own : policy.sourceId = sourcePk) :
    sourceView sourcePk (addAudit row (putSource next (addPolicy policy db))) =
      ⟨some next, policiesOf sourcePk db ++ [policy], db.audit ++ [row]⟩ := by
  have found : (putSource next (addPolicy policy db)).sources.find? sourcePk = some next :=
    find?_putSource known same
  have listed : policiesOf sourcePk (addPolicy policy db) = policiesOf sourcePk db ++ [policy] := by
    rw [policiesOf, addPolicy, List.filter_append, List.filter_singleton, own, decide_eq_true rfl]
    rfl
  exact (congrArg (SourceView.mk · _ _) found).trans (congrArg (SourceView.mk _ · _) listed)

theorem wp_raiseStaleOrMissing {Q : Ending ControlDb ControlLock ControlError β} {expectedRevision : Int}
    {held : List (ControlLock × LockMode)} {c : ControlDb} (refused : ∀ e c', Q (.error e) held id c') :
    (sourceWatch sourcePk).wp Q (raiseStaleOrMissing sourcePk expectedRevision) held id c := by
  unfold raiseStaleOrMissing
  rw [Discipline.wp_view]
  intro c₁ _ _
  split <;> exact refused _ _

/-- The row is found as it is committed, and stays so while it is locked. -/
theorem wp_lockRevision {Q : Ending ControlDb ControlLock ControlError β} {mode : LockMode}
    {expectedRevision : Int} {f : Option Source → ControlTxn β} {c : ControlDb}
    (writes : mode = .noKeyUpdate ∨ mode = .update)
    (absent : ∀ held' c', (sourceWatch sourcePk).wp Q (f none) held' id c')
    (found : ∀ c' source, c'.sources.find? sourcePk = some source → source.revision = expectedRevision →
      (sourceWatch sourcePk).wp Q (f (some source)) [(.source sourcePk, mode)] id c') :
    (sourceWatch sourcePk).wp Q (lockRevision mode sourcePk expectedRevision >>= f) [] id c := by
  apply Discipline.wp_selectLocked
  · exact fun held' c' _ _ _ => absent held' c'
  · intro c₁ c₂ source _ _ _ moved looked
    obtain ⟨known, same⟩ := Option.filter_eq_some_iff.mp looked
    have view := source_view_eq moved List.mem_cons_self writes
    exact found c₂ source ((congrArg SourceView.source view).trans known) (of_decide_eq_true same)

theorem setState_moves (state : SourceState) (expectedRevision : Int) (reason actor : String)
    (requestId : Option String) (d : Drawn) (c : ControlDb) :
    (sourceWatch sourcePk).wp ((sourceWatch sourcePk).Ends
      (SourcePost sourcePk (.setState state expectedRevision reason actor requestId d)))
      (sourceProgram sourcePk (.setState state expectedRevision reason actor requestId d)) [] id c := by
  rw [sourceProgram, Discipline.wp_map]
  unfold setSourceState
  rw [Discipline.wp_ensure]
  refine ⟨fun _ => ?_, fun _ => source_refused⟩
  rw [Discipline.wp_ensure]
  refine ⟨fun _ => ?_, fun _ => source_refused⟩
  rw [Discipline.wp_view]
  intro c₁ _ _
  apply wp_lockRevision (.inl rfl)
  · exact fun held' c' => wp_raiseStaleOrMissing fun _ _ => source_refused
  intro c₂ source known seen
  rw [Discipline.wp_ensure]
  refine ⟨fun _ => ?_, fun _ => source_refused⟩
  rw [Discipline.wp_modify]
  intro c₃ _ moved₃
  rw [appendAudit]
  apply wp_appendAuditRow rfl
  · exact fun _ _ => source_refused
  intro c₄ _ moved₄
  have view := (source_view_eq moved₄ List.mem_cons_self (.inl rfl)).trans
    (source_view_eq moved₃ List.mem_cons_self (.inl rfl))
  have there : c₄.sources.find? sourcePk = some source := (congrArg SourceView.source view).trans known
  refine ends_of_move (fun _ _ _ _ _ _ => trivial) trivial (.inr ⟨_, List.mem_cons_self, .inl rfl⟩) ?_
  refine SourceMove.set source _ _ rfl there seen.symm rfl rfl rfl ⟨⟨rfl, rfl⟩, ?_, rfl, rfl⟩
    (congrArg (SourceView.mk · _ _) (find?_putSource there rfl))
  rw [seen]
  rfl

theorem addPolicy_moves (policy : PolicySnapshot) (expectedRevision : Int) (actor reason : String)
    (effectiveFrom : Option Time) (requestId : Option String) (d : Drawn) (c : ControlDb) :
    (sourceWatch sourcePk).wp ((sourceWatch sourcePk).Ends
      (SourcePost sourcePk (.addPolicy policy expectedRevision actor reason effectiveFrom requestId d)))
      (sourceProgram sourcePk (.addPolicy policy expectedRevision actor reason effectiveFrom requestId d))
      [] id c := by
  rw [sourceProgram, Discipline.wp_map]
  unfold addPolicyVersion
  rw [Discipline.wp_ensure]
  refine ⟨fun _ => ?_, fun _ => source_refused⟩
  rw [Discipline.wp_ensure]
  refine ⟨fun _ => ?_, fun _ => source_refused⟩
  apply wp_lockRevision (.inr rfl)
  · exact fun held' c' => wp_raiseStaleOrMissing fun _ _ => source_refused
  intro c₂ source known seen
  rw [Discipline.wp_view]
  intro c₃ _ moved₃
  rw [Discipline.wp_ensure]
  refine ⟨fun _ => ?_, fun _ => source_refused⟩
  apply Discipline.wp_insertUnique
  · exact fun _ _ _ _ => source_refused
  intro c₄ c₅ _ _ moved₄ moved₅ _
  rw [Discipline.wp_modify]
  intro c₆ _ moved₆
  rw [Discipline.wp_ensure]
  refine ⟨fun _ => ?_, fun _ => source_refused⟩
  rw [Discipline.wp_modify]
  intro c₇ _ moved₇
  rw [appendAudit]
  apply wp_appendAuditRow rfl
  · exact fun _ _ => source_refused
  intro c₈ _ moved₈
  have mine : (.source sourcePk, .update) ∈ [(ControlLock.source sourcePk, LockMode.update)] :=
    List.mem_cons_self
  have still (version : Int) : (.source sourcePk, .update) ∈
      (ControlLock.policyVersion sourcePk version, LockMode.update) :: [(.source sourcePk, .update)] :=
    List.mem_cons_of_mem _ mine
  have view : sourceView sourcePk c₈ = sourceView sourcePk c₂ := calc
    _ = sourceView sourcePk c₇ := source_view_eq moved₈ (still _) (.inr rfl)
    _ = sourceView sourcePk c₆ := source_view_eq moved₇ (still _) (.inr rfl)
    _ = sourceView sourcePk c₅ := source_view_eq moved₆ (still _) (.inr rfl)
    _ = sourceView sourcePk c₄ := source_view_eq moved₅ (still _) (.inr rfl)
    _ = sourceView sourcePk c₃ := source_view_eq moved₄ mine (.inr rfl)
    _ = sourceView sourcePk c₂ := source_view_eq moved₃ mine (.inr rfl)
  have there : c₈.sources.find? sourcePk = some source := (congrArg SourceView.source view).trans known
  have listed : policiesOf sourcePk c₈ = policiesOf sourcePk c₂ := congrArg SourceView.policies view
  refine ends_of_move (fun _ _ _ _ _ _ => trivial) trivial (.inr ⟨_, still _, .inr rfl⟩) ?_
  refine SourceMove.added source (source.setPolicy d.policyId actor d.now)
    (policy.row sourcePk ((lastVersion sourcePk c₂).getD 0 + 1) actor effectiveFrom d) _ rfl there seen.symm
    rfl rfl rfl ?_ ?_ (sourceView_added _ there rfl rfl)
  · exact congrArg (fun policies => ((policies.map SourcePolicyVersion.version).max?).getD 0 + 1) listed.symm
  · refine ⟨⟨rfl, rfl⟩, ?_, rfl, rfl⟩
    rw [seen]
    rfl

/-- Every transaction on the source is one move. -/
theorem source_verified (sourcePk : Uuid) :
    (sourceWatch sourcePk).Verified (sourceProgram sourcePk) (SourcePost sourcePk) := by
  intro call c _
  cases call with
  | setState state expectedRevision reason actor requestId d =>
    exact setState_moves state expectedRevision reason actor requestId d c
  | addPolicy policy expectedRevision actor reason effectiveFrom requestId d =>
    exact addPolicy_moves policy expectedRevision actor reason effectiveFrom requestId d c

end Moves

/-! ## Whole runs -/

/-- `1, …, n`. -/
def upTo (n : Nat) : List Int := (List.range n).map fun i : Nat => (i : Int) + 1

theorem upTo_succ (n : Nat) : upTo (n + 1) = upTo n ++ [(n : Int) + 1] := by
  rw [upTo, List.range_succ, List.map_append]
  rfl

theorem mem_upTo {n : Nat} {i : Int} (member : i ∈ upTo n) : i ≤ n := by
  obtain ⟨j, inside, rfl⟩ := List.mem_map.mp member
  have below := List.mem_range.mp inside
  omega

theorem max?_upTo (n : Nat) : (upTo n).max?.getD 0 = n := by
  cases n with
  | zero => rfl
  | succ n =>
    have last : (upTo (n + 1)).max? = some ((n : Int) + 1) := by
      rw [List.max?_eq_some_iff, upTo_succ]
      refine ⟨by simp, fun i member => ?_⟩
      rcases List.mem_append.mp member with earlier | last
      · have below := mem_upTo earlier
        omega
      · exact (List.mem_singleton.mp last).le
    rw [last]
    push_cast
    rfl

/-- The revisions that the calls which succeeded had seen, newest first. -/
def accepted (history : List SourceEnded) : List Int :=
  history.filterMap fun entry => entry.outcome.toOption.map fun _ => entry.call.expectedRevision

/-- The state that a trail ends in. -/
def stateAfter (first : SourceState) (trail : List AuditRow) : AuditValue :=
  (trail.reverse.findSome? fun row => row.afterState.bind (·.lookup "state")).getD (.text first.value)

/-- What holds of a source after a run that began with its registration. -/
structure SourceKept (sourceId : String) (first : SourceState) (history : List SourceEnded)
    (view : SourceView) : Prop where
  row : ∃ source, view.source = some source ∧ source.sourceId = sourceId ∧
    source.revision = 1 + (changes sourceId view.audit).length ∧
    source.currentPolicyVersionId = view.policies.getLast?.map SourcePolicyVersion.id ∧
    stateAfter first (changes sourceId view.audit) = .text source.state.value
  versions : view.policies.map SourcePolicyVersion.version = upTo view.policies.length
  revisions : ∀ (i : Nat) (row : AuditRow), (changes sourceId view.audit)[i]? = some row →
    (row.beforeState.bind (·.lookup "revision")) = some (.int (i + 1)) ∧
    (row.afterState.bind (·.lookup "revision")) = some (.int (i + 2))
  seen : accepted history = (upTo (changes sourceId view.audit).length).reverse

section Runs
variable {sourceId : String} {first : SourceState} {history : List SourceEnded}

theorem changes_append {source next : Source} {row : AuditRow} (audit : List AuditRow)
    (recorded : Recorded source next row) (named : source.sourceId = sourceId) :
    changes sourceId (audit ++ [row]) = changes sourceId audit ++ [row] := by
  simp [changes, recorded.about, named]

theorem stateAfter_append {source next : Source} {row : AuditRow} {trail : List AuditRow}
    (recorded : Recorded source next row) (before : stateAfter first trail = .text source.state.value) :
    stateAfter first (trail ++ [row]) = .text next.state.value := by
  have said := recorded.state
  rw [stateAfter, List.reverse_append, List.reverse_singleton, List.singleton_append, List.findSome?_cons]
  cases told : row.afterState.bind (·.lookup "state") with
  | some value => rw [told] at said; exact said
  | none =>
    rw [told] at said
    exact before.trans said

/-- The part of the invariant that both kinds of changes have in common. -/
theorem SourceKept.changed {entry : SourceEnded} {answer : SourceAnswer} {source next : Source}
    {row : AuditRow} {before after : SourceView} (kept : SourceKept sourceId first history before)
    (succeeded : entry.outcome = .ok answer) (found : before.source = some source)
    (expected : entry.call.expectedRevision = source.revision) (grown : next.revision = source.revision + 1)
    (named : next.sourceId = source.sourceId) (recorded : Recorded source next row)
    (left : after.source = some next) (logged : after.audit = before.audit ++ [row])
    (current : next.currentPolicyVersionId = after.policies.getLast?.map SourcePolicyVersion.id)
    (versions : after.policies.map SourcePolicyVersion.version = upTo after.policies.length) :
    SourceKept sourceId first (entry :: history) after := by
  obtain ⟨known, present, name, revision, -, state⟩ := kept.row
  obtain rfl : known = source := Option.some.inj (present.symm.trans found)
  have trail := changes_append before.audit recorded name
  rw [← logged] at trail
  have length : (changes sourceId after.audit).length = (changes sourceId before.audit).length + 1 := by
    rw [trail, List.length_append]
    rfl
  refine ⟨⟨next, left, named.trans name, ?_, current, ?_⟩, versions, ?_, ?_⟩
  · rw [grown, revision, length]
    push_cast
    omega
  · rw [trail]
    exact stateAfter_append recorded state
  · intro i other at_place
    rw [trail, List.getElem?_append] at at_place
    split_ifs at at_place with inside
    · exact kept.revisions i other at_place
    · rw [List.getElem?_singleton] at at_place
      split_ifs at at_place with last
      cases at_place
      have place : (i : Int) = (changes sourceId before.audit).length := by omega
      rw [recorded.found, recorded.left, revision, place]
      refine ⟨by rw [add_comm], ?_⟩
      congr 2
      omega
  · rw [length, upTo_succ, List.reverse_append, ← kept.seen, accepted, List.filterMap_cons, succeeded]
    simp only [Except.toOption, Option.map_some, expected, revision]
    rw [add_comm (1 : Int)]
    rfl

theorem SourceKept.next {sourcePk : Uuid} {entry : SourceEnded} {before after : SourceView}
    (kept : SourceKept sourceId first history before)
    (move : SourceMove sourcePk entry.call entry.outcome before after) :
    SourceKept sourceId first (entry :: history) after := by
  cases move with
  | raised e failed same =>
    rw [same]
    refine ⟨kept.row, kept.versions, kept.revisions, ?_⟩
    rw [← kept.seen, accepted, List.filterMap_cons, failed]
    rfl
  | set source next row succeeded found expected grown named policy recorded left =>
    refine kept.changed succeeded found expected grown named recorded (by rw [left]) (by rw [left]) ?_ ?_
    · obtain ⟨known, present, -, -, current, -⟩ := kept.row
      obtain rfl : known = source := Option.some.inj (present.symm.trans found)
      rw [policy, current, left]
    · rw [left]
      exact kept.versions
  | added source next policy row succeeded found expected grown named current version recorded left =>
    refine kept.changed succeeded found expected grown named recorded (by rw [left]) (by rw [left]) ?_ ?_
    · rw [current, left, List.getLast?_append]
      rfl
    · rw [left, List.map_append, List.length_append, kept.versions, List.length_singleton, upTo_succ,
        List.map_singleton, version, kept.versions, max?_upTo]

/-- The source as `create_source` leaves it. -/
structure Registered (sourcePk : Uuid) (sourceId : String) (state : SourceState) (db : ControlDb) : Prop where
  row : ∃ source, db.sources.find? sourcePk = some source ∧ source.sourceId = sourceId ∧
    source.revision = 1 ∧ source.currentPolicyVersionId = none ∧ source.state = state
  unused : policiesOf sourcePk db = []
  untouched : changes sourceId db.audit = []

theorem registered_createSource {domain country : String} {d : Drawn} {state : SourceState}
    {actor : Option String} {db after : ControlDb} {source : Source}
    (created : (createSource sourceId domain country d state actor).alone id db = (.ok source, after))
    (fresh : d.sourceId ∉ db.sources.keys) (unused : policiesOf d.sourceId db = [])
    (untouched : changes sourceId db.audit = []) : Registered d.sourceId sourceId state after := by
  have inserted : after = addSource source db ∧ source.id = d.sourceId ∧ source.sourceId = sourceId ∧
      source.revision = 1 ∧ source.currentPolicyVersionId = none ∧ source.state = state := by
    unfold createSource at created
    change (Txn.alone (if _ then _ else _) id db) = _ at created
    split_ifs at created
    · cases created
    rw [Txn.alone_ensure] at created
    split_ifs at created
    · change (Txn.alone (Txn.ensure _ _ >>= _) id db) = _ at created
      rw [Txn.alone_ensure] at created
      split_ifs at created
      · cases created
        exact ⟨rfl, rfl, rfl, rfl, rfl, rfl⟩
      · cases created
    · cases created
  obtain ⟨rfl, key, named, one, unset, same⟩ := inserted
  refine ⟨⟨source, ?_, named, one, unset, same⟩, unused, untouched⟩
  have found := db.sources.find?_insert source (by rwa [key]) d.sourceId
  rwa [if_pos key] at found

/-- In every interleaving of transactions on a source, from its registration on, the revision counts the
rows of its trail; these and the calls that succeeded go through the revisions one by one; the versions of
the policy are numbered without a gap, and the last one is current. -/
theorem source_revisions {sourcePk : Uuid} {start : ControlDb}
    (registered : Registered sourcePk sourceId first start) {history : List SourceEnded}
    {s : System ControlDb ControlLock ControlError SourceAnswer SourceCall}
    (run : System.Run (sourceProgram sourcePk) start history s) :
    SourceKept sourceId first history (sourceView sourcePk s.committed) := by
  apply watched_serial (source_verified sourcePk) trivial (Q := SourceKept sourceId first) _ _ run
  · obtain ⟨source, found, named, one, unset, state⟩ := registered.row
    have unused : (sourceView sourcePk start).policies = [] := registered.unused
    have untouched : changes sourceId (sourceView sourcePk start).audit = [] := registered.untouched
    refine ⟨⟨source, found, named, ?_, ?_, ?_⟩, ?_, ?_, ?_⟩
    · rw [one, untouched]
      rfl
    · rw [unset, unused]
      rfl
    · rw [untouched, state]
      rfl
    · rw [unused]
      rfl
    · intro i row at_place
      rw [untouched] at at_place
      cases at_place
    · rw [untouched]
      rfl
  · intro history entry kept _ _ move
    exact kept.next move

end Runs

namespace Sample

/-- A source as it is registered, with an empty log. -/
def registered : ControlDb where
  sources := (∅ : Table Source.id).insert
    ⟨7, "ua.example", "catalog", "UA", .paused, none, none, 1, none, 0, 0⟩
  policies := []
  audit := []

def drawn (id : Uuid) (now : Time) : Drawn := ⟨0, id, id + 1, now⟩

/-- The third call comes with a revision that the second one has left behind. -/
def calls : List SourceCall :=
  [.setState .enabled 1 "launch" "operator" none (drawn 10 1),
    .addPolicy ⟨2, 4, 3600, "respect", "aa", 1, false, none⟩ 2 "operator" "limits" none none (drawn 20 2),
    .setState .disabled 2 "late" "operator" none (drawn 30 3),
    .addPolicy ⟨1, 4, 3600, "respect", "bb", 1, false, none⟩ 3 "operator" "slower" none none (drawn 40 4)]

def run : List SourceEnded × ControlDb := System.serially (sourceProgram 7) registered calls

end Sample

/-- Three of the four calls succeed, and the second policy version is current. -/
theorem source_revisions_sample :
    SourceKept "ua.example" .paused Sample.run.1 (sourceView 7 Sample.run.2) ∧
      (Sample.run.2.sources.find? 7).map (fun source => (source.revision, source.currentPolicyVersionId)) =
        some (4, some 40) ∧ accepted Sample.run.1 = [3, 2, 1] := by
  refine ⟨?_, by decide +kernel, by decide +kernel⟩
  exact source_revisions (s := System.idle Sample.run.2)
    ⟨⟨_, rfl, rfl, rfl, rfl, rfl⟩, rfl, rfl⟩ (System.run_serially (sourceProgram 7) Sample.registered _)

end Collector.Persistence.Sources
