import Collector.Lib.GrantedRuns
import Collector.Lib.Schedule
import Collector.Lib.WatchedRow
import Collector.Persistence.Cursors

/-!
The audit chain of one cursor. The value before is read before the row is locked, so a change that
another transaction commits in between is missing from the chain. When every upsert that goes on to
change the row still finds the value that it read first, the chain has no gap.
-/

namespace Collector.Persistence.Cursors
open Collector.Lib Collector.Persistence

/-! ## The moves of the row -/

structure CursorView where
  cursor : Option SourceCursor
  audit : List AuditRow

def cursorView (place : CursorPlace) (db : CursorDb) : CursorView := ⟨db.cursors.find? place, db.audit⟩

inductive CursorMove (place : CursorPlace) (u : CursorUpsert) (outcome : Except CursorError SourceCursor)
    (before after : CursorView) : Prop
  | raised (e : CursorError) : outcome = .error e → after = before → CursorMove place u outcome before after
  | repeated (cursor : SourceCursor) : outcome = .ok cursor → before.cursor = some cursor →
      u.repeats cursor = true → after = before → CursorMove place u outcome before after
  | inserted : outcome = .ok (u.row place) → before.cursor = none →
      after = ⟨some (u.row place), before.audit ++ [u.audit none (u.row place)]⟩ →
      CursorMove place u outcome before after
  | updated (cursor : SourceCursor) : outcome = .ok (u.onto cursor) → before.cursor = some cursor →
      u.repeats cursor = false →
      after = ⟨some (u.onto cursor), before.audit ++ [u.audit (some cursor.cursorValue) (u.onto cursor)]⟩ →
      CursorMove place u outcome before after

/-- The value that the transaction read is the one in the row, or it will not change the row. -/
def ReadCurrent (place : CursorPlace) (u : CursorUpsert) (beforeValue : Option String) (db : CursorDb) : Prop :=
  beforeValue = (db.cursors.find? place).map SourceCursor.cursorValue ∨
    ∃ cursor, db.cursors.find? place = some cursor ∧ u.repeats cursor = true

/-- Once it has the row, what is left of the transaction goes on from a value that is current. -/
def FindsCurrent (place : CursorPlace) (u : CursorUpsert) (rest : CursorTxn SourceCursor) (db : CursorDb) : Prop :=
  ∃ beforeValue, rest = upsertStatement place u beforeValue ∧ ReadCurrent place u beforeValue db

section Moves
variable {place : CursorPlace}

abbrev cursorWatch (place : CursorPlace) : Discipline CursorDb CursorPlace :=
  watching (cursorView place) place fun _ => True

abbrev CursorPost (place : CursorPlace) :
    CursorUpsert → Except CursorError SourceCursor → CursorDb → CursorDb → Prop :=
  Moved (cursorView place) (fun _ => True) (CursorMove place)

theorem cursor_refused {u : CursorUpsert} {e : CursorError} {c : CursorDb} :
    CursorPost place u (.error e) c c := ⟨trivial, .raised e rfl rfl⟩

theorem cursor_ends {u : CursorUpsert} {a : SourceCursor} {held : List (CursorPlace × LockMode)}
    {pending : CursorDb → CursorDb} {c : CursorDb} (locked : (place, .update) ∈ held)
    (move : CursorMove place u (.ok a) (cursorView place c) (cursorView place (pending c))) :
    (cursorWatch place).Ends (CursorPost place u) (.ok a) held pending c :=
  ends_of_move (fun _ _ _ _ _ _ => trivial) trivial (.inr ⟨_, locked, .inr rfl⟩) move

theorem cursor_view_eq {a b : CursorDb} {held : List (CursorPlace × LockMode)}
    (moved : (cursorWatch place).rely held a b) (locked : (place, .update) ∈ held) :
    cursorView place b = cursorView place a := moved (.of_writer locked (.inr rfl))

theorem appendCursorAudit_lockFree (row : AuditRow) : (appendCursorAudit row).LockFree := by
  apply Txn.lockFree_view
  intro c
  split
  · trivial
  · exact .bind Txn.lockFree_ensure fun _ => trivial

theorem upsertStatement_lockFree (u : CursorUpsert) (beforeValue : Option String) :
    (upsertStatement place u beforeValue).LockFree := by
  apply Txn.lockFree_view
  intro c
  split
  · apply Txn.lockFree_modify
    exact .bind (appendCursorAudit_lockFree _) fun _ => trivial
  · split
    · apply Txn.lockFree_view
      intro c'
      split <;> trivial
    · refine .bind Txn.lockFree_ensure fun _ => ?_
      apply Txn.lockFree_modify
      exact .bind (appendCursorAudit_lockFree _) fun _ => trivial

theorem find?_inserted {db : CursorDb} {u : CursorUpsert} (absent : db.cursors.find? place = none) :
    (db.cursors.insert (u.row place)).find? place = some (u.row place) := by
  have fresh : (u.row place).toCursorPlace ∉ db.cursors.keys := (Table.find?_eq_none _ _).mp absent
  have found := db.cursors.find?_insert (u.row place) fresh place
  rwa [if_pos (show (u.row place).toCursorPlace = place from rfl)] at found

theorem find?_updated {db : CursorDb} {u : CursorUpsert} {cursor : SourceCursor}
    (known : db.cursors.find? place = some cursor) :
    (db.cursors.put (u.onto cursor)).find? place = some (u.onto cursor) := by
  obtain ⟨_, key⟩ := (Table.find?_eq_some _ _ _).mp known
  have named : (u.onto cursor).toCursorPlace = place := key
  have found := db.cursors.find?_put (u.onto cursor) (named ▸ known) place
  rwa [if_pos named.symm] at found

/-- With the row locked and the value current, the statement makes one move. -/
theorem upsertStatement_moves (u : CursorUpsert) (beforeValue : Option String)
    {held : List (CursorPlace × LockMode)} {c : CursorDb} (locked : (place, .update) ∈ held)
    (current : ReadCurrent place u beforeValue c) :
    (cursorWatch place).wp ((cursorWatch place).Ends (CursorPost place u))
      (upsertStatement place u beforeValue) held id c := by
  have still {a b : CursorDb} (moved : (cursorWatch place).rely held a b) :
      b.cursors.find? place = a.cursors.find? place :=
    congrArg CursorView.cursor (cursor_view_eq moved locked)
  unfold upsertStatement
  rw [Discipline.wp_view]
  intro c₁ _ moved₁
  cases found : c.cursors.find? place with
  | none =>
    have value : beforeValue = none := by
      rcases current with value | ⟨cursor, known, _⟩
      · rw [value, found]
        rfl
      · rw [found] at known
        cases known
    subst value
    simp only [id, found]
    rw [Discipline.wp_modify]
    intro c₂ _ moved₂
    apply wp_appendAuditRow rfl
    · intro c' _
      exact cursor_refused
    · intro c₃ _ moved₃
      have absent : c₃.cursors.find? place = none := by
        rw [still moved₃, still moved₂, still moved₁, found]
      apply cursor_ends locked
      apply CursorMove.inserted rfl absent
      exact congrArg (CursorView.mk · (c₃.audit ++ _)) (find?_inserted absent)
  | some cursor =>
    simp only [id, found]
    split
    · rename_i repeats
      rw [Discipline.wp_view]
      intro c₂ _ moved₂
      have known : c₂.cursors.find? place = some cursor := by
        rw [still moved₂, still moved₁, found]
      have seen : c₁.cursors.find? place = some cursor := by
        rw [still moved₁, found]
      simp only [id, seen]
      apply cursor_ends locked
      exact CursorMove.repeated cursor rfl known repeats rfl
    · rename_i changes
      rw [Bool.not_eq_true] at changes
      have value : beforeValue = some cursor.cursorValue := by
        rcases current with value | ⟨other, known, repeats⟩
        · rw [value, found]
          rfl
        · rw [found, Option.some.injEq] at known
          rw [known, repeats] at changes
          cases changes
      subst value
      rw [Discipline.wp_ensure]
      refine ⟨fun _ => ?_, fun _ => cursor_refused⟩
      rw [Discipline.wp_modify]
      intro c₂ _ moved₂
      apply wp_appendAuditRow rfl
      · intro c' _
        exact cursor_refused
      · intro c₃ _ moved₃
        have known : c₃.cursors.find? place = some cursor := by
          rw [still moved₃, still moved₂, still moved₁, found]
        apply cursor_ends locked
        apply CursorMove.updated cursor rfl known changes
        exact congrArg (CursorView.mk · (c₃.audit ++ _)) (find?_updated known)

open Classical in
/-- An upsert that gives up unless it finds its value current makes one move. -/
theorem checked_upsert_moves (u : CursorUpsert) (c : CursorDb) :
    (cursorWatch place).wp ((cursorWatch place).Ends (CursorPost place u))
      ((upsertCursor place u).checked (FindsCurrent place u) (.cursorNotFound place)) [] id c := by
  unfold upsertCursor
  rw [Txn.checked_ensure, Discipline.wp_ensure]
  refine ⟨fun _ => ?_, fun _ => cursor_refused⟩
  rw [Txn.checked_ensure, Discipline.wp_ensure]
  refine ⟨fun _ => ?_, fun _ => cursor_refused⟩
  rw [Txn.checked_view, Discipline.wp_view]
  intro c₁ _ _
  rw [Txn.checked_ensure, Discipline.wp_ensure]
  refine ⟨fun _ => ?_, fun _ => cursor_refused⟩
  rw [Txn.checked_locked, Discipline.wp_locked]
  intro c₂ _ _
  rw [Discipline.wp_view]
  intro c₃ _ moved₃
  split
  · rename_i current
    obtain ⟨beforeValue, same, current⟩ := current
    rw [same, Txn.checked_of_lockFree (upsertStatement_lockFree u beforeValue)]
    apply upsertStatement_moves u beforeValue List.mem_cons_self
    have view := congrArg CursorView.cursor (cursor_view_eq moved₃ List.mem_cons_self)
    unfold ReadCurrent
    rw [show c₃.cursors.find? place = c₂.cursors.find? place from view]
    exact current
  · exact cursor_refused

end Moves

/-! ## The chain -/

def recordedBefore (row : AuditRow) : Option AuditValue := row.beforeState.bind (·.lookup "cursor_value")

def recordedAfter (row : AuditRow) : Option AuditValue := row.afterState.bind (·.lookup "cursor_value")

def recordedRevision (row : AuditRow) : Option AuditValue := row.afterState.bind (·.lookup "revision")

/-- Audit rows, oldest first, that lead from the value at revision `n` to `last`: the revisions go up
by one and each row starts from the value that the one before it left. -/
def ChainFrom (value : AuditValue) (n : Nat) : List AuditRow → AuditValue → Prop
  | [], last => value = last
  | row :: rows, last => recordedRevision row = some (.int (n + 1 : Nat)) ∧ recordedBefore row = some value ∧
      ∃ next, recordedAfter row = some next ∧ ChainFrom next (n + 1) rows last

theorem chainFrom_append {value mid last : AuditValue} {n : Nat} {rows : List AuditRow} {row : AuditRow}
    (chain : ChainFrom value n rows mid)
    (revision : recordedRevision row = some (.int (n + rows.length + 1 : Nat)))
    (before : recordedBefore row = some mid) (after : recordedAfter row = some last) :
    ChainFrom value n (rows ++ [row]) last := by
  induction rows generalizing value n with
  | nil => exact ⟨revision, (show value = mid from chain) ▸ before, last, after, rfl⟩
  | cons first rows ih =>
    obtain ⟨number, start, next, left, rest⟩ := chain
    refine ⟨number, start, next, left, ih rest ?_⟩
    rw [revision, List.length_cons]
    congr 3
    omega

/-- The stored value of the cursor, `null` when there is none. -/
def storedValue (cursor : Option SourceCursor) : AuditValue :=
  (cursor.map fun cursor => AuditValue.text cursor.cursorValue).getD .null

/-- The rows that were written since `start` are a chain from nothing to the stored value, and a call
that changed nothing wrote none. -/
structure Chained (place : CursorPlace) (start : List AuditRow) (history : List CursorEnded)
    (view : CursorView) : Prop where
  chain : ∃ rows, view.audit = start ++ rows ∧ ChainFrom .null 0 rows (storedValue view.cursor) ∧
    ((view.cursor.map SourceCursor.revision).getD 0 = rows.length)
  quiet : ∀ entry ∈ history, entry.after.cursors.find? place = entry.before.cursors.find? place →
    entry.after.audit = entry.before.audit

section Runs
variable {place : CursorPlace}

theorem Chained.next {start : List AuditRow} {history : List CursorEnded} {entry : CursorEnded}
    (chained : Chained place start history (cursorView place entry.before))
    (move : CursorMove place entry.call entry.outcome (cursorView place entry.before)
      (cursorView place entry.after)) :
    Chained place start (entry :: history) (cursorView place entry.after) := by
  obtain ⟨rows, wrote, chain, revision⟩ := chained.chain
  constructor
  · cases move with
    | raised e _ same =>
      rw [same]
      exact ⟨rows, wrote, chain, revision⟩
    | repeated cursor _ _ _ same =>
      rw [same]
      exact ⟨rows, wrote, chain, revision⟩
    | inserted _ absent left =>
      rw [left]
      rw [absent] at chain revision
      refine ⟨rows ++ [_], by rw [wrote, List.append_assoc], chainFrom_append chain ?_ rfl rfl, ?_⟩
      · have none : rows.length = 0 := by
          simpa using revision.symm
        rw [none]
        rfl
      · simp [← revision, CursorUpsert.row]
    | updated cursor _ known _ left =>
      rw [left]
      rw [known] at chain revision
      have number : cursor.revision = rows.length := revision
      refine ⟨rows ++ [_], by rw [wrote, List.append_assoc], chainFrom_append chain ?_ rfl rfl, ?_⟩
      · show some (AuditValue.int (cursor.revision + 1)) = _
        rw [number]
        congr 2
        push_cast
        omega
      · show cursor.revision + 1 = _
        rw [number, List.length_append]
        rfl
  · intro other member same
    rcases List.mem_cons.mp member with rfl | member
    · cases move with
      | raised e _ left => exact congrArg CursorView.audit left
      | repeated cursor _ _ _ left => exact congrArg CursorView.audit left
      | inserted _ absent left =>
        have now : (cursorView place other.before).cursor = _ :=
          same.symm.trans (congrArg CursorView.cursor left)
        rw [absent] at now
        cases now
      | updated cursor _ known _ left =>
        have now : (cursorView place other.before).cursor = _ :=
          same.symm.trans (congrArg CursorView.cursor left)
        rw [known, Option.some.injEq] at now
        have revision := congrArg SourceCursor.revision now
        have more : cursor.revision = cursor.revision + 1 := revision
        omega
    · exact chained.quiet other member same

/-- In every run from a database without the cursor, if whatever goes on to change the row still finds
the value that it read first, the audit rows of the cursor are a gap-free chain. -/
theorem cursor_chain_of_current {start : CursorDb} (absent : start.cursors.find? place = none)
    {history : List CursorEnded} {s : CursorSystem}
    (run : System.RunWhere (upsertCursor place) (FindsCurrent place) start history s) :
    Chained place start.audit history (cursorView place s.committed) := by
  have verified : (cursorWatch place).Verified
      (fun u => (upsertCursor place u).checked (FindsCurrent place u) (.cursorNotFound place))
      (CursorPost place) := fun u c _ => checked_upsert_moves u c
  apply watched_serial verified trivial (Q := Chained place start.audit) _ _ (run.checked (.cursorNotFound place))
  · refine ⟨⟨[], (List.append_nil _).symm, ?_, ?_⟩, fun _ member => absurd member List.not_mem_nil⟩
    · rw [show (cursorView place start).cursor = none from absent]
      rfl
    · rw [show (cursorView place start).cursor = none from absent]
      rfl
  · intro history entry chained _ _ move
    exact chained.next move

/-- Alone in the system, an upsert finds its value current. -/
theorem alone_finds_current (u : CursorUpsert) (c : CursorDb) :
    System.AloneMeets (FindsCurrent place u) (upsertCursor place u) id c := by
  apply System.aloneMeets_ensure
  apply System.aloneMeets_ensure
  show System.AloneMeets _ (Txn.ensure _ _ >>= fun _ => _) id c
  apply System.aloneMeets_ensure
  refine ⟨⟨_, rfl, .inl rfl⟩, ?_⟩
  exact System.aloneMeets_of_lockFree (upsertStatement_lockFree _ _) _ _

end Runs

namespace Sample

def place : CursorPlace := ⟨1, "list", "page"⟩

def db : CursorDb := ⟨∅, []⟩

def upsert (value : String) (id : Uuid) : CursorUpsert := ⟨value, "op", "tick", none, none, none, id, id, 0⟩

def program : CursorUpsert → CursorTxn SourceCursor := upsertCursor place

def first : Except CursorError SourceCursor × CursorDb := (program (upsert "a" 7)).alone id db

def second : Except CursorError SourceCursor × CursorDb := (program (upsert "b" 8)).alone id first.2

/-- The second transaction reads the value before right after the first one did. -/
def turns : List (Turn CursorUpsert) :=
  [.start 0 (upsert "a" 7), .move 0, .start 1 (upsert "b" 8), .move 1] ++ List.replicate 6 (.move 0) ++
    List.replicate 6 (.move 1)

def race : Option (List CursorEnded × Bench CursorDb CursorPlace CursorError SourceCursor CursorUpsert) :=
  Bench.play program turns [] (.idle 2 db)

end Sample

/-- Two upserts one after the other: two rows, the second of which starts where the first one ended. -/
theorem cursor_chain_of_serial_upserts :
    Chained Sample.place [] [⟨Sample.upsert "b" 8, Sample.second.1, Sample.first.2, Sample.second.2⟩,
      ⟨Sample.upsert "a" 7, Sample.first.1, Sample.db, Sample.first.2⟩]
        (cursorView Sample.place Sample.second.2) ∧ Sample.second.2.audit.length = 2 := by
  refine ⟨?_, by decide +kernel⟩
  have one : System.RunWhere Sample.program (FindsCurrent Sample.place) Sample.db _ _ :=
    System.RunWhere.nil.one (Sample.upsert "a" 7) (alone_finds_current _ _)
  have two := one.one (Sample.upsert "b" 8) (alone_finds_current _ _)
  have absent : Sample.db.cursors.find? Sample.place = none := rfl
  exact cursor_chain_of_current absent two

/-- Two first upserts at once: the second one records that there was nothing before it. -/
theorem racing_upserts_break_chain : ∃ history, ∃ s : CursorSystem,
    System.Run (upsertCursor Sample.place) Sample.db history s ∧
      ¬ Chained Sample.place [] history (cursorView Sample.place s.committed) := by
  have recorded : Sample.race.map (fun r => r.2.committed.audit.map recordedBefore) =
      some [some .null, some .null] := by decide +kernel
  have values : Sample.race.map (fun r => r.2.committed.audit.map recordedAfter) =
      some [some (.text "a"), some (.text "b")] := by decide +kernel
  cases played : Sample.race with
  | none =>
    rw [played] at recorded
    cases recorded
  | some r =>
    obtain ⟨history, bench⟩ := r
    rw [played, Option.map_some, Option.some.injEq] at recorded values
    refine ⟨history, bench.system, Bench.run_play ?_ played, ?_⟩
    · rw [Bench.system_idle]
      exact .nil
    · intro chained
      obtain ⟨rows, wrote, chain, _⟩ := chained.chain
      change bench.committed.audit = [] ++ rows at wrote
      rw [wrote, List.nil_append] at recorded values
      have two : rows.length = 2 := by
        simpa using congrArg List.length recorded
      obtain ⟨first, second, rfl⟩ := List.length_eq_two.mp two
      obtain ⟨_, _, next, left, _, before, _⟩ := chain
      simp only [List.map_cons, List.map_nil, List.cons.injEq] at recorded values
      rw [values.1, Option.some.injEq] at left
      rw [recorded.2.1, ← left] at before
      cases before

end Collector.Persistence.Cursors
