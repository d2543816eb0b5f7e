import Mathlib.Data.List.Nodup
import Mathlib.Data.List.TakeWhile
import Collector.Persistence.Mongo.Migrations

/-!
Attempts to upgrade, one after the other. Any of them may be given up at any command, fail, stop at its
target or come from an older release, and others write to the collections meanwhile. What is recorded is
always the first migrations of the release, in their order, and they are all in force.
-/

namespace Collector.Persistence.Mongo.Migrations
open Collector.Lib

/-- What the writers of a release promise. `Within k` says what the first `k` migrations have done, and
allows that the next one has been begun; each migration takes it one further, however often it is begun. -/
structure Contract (releases : List MongoMigration) (outside : Database → Database → Prop)
    (Within : Nat → Database → Prop) : Prop where
  distinct : (releases.map MongoMigration.version).Nodup
  refl : ∀ db, outside db db
  trans : ∀ db now later, outside db now → outside now later → outside db later
  stable : ∀ k db now, outside db now → Within k db → Within k now
  upgrades : ∀ k migration run, releases[k]? = some migration → migration.upgrade = some run →
    ∀ db, Within k db → run.Safe outside (Within k) (fun r db => r = .ok () → Within (k + 1) db) db

/-- The first `k` migrations are recorded and in force. -/
structure Recorded (releases : List MongoMigration) (Within : Nat → Database → Prop) (k : Nat)
    (state : MongoState) : Prop where
  applied : state.applied = (releases.take k).map MongoMigration.record
  within : Within k state.collections

variable {releases : List MongoMigration} {outside : Database → Database → Prop}
  {Within : Nat → Database → Prop} {k n : Nat} {state : MongoState} {target : Option String}

/-- Others write to the collections and leave `schema_migrations` alone. -/
def Beside (outside : Database → Database → Prop) (state now : MongoState) : Prop :=
  now.applied = state.applied ∧ outside state.collections now.collections

def AtSomeStage (releases : List MongoMigration) (Within : Nat → Database → Prop) (state : MongoState) :
    Prop := ∃ k ≤ releases.length, Recorded releases Within k state

/-- The migrations of the first `n` that an attempt has to see applied. -/
def wanted (releases : List MongoMigration) (n : Nat) (target : Option String) : List MongoMigration :=
  (releases.take n).takeWhile fun migration => !target.any (· < migration.version)

/-- An attempt that returns: all that it had to apply is recorded, and it tells what it added. -/
def Returned (releases : List MongoMigration) (Within : Nat → Database → Prop) (n : Nat)
    (target : Option String) (names : List String) (state : MongoState) : Prop :=
  ∃ k ≤ releases.length, Recorded releases Within k state ∧
    (wanted releases n target).length ≤ k ∧
    ∃ first ≤ k, names = ((releases.take k).drop first).map MongoMigration.fullName

theorem Recorded.versions (recorded : Recorded releases Within k state) :
    state.applied.map AppliedMigration.version = (releases.take k).map MongoMigration.version := by
  rw [recorded.applied, List.map_map]
  rfl

theorem Recorded.moved (contract : Contract releases outside Within)
    (recorded : Recorded releases Within k state) {now : MongoState} (moved : Beside outside state now) :
    Recorded releases Within k now :=
  ⟨moved.1.trans recorded.applied, contract.stable _ _ _ moved.2 recorded.within⟩

section Drift

theorem mem_versions_take (distinct : (releases.map MongoMigration.version).Nodup) {i : Nat}
    (below : i < releases.length) :
    releases[i].version ∈ (releases.take k).map MongoMigration.version ↔ i < k := by
  constructor
  · intro member
    obtain ⟨other, inside, same⟩ := List.mem_map.mp member
    obtain ⟨j, bound, rfl⟩ := List.mem_take_iff_getElem.mp inside
    have same_migration :=
      List.inj_on_of_nodup_map distinct (List.getElem_mem _) (List.getElem_mem below) same
    have same_place : j = i := (distinct.of_map _).getElem_inj_iff.mp same_migration
    omega
  · intro inside
    exact List.mem_map.mpr ⟨releases[i], List.mem_take_iff_getElem.mpr ⟨i, by omega, rfl⟩, rfl⟩

/-- A recorded migration shows no drift exactly if the release still has it. -/
theorem driftOf_record (distinct : (releases.map MongoMigration.version).Nodup)
    {migration : MongoMigration} (member : migration ∈ releases) :
    driftOf (releases.take n) migration.record = none ↔ migration ∈ releases.take n := by
  unfold driftOf
  cases found : (releases.take n).reverse.find? fun other => other.version = migration.record.version with
  | none =>
    refine iff_of_false (by simp) fun inside => ?_
    have missed := List.find?_eq_none.mp found migration (List.mem_reverse.mpr inside)
    simp [MongoMigration.record] at missed
  | some other =>
    have inside : other ∈ releases.take n := List.mem_reverse.mp (List.mem_of_find?_eq_some found)
    have hit := List.find?_some found
    have same : other.version = migration.version := of_decide_eq_true hit
    obtain rfl : other = migration :=
      List.inj_on_of_nodup_map distinct (List.mem_of_mem_take inside) member same
    simpa [MongoMigration.record] using inside

/-- The check passes exactly if the release is as new as the database. -/
theorem checkDrift_eq_nil (distinct : (releases.map MongoMigration.version).Nodup)
    (known : k ≤ releases.length) (bound : n ≤ releases.length) :
    checkDrift ((releases.take k).map MongoMigration.record) (releases.take n) = [] ↔ k ≤ n := by
  rw [checkDrift, List.filterMap_eq_nil_iff]
  constructor
  · intro none_drifts
    by_contra older
    have below : n < releases.length := by omega
    have recorded : releases[n] ∈ releases.take k := List.mem_take_iff_getElem.mpr ⟨n, by omega, rfl⟩
    have kept := none_drifts releases[n].record
      ((List.mem_insertionSort _).mpr (List.mem_map_of_mem recorded))
    have inside := (driftOf_record distinct (List.getElem_mem below)).mp kept
    have before := (mem_versions_take (k := n) distinct below).mp (List.mem_map_of_mem inside)
    omega
  · intro newer doc member
    obtain ⟨migration, inside, rfl⟩ := List.mem_map.mp ((List.mem_insertionSort _).mp member)
    have more : migration ∈ releases.take n := (List.take_subset_take_left releases newer) inside
    exact (driftOf_record distinct (List.mem_of_mem_take inside)).mpr more

end Drift

section Attempt

variable {done names : List String}

theorem insertRecord_ok {migration : MongoMigration} {after : MongoState}
    (inserted : insertRecord migration state = .ok after) :
    after = { state with applied := state.applied ++ [migration.record] } := by
  unfold insertRecord at inserted
  split_ifs at inserted
  exact (Except.ok.inj inserted).symm

theorem length_wanted_le (i : Nat) (stopped : ∀ migration, (releases.take n)[i]? = some migration →
    target.any (· < migration.version) = true) : (wanted releases n target).length ≤ i := by
  by_contra longer
  have inside : i < (wanted releases n target).length := by omega
  have member : (wanted releases n target)[i] ∈ wanted releases n target := List.getElem_mem inside
  have goes_on := List.mem_takeWhile_imp member
  have at_place : (releases.take n)[i]? = some (wanted releases n target)[i] := by
    obtain ⟨more, whole⟩ : wanted releases n target <+: releases.take n := List.takeWhile_prefix _
    rw [← whole, List.getElem?_append_left inside, List.getElem?_eq_getElem inside]
  rw [stopped _ at_place] at goes_on
  cases goes_on

/-- The induction is on what is left of the release; an attempt that begins with `first` migrations
applied is at `i`. -/
theorem safe_applyEach (contract : Contract releases outside Within) (bound : n ≤ releases.length)
    {first : Nat} (newer : first ≤ n) {rest : List MongoMigration} {i : Nat} (here : i ≤ n)
    (split : rest = (releases.take n).drop i) (recorded : Recorded releases Within (max first i) state) :
    (applyEach target ((releases.take first).map MongoMigration.version) rest
      (((releases.take (max first i)).drop first).map MongoMigration.fullName)).Safe (Beside outside)
      (AtSomeStage releases Within)
      (fun r state => ∀ names, r = .ok names → Returned releases Within n target names state) state := by
  induction rest generalizing i state with
  | nil =>
    rw [applyEach]
    rintro names ⟨⟩
    refine ⟨max first i, by omega, recorded, ?_, first, by omega, rfl⟩
    have all := @length_wanted_le releases n target i (fun migration at_place => by
      have beyond := congrArg List.length split
      simp at beyond
      rw [List.getElem?_eq_none (by simp; omega)] at at_place
      cases at_place)
    omega
  | cons migration rest ih =>
    have below : i < (releases.take n).length := by
      by_contra beyond
      rw [List.drop_eq_nil_of_le (by omega)] at split
      cases split
    have at_place : (releases.take n)[i] = migration ∧ rest = (releases.take n).drop (i + 1) := by
      rw [List.drop_eq_getElem_cons below] at split
      exact ⟨(List.cons.inj split).1.symm, (List.cons.inj split).2⟩
    have known : i < releases.length := by simp at below; omega
    have same : releases[i] = migration := by rw [← at_place.1, List.getElem_take]
    rw [applyEach]
    split_ifs with stop applied
    · rintro names ⟨⟩
      refine ⟨max first i, by omega, recorded, ?_, first, by omega, rfl⟩
      have all := @length_wanted_le releases n target i (fun other found => by
        rw [List.getElem?_eq_getElem below, at_place.1] at found
        cases found
        exact stop)
      omega
    · have earlier : i < first := (mem_versions_take contract.distinct known).mp (by rw [same]; exact applied)
      have reached : max first (i + 1) = max first i := by omega
      rw [← reached] at recorded ⊢
      exact ih (by simp at below; omega) at_place.2 recorded
    · have later : ¬ i < first := fun earlier => applied (by
        rw [← same]
        exact (mem_versions_take contract.distinct known).mpr earlier)
      have stage : max first i = i := by omega
      have next_stage : max first (i + 1) = i + 1 := by omega
      rw [stage] at recorded ⊢
      unfold load
      cases loaded : migration.upgrade with
      | none => rintro names ⟨⟩
      | some run =>
        have begun := contract.upgrades i migration run (by rw [List.getElem?_eq_getElem known, same]) loaded
          _ recorded.within
        apply Procedure.safe_bind (p := .done run)
        apply Procedure.safe_bind
        refine (begun.on MongoState.collections MongoState.withCollections
          (fun state => state.applied = (releases.take i).map MongoMigration.record)
          (fun _ _ => rfl) (fun _ _ moved => moved.2) (fun _ _ moved frame => moved.1.trans frame)
          (fun _ _ frame => frame) (fun _ frame within => ⟨i, known.le, frame, within⟩)
          (contract.stable i) recorded.applied recorded.within).mono ?_
        rintro (e | ⟨⟩) state ⟨finished, frame, _⟩
        · rintro names ⟨⟩
        apply Procedure.safe_bind
        refine Procedure.safe_tell (fun _ _ _ _ _ => by rintro names ⟨⟩) fun now after moved _ inserted => ?_
        have taken : releases.take (i + 1) = releases.take i ++ [migration] := by
          rw [List.take_succ_eq_append_getElem known, same]
        have grown : Recorded releases Within (i + 1) after := by
          rw [insertRecord_ok inserted]
          refine ⟨?_, contract.stable _ _ _ moved.2 (finished rfl)⟩
          rw [taken, List.map_append, ← frame, ← moved.1]
          rfl
        refine ⟨⟨i + 1, by omega, grown⟩, ?_⟩
        rw [← next_stage] at grown
        have added : (((releases.take i).drop first).map MongoMigration.fullName) ++ [migration.fullName] =
            ((releases.take (max first (i + 1))).drop first).map MongoMigration.fullName := by
          rw [next_stage, taken, List.drop_append_of_le_length (by simp; omega), List.map_append]
          rfl
        rw [added]
        exact ih (by simp at below; omega) at_place.2 grown

/-- What an attempt finds is some stage; a newer database than its release is refused. -/
theorem safe_upgrade (contract : Contract releases outside Within) (bound : n ≤ releases.length)
    (found : AtSomeStage releases Within state) :
    (upgrade (releases.take n) target).Safe (Beside outside) (AtSomeStage releases Within)
      (fun r state => ∀ names, r = .ok names → Returned releases Within n target names state) state := by
  obtain ⟨first, known, recorded⟩ := found
  refine Procedure.safe_ask fun now moved _ => ?_
  split_ifs with clean
  · refine Procedure.safe_ask fun later again _ => ?_
    have here := (recorded.moved contract moved).moved contract again
    rw [List.isEmpty_iff, (recorded.moved contract moved).applied] at clean
    have newer := (checkDrift_eq_nil contract.distinct known bound).mp clean
    have start := @safe_applyEach _ _ _ n _ target contract bound first newer _ 0 (Nat.zero_le n) rfl
      (by rwa [Nat.max_zero])
    rw [here.versions]
    simpa using start
  · rintro names ⟨⟩

end Attempt

/-- The releases that an attempt can come from, with its target. -/
abbrev Call (releases : List MongoMigration) := Fin (releases.length + 1) × Option String

def attempt (releases : List MongoMigration) (call : Call releases) :
    Procedure MongoState MigrationError (List String) := upgrade (releases.take call.1) call.2

/-- The database with the attempt that is under way. -/
abbrev Attempts (releases : List MongoMigration) :=
  Site MongoState MigrationError (List String) (Call releases)

section Runs
variable {site : Attempts releases} {P : Attempts releases → Prop}
  {events : List (Call releases × Except MigrationError (List String))}

/-- An attempt that nobody disturbs. -/
theorem attempt_alone (call : Call releases) : RunIn (Site.Step (attempt releases) (Beside outside))
    (fun _ => True) ⟨state, none⟩ [(call, ((attempt releases call).exec state).1)]
    ⟨((attempt releases call).exec state).2, none⟩ :=
  .cons trivial (.begins call) (Site.run_alone call _ state)

theorem sound_of_attempts (contract : Contract releases outside Within)
    (run : RunIn (Site.Step (attempt releases) (Beside outside)) P ⟨state, none⟩ events site)
    (fresh : state.applied = []) (start : Within 0 state.collections) :
    site.Sound (Beside outside) (AtSomeStage releases Within) fun call r state =>
      ∀ names, r = .ok names → Returned releases Within call.1 call.2 names state := by
  refine Site.sound_of_run ?_ ?_ ?_ ?_ ?_ run ⟨0, Nat.zero_le _, fresh, start⟩
  · exact fun _ _ _ first second => ⟨second.1.trans first.1, contract.trans _ _ _ first.2 second.2⟩
  · exact fun _ => ⟨rfl, contract.refl _⟩
  · rintro s now moved ⟨k, known, recorded⟩
    exact ⟨k, known, recorded.moved contract moved⟩
  · rintro call r s now moved returned names rfl
    obtain ⟨k, known, recorded, rest⟩ := returned names rfl
    exact ⟨k, known, recorded.moved contract moved, rest⟩
  · exact fun call s found => safe_upgrade contract (Nat.lt_succ_iff.mp call.1.isLt) found

/-- The stage can be read off the ledger. -/
theorem Recorded.unique {j : Nat} (here : Recorded releases Within k state) (bound : k ≤ releases.length)
    (there : Recorded releases Within j state) (other : j ≤ releases.length) : j = k := by
  have lengths := congrArg List.length (here.applied.symm.trans there.applied)
  simp at lengths
  omega

end Runs

end Collector.Persistence.Mongo.Migrations
