import Collector.Workers.ScaleRequests

/-!
Scale commands over whole runs of the control plane, whatever the interleaving: one active
command a role, one revision a command, one command a key, and no way back from a terminal
status.
-/

namespace Collector.Workers
open Collector.Lib Collector.Persistence Collector.Persistence.Pools

variable {queue lock task : Type}

/-- The entry is a `request_scale` that committed with this command. -/
def Requested (entry : FleetEnded queue lock task) (request : ScaleRequest) (row : ScaleCommand) :
    Prop :=
  entry.call = .requestScale request ∧ entry.outcome = .ok (.command row)

/-- It made the command: the id was unknown before. -/
def Makes (entry : FleetEnded queue lock task) (request : ScaleRequest) (row : ScaleCommand) : Prop :=
  Requested entry request row ∧ entry.before.commands.find? row.commandId = none

structure ScaleGuarantee (history : List (FleetEnded queue lock task)) (c : Fleet queue) : Prop where
  single : ∀ a ∈ c.commands.rows, ∀ b ∈ c.commands.rows, a.role = b.role →
    a.status.terminal = false → b.status.terminal = false → a = b
  raised : ∀ entry ∈ history, ∀ request row, Makes entry request row →
    ∃ pool later, entry.before.pools.find? request.role = some pool ∧
      entry.after.pools.find? request.role = some later ∧ later.revision = pool.revision + 1 ∧
      row.appliedPoolRevision = later.revision
  once : history.Pairwise fun newer older => ∀ request row other command,
    Makes newer request row → Makes older other command → request.role = other.role →
      request.expectedRevision ≠ other.expectedRevision
  same : ∀ entry ∈ history, ∀ later ∈ history, ∀ request row other command,
    Requested entry request row → Requested later other command →
      request.idempotencyKey = other.idempotencyKey → row.commandId = command.commandId
  ended : ∀ entry ∈ history, ∀ i row, entry.after.commands.find? i = some row →
    row.status.terminal = true → ∃ later, c.commands.find? i = some later ∧ later.status = row.status

section
variable {entry : FleetEnded queue lock task} {request : ScaleRequest} {row : ScaleCommand}
  {c : Fleet queue}

theorem created_of_makes (explained : (scaling queue lock).Explained ScaleStep c entry)
    (makes : Makes entry request row) : Created request row entry.before entry.after := by
  obtain ⟨⟨call, outcome⟩, fresh⟩ := makes
  rcases explained.said request row call outcome with created | ⟨stored, known, _⟩
  · exact created
  · rw [fresh] at known
    cases known

/-- The command a request answered with is stored under the key, from its commit on. -/
theorem stored_of_requested (explained : (scaling queue lock).Explained ScaleStep c entry)
    (requested : Requested entry request row) :
    ∃ later, c.commands.find? row.commandId = some later ∧
      later.idempotencyKey = request.idempotencyKey := by
  rcases explained.said request row requested.1 requested.2 with created | ⟨stored, known, key⟩
  · obtain ⟨later, found, goes⟩ := explained.since.commands _ _ created.stored
    exact ⟨later, found, goes.key.trans created.key⟩
  · obtain ⟨middle, found, goes⟩ := explained.moved.commands _ _ known
    obtain ⟨later, found, on⟩ := explained.since.commands _ _ found
    exact ⟨later, found, (goes.trans on).key.trans key⟩

end

/-- In every run from a database without scale commands. -/
theorem scale_commands_of_run {start : Fleet queue} (empty : start.commands = ∅)
    {history : List (FleetEnded queue lock task)} {s : FleetSystem queue lock task}
    (run : System.Run fleetProgram start history s) : ScaleGuarantee history s.committed := by
  have valid : ScaleInv start := by
    refine ⟨?_, ?_, ?_, ?_⟩ <;> simp [empty]
  obtain ⟨inv, each, order⟩ := scaling_verified.explained valid run
  refine ⟨?_, ?_, ?_, ?_, ?_⟩
  · intro a first b second role activeA activeB
    have same := inv.single _ _ a b (Table.find?_of_mem _ first) (Table.find?_of_mem _ second) role
      activeA activeB
    exact s.committed.commands.eq_of_key_eq first second same
  · intro entry member request row makes
    exact (created_of_makes (each entry member) makes).raised
  · apply order.imp_of_mem
    intro newer older first second between request row other command makesNewer makesOlder role revision
    -- The older command is known when the newer one is made, yet both have one revision.
    have now := created_of_makes (each newer first) makesNewer
    have then_ := created_of_makes (each older second) makesOlder
    obtain ⟨middle, known, goes⟩ := between.commands _ _ then_.stored
    obtain ⟨later, found, on⟩ := (each newer first).moved.commands _ _ known
    have continues := goes.trans on
    have same := (each newer first).after.revisions _ _ row later now.stored found
      (now.role.trans (role.trans (then_.role.symm.trans continues.role.symm)))
      (now.expected.trans (revision.trans (then_.expected.symm.trans continues.expected.symm)))
    rw [← same, now.fresh] at known
    cases known
  · intro entry member later also request row other command requested again key
    obtain ⟨a, foundA, keyA⟩ := stored_of_requested (each entry member) requested
    obtain ⟨b, foundB, keyB⟩ := stored_of_requested (each later also) again
    exact inv.keys _ _ a b foundA foundB (keyA.trans (key.trans keyB.symm))
  · intro entry member i row found closed
    obtain ⟨later, known, goes⟩ := (each entry member).since.commands i row found
    exact ⟨later, known, goes.ended closed⟩

def sampleRequest (key : String) (expected replicas : Int) (id : Uuid) : ScaleRequest :=
  ⟨.fetch, expected, replicas, 1, "op", "load", key, .compose, none, 5, id, id + 100⟩

/-- A command, its repetition, a competitor for the same revision, and the next revision. -/
def scaleCalls : List (FleetCall Unit Unit Unit) :=
  [.upsertPool .fetch ⟨1, 1, 4, 0, "manual", "default"⟩ "op" "boot" none 0 1,
    .requestScale (sampleRequest "a" 1 2 11), .requestScale (sampleRequest "a" 1 2 12),
    .requestScale (sampleRequest "b" 1 3 13), .requestScale (sampleRequest "c" 2 3 14),
    .transitionScaleCommand 11 .draining none 60 6]

def scaleRun : List (FleetEnded Unit Unit Unit) × Fleet Unit :=
  System.serially fleetProgram ⟨∅, ∅, ∅, [], ()⟩ scaleCalls

theorem scale_commands_of_sample : ScaleGuarantee scaleRun.1 scaleRun.2 ∧
    scaleRun.2.commands.rows.map (fun row => (row.commandId, row.appliedPoolRevision, row.status)) =
      [(11, 2, .superseded), (14, 3, .requested)] :=
  ⟨scale_commands_of_run rfl (System.run_serially fleetProgram _ scaleCalls), by decide +kernel⟩

end Collector.Workers
