import Transferia.Iceberg.CommitProtocol
import Transferia.Iceberg.RowDelta
import Transferia.Support.Transition

/-!
# The Iceberg replica

Each nonempty batch of a source delivery becomes a row delta of its own table,
and the delivery is acknowledged when all of them are committed.  Three records
make a repeated delivery harmless: the properties of the snapshots, the durable
commit records and the position of the source.  A crash may fall between any two
steps.
-/

namespace Transferia.Iceberg
open Support Changelog
variable {V E : Type} {schemas : String → TableSchema} {β : String → Type}

abbrev Tagged (β : String → Type) : Type := Σ dataset, β dataset

def Tagged.ofDataset (dataset : String)
    (entry : Tagged β) : Option (β dataset) :=
  if h : entry.1 = dataset then some (h ▸ entry.2) else none

@[simp]
theorem Tagged.ofDataset_self (entry : Tagged β) : entry.ofDataset entry.1 = some entry.2 := by
  simp [Tagged.ofDataset]

theorem Tagged.ofDataset_of_ne {entry : Tagged β} {dataset : String} (h : entry.1 ≠ dataset) :
    entry.ofDataset dataset = none := by
  simp [Tagged.ofDataset, h]

/-- A batch of one dataset: its system columns and its changelog. -/
structure ReplicaBatch (V : Type) (schema : TableSchema) where
  rows : List ReplicaRow
  changelog : ChangelogBatch V schema
  aligned : rows.length = changelog.rowCount

abbrev ReplicaDelivery (V : Type) (schemas : String → TableSchema) :=
  List (Tagged fun dataset => ReplicaBatch V (schemas dataset))

structure ReplicaWrite (V : Type) (schema : TableSchema) where
  changelog : ChangelogBatch V schema
  identity : StableCommitSource

/-- What the sink is configured with, the digest of commit identities and the
encoding of row keys. -/
structure ReplicaSink (schemas : String → TableSchema) (V E : Type) where
  (delivery replayIdentity : String)
  partitionId : ℤ
  datasets : List String
  tableUuid : String → ℕ
  digest : CommitIdentity → BitVec 128
  encode : (dataset : String) → (schemas dataset).Key V → E

abbrev TaggedWrite (V : Type) (schemas : String → TableSchema) :=
  Tagged fun dataset => ReplicaWrite V (schemas dataset)

def duplicateBatches (dataset : String) : String :=
  "Iceberg source delivery contains duplicate batches for replica dataset '" ++ dataset ++ "'"

namespace ReplicaSink
variable (sink : ReplicaSink schemas V E)

def groupBatches (grouped : OrderedMap String (TaggedWrite V schemas)) : ReplicaDelivery V schemas →
      Except String (OrderedMap String (TaggedWrite V schemas))
  | [] => .ok grouped
  | ⟨dataset, batch⟩ :: rest =>
    match batch.rows with
    | [] => groupBatches grouped rest
    | head :: tail =>
      if dataset ∈ sink.datasets then
        match replicaSourceIdentity head tail with
        | .error error => .error error
        | .ok identity =>
          if grouped.contains dataset then
            .error (duplicateBatches dataset)
          else
            groupBatches
              (grouped.insert dataset ⟨dataset, { changelog := batch.changelog, identity }⟩)
              rest
      else .error (unknownDataset dataset)

def deliveryWrites (delivery : ReplicaDelivery V schemas) :
    Except String (List (TaggedWrite V schemas)) :=
  (sink.groupBatches .empty delivery).map (·.entries.map Prod.snd)

def commitIdentity (write : TaggedWrite V schemas) : CommitIdentity where
  delivery := sink.delivery
  replayIdentity := some sink.replayIdentity
  workerPartition := sink.partitionId
  dataset := write.1
  tableUuid := sink.tableUuid write.1
  source := write.2.identity

end ReplicaSink

inductive SinkPhase (V : Type) (schemas : String → TableSchema) where
  | idle
  | writing (write : TaggedWrite V schemas) (point : CommitPoint (RowDelta V (schemas write.1)))
      (rest : List (TaggedWrite V schemas))
  | written

def SinkPhase.remaining : List (TaggedWrite V schemas) → SinkPhase V schemas
  | [] => .written
  | write :: rest => .writing write .loading rest

variable (V schemas)

/-- A run of the sink; `next` is the position of its next delivery. -/
structure SinkAttempt where
  next : ℕ
  phase : SinkPhase V schemas

structure ReplicaState where
  lineage : (dataset : String) → Lineage (RowDelta V (schemas dataset))
  storage : DurableStorage
  (acknowledged sourceCommitted : ℕ)
  attempt : Option (SinkAttempt V schemas)
  failure : Option CommitFailure

variable {V schemas}

inductive ReplicaLabel where
  | restart
  | receive
  | commit (label : CommitLabel)
  | acknowledge
  | commitSource (through : ℕ)
  | crash

namespace ReplicaState

def initial : ReplicaState V schemas where
  lineage := fun _ => []
  storage := fun _ => none
  acknowledged := 0
  sourceCommitted := 0
  attempt := none
  failure := none

section
variable (s : ReplicaState V schemas)

def fail (failure : CommitFailure) : ReplicaState V schemas :=
  { s with attempt := none, failure := some failure }

def enter (next : ℕ) (phase : SinkPhase V schemas) : ReplicaState V schemas :=
  { s with attempt := some { next, phase } }

/-- The catalog moves the pointer of a table to a new snapshot. -/
def publish (dataset : String) (snapshot : Snapshot (RowDelta V (schemas dataset))) : ReplicaState V
    schemas :=
  { s with lineage := Function.update s.lineage dataset (s.lineage dataset ++ [snapshot]) }

def carry (next : ℕ) (write : TaggedWrite V schemas) (rest : List (TaggedWrite V schemas)) :
    CommitEffect (RowDelta V (schemas write.1)) → ReplicaState V schemas
  | .move point => s.enter next (.writing write point rest)
  | .publish snapshot point => (s.publish write.1 snapshot).enter next (.writing write point rest)
  | .finish storage => ({ s with storage }).enter next (.remaining rest)
  | .fail failure => s.fail failure

end
end ReplicaState

namespace ReplicaSink
variable [DecidableEq E] (sink : ReplicaSink schemas V E)

def task (write : TaggedWrite V schemas) : CommitTask (RowDelta V (schemas write.1)) where
  commit := sink.commitIdentity write
  content := rowDelta write.2.changelog (sink.encode write.1)
  rebases := true

section
variable (deliveries : List (ReplicaDelivery V schemas)) (s : ReplicaState V schemas)

def attemptStep (next : ℕ) : SinkPhase V schemas → ReplicaLabel → Option (ReplicaState V schemas)
  | .idle, .receive =>
    match deliveries[next]? with
    | none => none
    | some delivery =>
      match sink.deliveryWrites delivery with
      | .error reason => some (s.fail (.refused reason))
      | .ok writes => some (s.enter next (.remaining writes))
  | .writing write point rest, .commit label =>
    ((sink.task write).step sink.digest (s.lineage write.1) s.storage point
      label).map (s.carry next write rest)
  | .written, .acknowledge =>
    some (({ s with acknowledged := max s.acknowledged (next + 1) }).enter (next + 1) .idle)
  | _, _ => none

def step (label : ReplicaLabel) : Option (ReplicaState V schemas) :=
  match label, s.attempt with
  | .restart, none => some (s.enter s.sourceCommitted .idle)
  | .commitSource through, _ =>
    if s.sourceCommitted ≤ through ∧ through ≤ s.acknowledged then
      some { s with sourceCommitted := through }
    else none
  | .crash, some _ => some { s with attempt := none }
  | label, some attempt => sink.attemptStep deliveries s attempt.next attempt.phase label
  | _, none => none

end

variable {deliveries : List (ReplicaDelivery V schemas)}
    {s t : ReplicaState V schemas} {label : ReplicaLabel} {sink}

inductive Moves (deliveries : List (ReplicaDelivery V schemas))
    (s : ReplicaState V schemas) : ReplicaState V schemas → Prop
  | restart : Moves deliveries s (s.enter s.sourceCommitted .idle)
  | commitSource {through : ℕ} (hacknowledged : through ≤ s.acknowledged) :
      Moves deliveries s { s with sourceCommitted := through }
  | crash : Moves deliveries s { s with attempt := none }
  | refuse {next : ℕ} {delivery reason} (hdelivery : deliveries[next]? = some delivery) (hwrites :
      sink.deliveryWrites delivery = .error reason) : Moves deliveries s (s.fail (.refused reason))
  | receive {next : ℕ} {delivery writes} (hattempt : s.attempt = some ⟨next, .idle⟩)
      (hdelivery : deliveries[next]? = some delivery) (hwrites : sink.deliveryWrites delivery =
      .ok writes) : Moves deliveries s (s.enter next (.remaining writes))
  | commit {next write point rest effect} (hattempt : s.attempt = some ⟨next,
      .writing write point rest⟩) (hmove : (sink.task write).Moves sink.digest (s.lineage write.1)
      s.storage point effect) : Moves deliveries s (s.carry next write rest effect)
  | acknowledge {next} (hattempt : s.attempt = some ⟨next, .written⟩) : Moves deliveries s
      (({ s with acknowledged := max s.acknowledged (next + 1) }).enter (next + 1) .idle)

theorem moves_of_attemptStep {next : ℕ} {phase : SinkPhase V schemas}
    (hattempt : s.attempt = some ⟨next, phase⟩)
    (hstep : sink.attemptStep deliveries s next phase label = some t) :
    sink.Moves deliveries s t := by
  cases phase with
  | idle =>
    cases label with
    | receive =>
      simp only [attemptStep] at hstep
      split at hstep
      · cases hstep
      rename_i delivery hdelivery
      split at hstep
      next hwrites =>
        cases hstep
        exact .refuse hdelivery hwrites
      rename_i writes hwrites
      cases hstep
      exact .receive hattempt hdelivery hwrites
    | _ => cases hstep
  | writing write point rest =>
    cases label with
    | commit label =>
      obtain ⟨effect, heffect, rfl⟩ := Option.map_eq_some_iff.mp hstep
      exact .commit hattempt (CommitTask.moves_of_step heffect)
    | _ => cases hstep
  | written =>
    cases label with
    | acknowledge =>
      cases hstep
      exact .acknowledge hattempt
    | _ => cases hstep

theorem moves_of_step (hstep : sink.step deliveries s label = some t) :
    sink.Moves deliveries s t := by
  unfold step at hstep
  split at hstep
  · cases hstep
    exact .restart
  · split at hstep
    next hbounds =>
      cases hstep
      exact .commitSource hbounds.2
    · cases hstep
  · cases hstep
    exact .crash
  next _ attempt _ _ hattempt => exact moves_of_attemptStep hattempt hstep
  · cases hstep

end ReplicaSink
end Transferia.Iceberg
