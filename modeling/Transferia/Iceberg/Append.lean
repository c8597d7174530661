import Transferia.Iceberg.CommitProtocol
import Transferia.Support.Transition

/-!
# Appends of a finite source

Each attempt begins where the source was committed last, splits the remaining
rows into deliveries of its own and numbers them from one.  The sink collects
deliveries until they are large enough and appends them to their tables; the
identity of an append is the list of its delivery numbers.
-/

namespace Transferia.Iceberg
open Support
variable {R : Type}

structure AppendBatch (R : Type) where
  table : String
  rows : List R
  bytes : ℕ
  deriving DecidableEq

structure AppendDelivery (R : Type) where
  id : ℕ
  outputs : List (AppendBatch R)

/-- The rows for one dataset and the deliveries they come from. -/
structure AppendWrite (R : Type) where
  deliveryIds : List ℕ
  rows : List R

/-- What the sink is configured with, and the digest of commit identities. -/
structure AppendSink where
  delivery : String
  replayIdentity : Option String
  partitionId : ℤ
  datasets : List String
  tableUuid : String → ℕ
  targetBytes : ℕ
  digest : CommitIdentity → BitVec 128

def AppendWrite.push (write : AppendWrite R) (id : ℕ) (rows : List R) : AppendWrite R where
  deliveryIds :=
    if write.deliveryIds.getLast? = some id then write.deliveryIds
    else write.deliveryIds ++ [id]
  rows := write.rows ++ rows

abbrev GroupedWrites (R : Type) := OrderedMap String (AppendWrite R)

def GroupedWrites.held (grouped : GroupedWrites R) (dataset : String) : AppendWrite R :=
  (grouped.find? dataset).getD { deliveryIds := [], rows := [] }

namespace AppendSink
variable (sink : AppendSink)

def groupBatches (id : ℕ) (grouped : GroupedWrites R) :
    List (AppendBatch R) → Except String (GroupedWrites R)
  | [] => .ok grouped
  | batch :: rest =>
    if batch.rows.isEmpty then groupBatches id grouped rest
    else if batch.table ∈ sink.datasets then
      groupBatches id
        (grouped.insert batch.table ((grouped.held batch.table).push id batch.rows)) rest
    else .error (unknownDataset batch.table)

def groupDeliveries (grouped : GroupedWrites R) :
    List (AppendDelivery R) → Except String (GroupedWrites R)
  | [] => .ok grouped
  | delivery :: rest =>
    match sink.groupBatches delivery.id grouped delivery.outputs with
    | .error error => .error error
    | .ok grouped => groupDeliveries grouped rest

def commitIdentity (dataset : String) (deliveryIds : List ℕ) : CommitIdentity where
  delivery := sink.delivery
  replayIdentity := sink.replayIdentity
  workerPartition := sink.partitionId
  dataset
  tableUuid := sink.tableUuid dataset
  source := .finiteDelivery deliveryIds

def task (dataset : String) (write : AppendWrite R) : CommitTask (List R) where
  commit := sink.commitIdentity dataset write.deliveryIds
  content := .ok write.rows
  rebases := false

end AppendSink

inductive AppendPhase (R : Type) where
  | receiving
  | writing (dataset : String) (write : AppendWrite R)
      (point : CommitPoint (List R)) (rest : List (String × AppendWrite R))
  | written

def AppendPhase.remaining : List (String × AppendWrite R) → AppendPhase R
  | [] => .written
  | (dataset, write) :: rest => .writing dataset write .loading rest

/-- One attempt.  `position` counts the source rows it has received, and
`acknowledgedTo` those it has acknowledged. -/
structure AppendAttempt (R : Type) where
  (position nextId : ℕ)
  pending : List (AppendDelivery R)
  (pendingBytes acknowledgedTo : ℕ)
  phase : AppendPhase R

/-- The tables, the durable records and the source; `acknowledged` are the
deliveries of all attempts that the sink has acknowledged. -/
structure AppendState (R : Type) where
  lineage : String → Lineage (List R)
  storage : DurableStorage
  sourceCommitted : ℕ
  acknowledged : List (AppendDelivery R)
  attempt : Option (AppendAttempt R)
  failure : Option CommitFailure

inductive AppendLabel (R : Type) where
  | restart
  | receive (outputs : List (AppendBatch R))
  | close
  | commit (label : CommitLabel)
  | acknowledge
  | commitSource
  | crash

namespace AppendState

def initial : AppendState R where
  lineage := fun _ => []
  storage := fun _ => none
  sourceCommitted := 0
  acknowledged := []
  attempt := none
  failure := none

def fail (s : AppendState R) (failure : CommitFailure) : AppendState R :=
  { s with attempt := none, failure := some failure }

def run (s : AppendState R) (attempt : AppendAttempt R) : AppendState R :=
  { s with attempt := some attempt }

def carry (s : AppendState R) (attempt : AppendAttempt R) (dataset : String)
    (write : AppendWrite R) (rest : List (String × AppendWrite R)) :
    CommitEffect (List R) → AppendState R
  | .move point => s.run { attempt with phase := .writing dataset write point rest }
  | .publish snapshot point =>
    ({ s with lineage := Function.update s.lineage dataset (s.lineage dataset ++ [snapshot]) }).run
      { attempt with phase := .writing dataset write point rest }
  | .finish storage => ({ s with storage }).run { attempt with phase := .remaining rest }
  | .fail failure => s.fail failure

end AppendState

def outputRows (outputs : List (AppendBatch R)) : List (String × R) :=
  outputs.flatMap fun batch => batch.rows.map fun row => (batch.table, row)

def firstAttempt (sourceCommitted : ℕ) : AppendAttempt R where
  position := sourceCommitted
  nextId := 1
  pending := []
  pendingBytes := 0
  acknowledgedTo := sourceCommitted
  phase := .receiving

def AppendAttempt.receive (attempt : AppendAttempt R)
    (outputs : List (AppendBatch R)) : AppendAttempt R :=
  { attempt with
    position := attempt.position + (outputRows outputs).length, nextId := attempt.nextId + 1
    pending := attempt.pending ++ [{ id := attempt.nextId, outputs }]
    pendingBytes := attempt.pendingBytes + (outputs.map AppendBatch.bytes).sum }

/-- The attempt after the acknowledgement of the pending deliveries. -/
def AppendAttempt.settle (attempt : AppendAttempt R) : AppendAttempt R := { attempt with
    pending := [], pendingBytes := 0, acknowledgedTo := attempt.position, phase := .receiving }

namespace AppendSink
variable (sink : AppendSink)

def deliveryGroupReady (pendingBytes : ℕ) (inputClosed : Bool) : Bool :=
  inputClosed || decide (sink.targetBytes ≤ pendingBytes)

def writeDeliveries (s : AppendState R) (attempt : AppendAttempt R) : AppendState R :=
  match sink.groupDeliveries .empty attempt.pending with
  | .error reason => s.fail (.refused reason)
  | .ok grouped => s.run { attempt with phase := .remaining grouped.entries }

/-- Write the pending deliveries when there are enough of them. -/
def collect (s : AppendState R) (attempt : AppendAttempt R) (inputClosed : Bool) : AppendState R :=
  if attempt.pending.isEmpty then s.run attempt
  else if sink.deliveryGroupReady attempt.pendingBytes inputClosed then
    sink.writeDeliveries s attempt
  else s.run attempt

variable [DecidableEq R] {source : List (String × R)} {s t : AppendState R} {label : AppendLabel R}
  {sink}
variable (source s)

def attemptStep (attempt : AppendAttempt R) :
    AppendPhase R → AppendLabel R → Option (AppendState R)
  | .receiving, .receive outputs =>
    if outputRows outputs <+: source.drop attempt.position then
      some (sink.collect s (attempt.receive outputs) false)
    else none
  | .receiving, .close => some (sink.collect s attempt true)
  | .writing dataset write point rest, .commit label =>
    ((sink.task dataset write).step sink.digest (s.lineage dataset)
      s.storage point label).map (s.carry attempt dataset write rest)
  | .written, .acknowledge =>
    some (({ s with acknowledged := s.acknowledged ++ attempt.pending }).run attempt.settle)
  | _, _ => none

def step (label : AppendLabel R) : Option (AppendState R) :=
  match label, s.attempt with
  | .restart, none => some (s.run (firstAttempt s.sourceCommitted))
  | .commitSource, some attempt => some { s with sourceCommitted := attempt.acknowledgedTo }
  | .crash, some _ => some { s with attempt := none }
  | label, some attempt => sink.attemptStep source s attempt attempt.phase label
  | _, none => none

variable {source s}

inductive Moves (s : AppendState R) :
    AppendLabel R → AppendState R → Prop
  | restart : Moves s .restart (s.run (firstAttempt s.sourceCommitted))
  | commitSource {position : ℕ} : Moves s .commitSource { s with sourceCommitted := position }
  | crash : Moves s .crash { s with attempt := none }
  | receive {attempt outputs} (hattempt : s.attempt = some attempt) (hphase : attempt.phase =
      .receiving) : Moves s (.receive outputs) (sink.collect s (attempt.receive outputs) false)
  | close {attempt} (hattempt : s.attempt = some attempt) (hphase : attempt.phase = .receiving) :
      Moves s .close (sink.collect s attempt true)
  | commit {attempt dataset write point rest label effect} (hattempt : s.attempt = some attempt)
      (hphase : attempt.phase = .writing dataset write point rest)
      (hmove : (sink.task dataset write).Moves sink.digest (s.lineage dataset)
      s.storage point effect) : Moves s (.commit label) (s.carry attempt dataset write rest effect)
  | acknowledge {attempt} (hattempt : s.attempt = some attempt)
      (hphase : attempt.phase = .written) : Moves s .acknowledge
      (({ s with acknowledged := s.acknowledged ++ attempt.pending }).run attempt.settle)

theorem moves_of_attemptStep {attempt : AppendAttempt R} {phase : AppendPhase R}
    (hattempt : s.attempt = some attempt) (hphase : attempt.phase = phase)
    (hstep : sink.attemptStep source s attempt phase label = some t) : sink.Moves s label t := by
  cases phase with
  | receiving =>
    cases label with
    | receive outputs =>
      simp only [attemptStep] at hstep
      split at hstep
      · cases hstep
        exact .receive hattempt hphase
      · cases hstep
    | close =>
      cases hstep
      exact .close hattempt hphase
    | _ => cases hstep
  | writing dataset write point rest =>
    cases label with
    | commit label =>
      obtain ⟨effect, heffect, rfl⟩ := Option.map_eq_some_iff.mp hstep
      exact .commit hattempt hphase (CommitTask.moves_of_step heffect)
    | _ => cases hstep
  | written =>
    cases label with
    | acknowledge =>
      cases hstep
      exact .acknowledge hattempt hphase
    | _ => cases hstep

theorem moves_of_step (hstep : sink.step source s label = some t) : sink.Moves s label t := by
  unfold step at hstep
  split at hstep
  · cases hstep
    exact .restart
  · cases hstep
    exact .commitSource
  · cases hstep
    exact .crash
  next _ _ _ hattempt => exact moves_of_attemptStep hattempt rfl hstep
  · cases hstep

end AppendSink
end Transferia.Iceberg
