import Transferia.Contracts.DeliveryTracker
import Transferia.Support.Transition

/-!
# Admission of datasets between sink sessions

The driver forwards data deliveries to the current sink session.  A source-
authored dataset, or a delivery whose datasets are not prepared yet, ends the
session first: its input is closed, its writes drain, the datasets are prepared,
and the next session starts.  The sink object, with its delivery tracker,
outlives the sessions.  Cancellation and failures are not modelled here.
-/

namespace Transferia.Pipeline
open Contracts Support

def channelCapacity : ℕ := 8

inductive DatasetStage where
  | source
  | sink
  deriving DecidableEq

/-- What the sink counts of a delivery: `units` is the number of batches it
prepares for insertion. -/
structure Delivery where
  (id units sourceMessages : ℕ)
  deriving DecidableEq

inductive SinkInput (D : Type*) where
  | data (delivery : Delivery)
  | dataset (id : ℕ) (dataset : D)

namespace SinkInput
variable {D : Type*}

def id : SinkInput D → ℕ
  | data delivery => delivery.id
  | dataset id _ => id

def delivery? : SinkInput D → Option Delivery
  | data delivery => some delivery
  | dataset _ _ => none

def barrier? : SinkInput D → Option ℕ
  | data _ => none
  | dataset id _ => some id

end SinkInput

inductive Barrier (D : Type*) where
  | source (id : ℕ) (dataset : D)
  | data (delivery : Delivery) (datasets : List D)
  deriving DecidableEq

/-- Where the driver stands: forwarding to a session, waiting for the session
to drain, or returned. -/
inductive AdmissionPhase (D : Type*) where
  | forwarding
  | draining (barrier : Option (Barrier D))
  | finished
  | failed (error : String)
  deriving DecidableEq

structure AdmissionState (D : Type*) where
  phase : AdmissionPhase D
  input : List (SinkInput D)
  session : List Delivery
  progress : DeliveryTracker
  events : List ℕ
  prepared : List (DatasetStage × D)

inductive AdmissionLabel where
  | receive
  | accept
  | complete (id : ℕ)
  | emitCommitted
  | endSession

namespace AdmissionState
variable {D : Type*}

def start (input : List (SinkInput D)) : AdmissionState D :=
  { phase := .forwarding, input, session := [], progress := .new, events := [], prepared := [] }

variable (state : AdmissionState D)

def sessionOpen : Bool :=
  match state.phase with
  | .forwarding => true
  | .draining _ => true
  | .finished => false
  | .failed _ => false

/-- The next input of the driver.  Forwarding waits for room in the channel of
the session. -/
def receive (pendingDatasets : Delivery → List D)
    (state : AdmissionState D) : Option (AdmissionState D) :=
  match state.phase, state.input with
  | .forwarding, [] => some { state with phase := .draining none }
  | .forwarding, .data delivery :: rest =>
    if (pendingDatasets delivery).isEmpty then
      if state.session.length < channelCapacity then
        some { state with input := rest, session := state.session ++ [delivery] }
      else none
    else
      some
        { state with
          input := rest, phase := .draining (some (.data delivery (pendingDatasets delivery))) }
  | .forwarding, .dataset id dataset :: rest =>
    some { state with input := rest, phase := .draining (some (.source id dataset)) }
  | _, _ => none

def accept : Option (AdmissionState D) :=
  match state.sessionOpen, state.session with
  | true, delivery :: rest =>
    match state.progress.accept delivery.id delivery.units delivery.sourceMessages with
    | .error error => some { state with phase := .failed error }
    | .ok progress => some { state with session := rest, progress }
  | _, _ => none

/-- An insert of the sink finishes one prepared batch of a delivery. -/
def complete (id : ℕ) : Option (AdmissionState D) :=
  match state.sessionOpen, state.progress.entries.lookup id with
  | true, some { remaining := _ + 1, .. } =>
    match state.progress.complete id 1 with
    | .error error => some { state with phase := .failed error }
    | .ok progress => some { state with progress }
  | _, _ => none

def emit : AdmissionState D :=
  match state.progress.takeCommitted with
  | (none, progress) => { state with progress }
  | (some committed, progress) =>
    { state with progress, events := state.events ++ [committed.through] }

def emitCommitted : Option (AdmissionState D) :=
  if state.sessionOpen && state.progress.takeCommitted.1.isSome then
    some state.emit
  else none

def incompleteDeliveries : String := "sink input closed with incomplete deliveries"

def idle (progress : DeliveryTracker) : Bool :=
  progress.entries.entries.all (·.2.remaining == 0)

def crossBarrier : Option (Barrier D) → AdmissionState D
  | none => { state with phase := .finished }
  | some (.source id dataset) =>
    { state with
      phase := .forwarding, prepared := state.prepared ++ [(.source, dataset)]
      events := state.events ++ [id] }
  | some (.data delivery datasets) =>
    { state with
      phase := .forwarding, prepared := state.prepared ++ datasets.map fun dataset =>
        (.sink, dataset)
      session := [delivery] }

/-- The session sees its closed input, finds nothing left to write and
returns. -/
def endSession : Option (AdmissionState D) :=
  match state.phase, state.session with
  | .draining barrier, [] =>
    if idle state.progress then
      if state.emit.progress.isEmpty then
        some (state.emit.crossBarrier barrier)
      else some { state.emit with phase := .failed incompleteDeliveries }
    else none
  | _, _ => none

def step (pendingDatasets : Delivery → List D) (state : AdmissionState D) :
    AdmissionLabel → Option (AdmissionState D)
  | .receive => state.receive pendingDatasets
  | .accept => state.accept
  | .complete id => state.complete id
  | .emitCommitted => state.emitCommitted
  | .endSession => state.endSession

end AdmissionState

def Numbered {D : Type*} (input : List (SinkInput D)) : Prop :=
  input.map SinkInput.id = List.range' 1 input.length

/-- Every schedule of driver and sink finishes, without an error, after a
strictly increasing sequence of committed ids which covers every input. -/
structure KeepsNumbering {D : Type*} (pendingDatasets : Delivery → List D)
    (input : List (SinkInput D)) : Prop where
  never_failed : ∀ state, Reachable (AdmissionState.step pendingDatasets) (.start input) state →
      ∀ error, state.phase ≠ .failed error
  increasing : ∀ state, Reachable (AdmissionState.step pendingDatasets) (.start input) state →
      state.events.Pairwise (· < ·)
  bounded : ∃ bound, ∀ labels state, exec (AdmissionState.step pendingDatasets)
    (.start input) labels = some state → labels.length ≤ bound
  covered : ∀ state, Reachable (AdmissionState.step pendingDatasets) (.start input) state →
      Stuck (AdmissionState.step pendingDatasets) state → state.phase = .finished ∧
          ∀ entry ∈ input, ∃ id ∈ state.events, entry.id ≤ id

end Transferia.Pipeline
