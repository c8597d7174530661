import Transferia.Pipeline.Admission

/-!
# The admission driver and its await points

The driver of `Transferia.Pipeline.Admission` with everything that can go wrong:
cancellation, rejected deliveries, preparations and discovery updates that fail,
sink sessions that stop early, and channels that close.  The sink receives the
deliveries of its session in order, finishes writes in any order and
acknowledges what it has received.
-/

namespace Transferia.Pipeline
open Support

/-- A delivery with the output batches whose schemas are checked. -/
structure EvolvingDelivery (B : Type*) where
  id : ℕ
  outputs : List B

inductive DriverInput (B D : Type*) where
  | data (delivery : EvolvingDelivery B)
  | dataset (id : ℕ) (dataset : D)

namespace DriverInput
variable {B D : Type*}

def id : DriverInput B D → ℕ
  | data delivery => delivery.id
  | dataset id _ => id

def delivery? : DriverInput B D → Option (EvolvingDelivery B)
  | data delivery => some delivery
  | dataset _ _ => none

end DriverInput

/-- The schema validation and preparation that orchestration owns.  The answer
of the destination is an argument of the preparation. -/
structure DatasetAdmission (A B D : Type*) where
  pendingDatasets : A → List B → Except String (List D)
  prepare : A → D → DatasetStage → Except String Unit → Except String A

inductive DriverBarrier (B D : Type*) where
  | rejected (delivery : EvolvingDelivery B) (error : String)
  | source (id : ℕ) (dataset : D)
  | data (delivery : EvolvingDelivery B) (datasets : List D)

inductive DriverPhase (B D : Type*) where
  | opening (pending : Option (EvolvingDelivery B))
  | forwarding
  | sending (delivery : EvolvingDelivery B)
  | draining (barrier : Option (DriverBarrier B D))
  | preparingSource (id : ℕ) (dataset : D)
  | updatingSource (id : ℕ) (dataset : D)
  | acknowledging (id : ℕ) (dataset : D)
  | preparingData (delivery : EvolvingDelivery B) (dataset : D) (rest : List D)
  | updatingData (delivery : EvolvingDelivery B) (dataset : D) (rest : List D)
  | returned (result : Except String Unit)

/-- What the run has shown so far.  An input is abandoned when the driver
returns because its admission was rejected or cancelled. -/
inductive DriverEvent where
  | committedThrough (id : ℕ)
  | prepared (id : ℕ)
  | updated (id : ℕ)
  | abandoned (id : ℕ)

/-- The driver with the current session of the sink.  `handled` lists the
inputs that were forwarded or acknowledged, `received` the deliveries that
reached the sink, `unsettled` those of them with unfinished writes. -/
structure DriverState (A B D : Type*) where
  phase : DriverPhase B D
  input : List (DriverInput B D)
  admission : A
  (cancelled sessionRunning : Bool)
  (channel received : List (EvolvingDelivery B))
  unsettled : List ℕ
  inputClosedEarly : Bool
  handled : List (DriverInput B D)
  trace : List DriverEvent

inductive DriverLabel where
  | cancel
  | openSession (accepted : Bool)
  | observeCancellation
  | receive
  | send (accepted : Bool)
  | sessionReturns (result : Except String Unit)
  | prepareReturns (answer : Except String Unit)
  | updateReturns (result : Except String Unit)
  | acknowledgeReturns (accepted : Bool)
  | sinkReceive
  | sinkSettle (index : ℕ)
  | sinkAcknowledge (index : ℕ)

namespace DriverState
variable {A B D : Type*}

def start (admission : A) (input : List (DriverInput B D)) : DriverState A B D :=
  { phase := .opening none
    input, admission
    cancelled := false, sessionRunning := false, channel := [], received := [], unsettled := []
    inputClosedEarly := false, handled := [], trace := [] }

def inputClosed : String := "sink session input closed"

def stoppedBeforeClose : String := "sink stopped before input closed"

def stoppedWhileForwarding : String := "sink stopped while forwarding a delivery"

def sourceClosed : String := "source closed before dataset admission commit"

variable (ops : DatasetAdmission A B D) (state : DriverState A B D) (accepted : Bool)

/-- A new session starts with the delivery that waited for its datasets. -/
def openSession : Option (DriverState A B D) :=
  match state.phase with
  | .opening none => some { state with phase := .forwarding, sessionRunning := true }
  | .opening (some delivery) =>
    if accepted then
      some
        { state with
          phase := .forwarding, sessionRunning := true, channel := state.channel ++ [delivery]
          handled := state.handled ++ [.data delivery] }
    else some { state with phase := .returned (.error inputClosed) }
  | _ => none

def observeCancellation : Option (DriverState A B D) :=
  if state.cancelled then
    match state.phase with
    | .forwarding => some { state with phase := .draining none }
    | .sending _ => some { state with phase := .draining none }
    | _ => none
  else none

/-- The next input.  The driver looks at the cancellation first. -/
def receive : Option (DriverState A B D) :=
  match state.cancelled, state.phase, state.input with
  | false, .forwarding, [] => some { state with phase := .draining none }
  | false, .forwarding, .data delivery :: rest =>
    match ops.pendingDatasets state.admission delivery.outputs with
    | .error error =>
      some { state with input := rest, phase := .draining (some (.rejected delivery error)) }
    | .ok [] => some { state with input := rest, phase := .sending delivery }
    | .ok datasets =>
      some { state with input := rest, phase := .draining (some (.data delivery datasets)) }
  | false, .forwarding, .dataset id dataset :: rest =>
    some { state with input := rest, phase := .draining (some (.source id dataset)) }
  | _, _, _ => none

/-- A delivery is forwarded when the channel has room, and dropped when the
session has closed its end. -/
def send : Option (DriverState A B D) :=
  match state.phase with
  | .sending delivery =>
    if accepted then
      if state.channel.length < channelCapacity then
        some
          { state with
            phase := .forwarding, channel := state.channel ++ [delivery]
            handled := state.handled ++ [.data delivery] }
      else none
    else
      some { state with phase := .draining none, inputClosedEarly := true }
  | _ => none

def barrierId : DriverBarrier B D → ℕ
  | .rejected delivery _ => delivery.id
  | .source id _ => id
  | .data delivery _ => delivery.id

def crossBarrier : Option (DriverBarrier B D) → DriverState A B D
  | none => { state with phase := .returned (.ok ()) }
  | some (.rejected delivery error) =>
    { state with
      phase := .returned (.error error), trace := state.trace ++ [.abandoned delivery.id] }
  | some (.source id dataset) =>
    { state with phase := .preparingSource id dataset }
  | some (.data delivery []) => { state with phase := .opening delivery }
  | some (.data delivery (dataset :: rest)) =>
    { state with phase := .preparingData delivery dataset rest }

/-- The driver leaves a barrier because the pipeline is cancelled. -/
def cancelBarrier
    (barrier : Option (DriverBarrier B D)) : DriverState A B D :=
  { state with
    phase := .returned (.ok ()), trace := state.trace ++
      (barrier.map fun barrier => .abandoned (barrierId barrier)).toList }

def drained : Bool := state.cancelled || (state.channel.isEmpty && state.unsettled.isEmpty)

def sessionReturns (result : Except String Unit) : Option (DriverState A B D) :=
  if state.sessionRunning then
    let ended := { state with sessionRunning := false }
    match state.phase, result with
    | .forwarding, .ok () =>
      if state.cancelled then none
      else
        some { ended with phase := .returned (.error stoppedBeforeClose) }
    | .forwarding, .error error =>
      if state.cancelled then none
      else some { ended with phase := .returned (.error error) }
    | .sending _, .ok () =>
      some { ended with phase := .returned (.error stoppedWhileForwarding) }
    | .sending _, .error error => some { ended with phase := .returned (.error error) }
    | .draining barrier, .ok () =>
      if state.drained then
        if state.cancelled then some (ended.cancelBarrier barrier)
        else some (ended.crossBarrier barrier)
      else none
    | .draining _, .error error => some { ended with phase := .returned (.error error) }
    | _, _ => none
  else none

/-- The driver returns without the admission of the input `id`. -/
def abandon (id : ℕ) (result : Except String Unit) : DriverState A B D :=
  { state with phase := .returned result, trace := state.trace ++ [.abandoned id] }

def prepareReturns (answer : Except String Unit) : Option (DriverState A B D) :=
  match state.phase with
  | .preparingSource id dataset =>
    match ops.prepare state.admission dataset .source answer with
    | .error error => some (state.abandon id (.error error))
    | .ok admission =>
      some
        { state with
          admission, phase := .updatingSource id dataset
          trace := state.trace ++ [.prepared id] }
  | .preparingData delivery dataset rest =>
    match ops.prepare state.admission dataset .sink answer with
    | .error error => some (state.abandon delivery.id (.error error))
    | .ok admission =>
      if state.cancelled then
        some ({ state with admission }.abandon delivery.id (.ok ()))
      else
        some
          { state with
            admission, phase := .updatingData delivery dataset rest
            trace := state.trace ++ [.prepared delivery.id] }
  | _ => none

def updateReturns (result : Except String Unit) : Option (DriverState A B D) :=
  match state.phase, result with
  | .updatingSource id _, .error error => some (state.abandon id (.error error))
  | .updatingSource id dataset, .ok () =>
    if state.cancelled then some (state.abandon id (.ok ()))
    else
      some { state with phase := .acknowledging id dataset, trace := state.trace ++ [.updated id] }
  | .updatingData delivery _ _, .error error => some (state.abandon delivery.id (.error error))
  | .updatingData delivery _ [], .ok () =>
    some { state with phase := .opening delivery, trace := state.trace ++ [.updated delivery.id] }
  | .updatingData delivery _ (next :: rest), .ok () =>
    some
      { state with
        phase := .preparingData delivery next rest, trace := state.trace ++ [.updated delivery.id] }
  | _, _ => none

def acknowledgeReturns : Option (DriverState A B D) :=
  match state.phase with
  | .acknowledging id dataset =>
    if accepted then
      some
        { state with
          phase := .opening none, handled := state.handled ++ [.dataset id dataset]
          trace := state.trace ++ [.committedThrough id] }
    else some (state.abandon id (.error sourceClosed))
  | _ => none

def sinkReceive : Option (DriverState A B D) :=
  match state.sessionRunning, state.channel with
  | true, delivery :: rest =>
    some
      { state with
        channel := rest, received := state.received ++ [delivery]
        unsettled := state.unsettled ++ [delivery.id] }
  | _, _ => none

def sinkSettle (index : ℕ) : Option (DriverState A B D) :=
  if state.sessionRunning then
    some { state with unsettled := state.unsettled.eraseIdx index }
  else none

def sinkAcknowledge (index : ℕ) : Option (DriverState A B D) :=
  match state.sessionRunning, state.received[index]? with
  | true, some delivery =>
    some { state with trace := state.trace ++ [.committedThrough delivery.id] }
  | _, _ => none

def step : DriverLabel → Option (DriverState A B D)
  | .cancel => some { state with cancelled := true }
  | .openSession accepted => state.openSession accepted
  | .observeCancellation => state.observeCancellation
  | .receive => state.receive ops
  | .send accepted => state.send accepted
  | .sessionReturns result => state.sessionReturns result
  | .prepareReturns answer => state.prepareReturns ops answer
  | .updateReturns result => state.updateReturns result
  | .acknowledgeReturns accepted => state.acknowledgeReturns accepted
  | .sinkReceive => state.sinkReceive
  | .sinkSettle index => state.sinkSettle index
  | .sinkAcknowledge index => state.sinkAcknowledge index

end DriverState
end Transferia.Pipeline
