import Transferia.Support.Transition

/-!
# The Kafka sink

Every message of a delivery is sent by a future of its own.  The futures are
polled in the order in which they became ready, a new future being ready at
once.  Sending waits and offers the message again while the producer's queue is
full, and returns when the broker's report is there.
-/

namespace Transferia.Kafka

abbrev Bytes := List UInt8

inductive TopicSelector
  | topic (topic : String)
  | topicPrefix (topicPrefix : String)

def TopicSelector.topicForTable : TopicSelector → String → String
  | .topic name, _ => name
  | .topicPrefix start, table => start ++ "." ++ table

structure KafkaSinkConfig where
  topic : TopicSelector
  partition : Option Int32
  maxInFlight : ℕ

structure SerializedMessage where
  (key value : Option Bytes)

structure SerializedBatch where
  table : String
  messages : List SerializedMessage

/-- A delivery with the batches its serializer makes of it. -/
structure Delivery where
  id : ℕ
  batches : List SerializedBatch

/-- A record for the producer, numbered in the order of the deliveries. -/
structure FutureRecord where
  number : ℕ
  topic : String
  (key payload : Option Bytes)
  partition : Option Int32
  deriving DecidableEq

def Delivery.records (config : KafkaSinkConfig) (start : ℕ)
    (delivery : Delivery) : List FutureRecord :=
  let messages := delivery.batches.flatMap fun batch =>
    batch.messages.map fun message => (config.topic.topicForTable batch.table, message)
  (messages.zipIdx start).map fun entry =>
    { number := entry.2, topic := entry.1.1, key := entry.1.2.key, payload := entry.1.2.value
      partition := config.partition }

/-- Why a future is ready: it is new, its delay is over, or the broker has
reported. -/
inductive Wake
  | first
  | retry
  | report (result : Except String Unit)

inductive Phase
  | idle
  | writing (id : ℕ)
  | failed (error : String)
  | closed

/-- The session, with the history of the producer's queue, of the broker's
confirmations and of the deliveries received. -/
structure Session where
  input : List Delivery
  phase : Phase
  todo : List FutureRecord
  ready : List (Wake × FutureRecord)
  (sleeping queued : List FutureRecord)
  awaiting : Bool
  (queue confirmed : List FutureRecord)
  received : List (ℕ × List FutureRecord)
  events : List ℕ

def Session.start (input : List Delivery) : Session :=
  ⟨input, .idle, [], [], [], [], false, [], [], [], []⟩

/-- The producer's answer to an offered record. -/
inductive SendAnswer
  | enqueued
  | queueFull
  | refused (error : String)

inductive Label
  | receive (serialized : Except String Unit)
  | cancel
  | push
  | poll (answer : SendAnswer)
  | delayOver (place : ℕ)
  | report (place : ℕ) (result : Except String Unit)
  | commit (listening : Bool)

namespace Session
variable (config : KafkaSinkConfig) (s : Session)

def accepted : List FutureRecord := s.received.flatMap Prod.snd

def pending : ℕ := s.ready.length + s.sleeping.length + s.queued.length

def deliveryFailed (error : String) : String := s!"Kafka delivery failed: {error}"

def offer (rest : List (Wake × FutureRecord)) (record : FutureRecord) : SendAnswer → Session
  | .enqueued =>
    { s with ready := rest, queued := s.queued ++ [record], queue := s.queue ++ [record] }
  | .queueFull => { s with ready := rest, sleeping := s.sleeping ++ [record] }
  | .refused error => { s with phase := .failed (deliveryFailed error) }

/-- One poll of the set, while the loop waits for a future to finish. -/
def poll (answer : SendAnswer) : Option Session :=
  match s.ready with
  | [] => none
  | (.first, record) :: rest => some (s.offer rest record answer)
  | (.retry, record) :: rest => some (s.offer rest record answer)
  | (.report (.ok _), record) :: rest =>
    some { s with ready := rest, confirmed := s.confirmed ++ [record], awaiting := false }
  | (.report (.error error), _) :: _ => some { s with phase := .failed (deliveryFailed error) }

def step : Label → Option Session
  | .receive serialized =>
    match s.phase, s.input with
    | .idle, delivery :: rest =>
      match serialized with
      | .error error => some { s with phase := .failed error }
      | .ok _ =>
        let records := delivery.records config s.accepted.length
        some
          { s with
            input := rest, phase := .writing delivery.id, todo := records
            received := s.received ++ [(delivery.id, records)] }
    | _, _ => none
  | .cancel =>
    match s.phase with
    | .idle => some { s with phase := .closed }
    | _ => none
  | .push =>
    match s.phase, s.awaiting, s.todo with
    | .writing _, false, record :: rest =>
      some
        { s with
          todo := rest, ready := s.ready ++ [(.first, record)]
          awaiting := decide (config.maxInFlight ≤ s.pending + 1) }
    | _, _, _ => none
  | .poll answer =>
    match s.phase with
    | .writing _ => if s.awaiting || s.todo.isEmpty then s.poll answer else none
    | _ => none
  | .delayOver place =>
    match s.phase, s.sleeping[place]? with
    | .writing _, some record =>
      some { s with sleeping := s.sleeping.eraseIdx place, ready := s.ready ++ [(.retry, record)] }
    | _, _ => none
  | .report place result =>
    match s.phase, s.queued[place]? with
    | .writing _, some record =>
      some
        { s with queued := s.queued.eraseIdx place, ready := s.ready ++ [(.report result, record)] }
    | _, _ => none
  | .commit listening =>
    match s.phase with
    | .writing id =>
      if s.todo = [] ∧ s.pending = 0 then
        if listening then
          some { s with phase := .idle, awaiting := false, events := s.events ++ [id] }
        else some { s with phase := .failed "Kafka sink event receiver closed" }
      else none
    | _ => none

end Session
end Transferia.Kafka
