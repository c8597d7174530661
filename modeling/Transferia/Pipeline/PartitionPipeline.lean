import Transferia.Pipeline.Admission
import Transferia.Pipeline.RowCount

/-!
# Reader, parser and sink of one partition

The reader numbers the batches of the source, keeps a ledger of uncommitted
deliveries and commits source markers when the sink acknowledges them; the
parser turns envelopes into deliveries.  Source, parser session, middlewares and
sink are arbitrary: what they answer is the label of the step.  No step reads
`PipelineTrace`.
-/

namespace Transferia.Pipeline
open Support
variable {M : Type*}

/-! ## Data -/

structure SourceTable where
  rows : ℕ
  bytes : ℕ

/-- What a read returns.  A message is its length in bytes, and `reserved` says
that the source has accounted for the memory of the batch itself. -/
inductive SourceBatch (M : Type*) where
  | finished
  | dataset (marker : M) (reserved : Bool)
  | raw (messages : List ℕ) (marker : Option M) (reserved : Bool)
  | typed (tables : List SourceTable) (sourceRows : ℕ) (marker : Option M) (reserved : Bool)

namespace SourceBatch

def isFinished : SourceBatch M → Bool
  | finished => true
  | _ => false

def isDataset : SourceBatch M → Bool
  | dataset _ _ => true
  | _ => false

def marker : SourceBatch M → Option M
  | finished => none
  | dataset marker _ => some marker
  | raw _ marker _ => marker
  | typed _ _ marker _ => marker

def memoryReserved : SourceBatch M → Bool
  | finished => false
  | dataset _ reserved => reserved
  | raw _ _ reserved => reserved
  | typed _ _ _ reserved => reserved

def sourcePayloadBytes : SourceBatch M → ℕ
  | finished => 0
  | dataset _ _ => 0
  | raw messages _ _ => messages.sum
  | typed tables _ _ _ => (tables.map SourceTable.bytes).sum

def sourceMessages : SourceBatch M → ℕ
  | finished => 0
  | dataset _ _ => 0
  | raw messages _ _ => messages.length
  | typed _ sourceRows _ _ => sourceRows

def payloadIsEmpty : SourceBatch M → Bool
  | finished => false
  | dataset _ _ => false
  | raw messages _ _ => messages.isEmpty
  | typed tables _ _ _ => tables.all (·.rows == 0)

end SourceBatch

structure ReadEnvelope where
  id : ℕ
  isDataset : Bool
  sourceMessages : ℕ

structure CommitEntry (M : Type*) where
  id : ℕ
  marker : Option M

/-- The marker of an entry, with the delivery it belongs to. -/
def CommitEntry.marked (entry : CommitEntry M) : Option (ℕ × M) :=
  entry.marker.map fun marker => (entry.id, marker)

/-- What the parser hands on: a dataset to admit or a delivery to write. -/
inductive ParserOutput where
  | dataset (id : ℕ)
  | deliver (id : ℕ) (outputs : List OutputBatch) (sourceMessages : ℕ)

def ParserOutput.id : ParserOutput → ℕ
  | dataset id => id
  | deliver id _ _ => id

/-! ## Processes -/

inductive ReaderCompletion where
  | cancelled
  | finiteSourceDrained

/-- The places where the reader waits. -/
inductive ReaderPoint (M : Type*) where
  | reading
  | polling (batch : SourceBatch M)
  | finishing
  | backingOff
  | reserving (batch : SourceBatch M)
  | sending (envelope : ReadEnvelope)
  | admitting

/-- While `committing` the reader waits for the source to commit the markers
through a delivery; afterwards it goes on at the point where the event was
received. -/
inductive ReaderState (M : Type*) where
  | waiting (point : ReaderPoint M)
  | committing (through : ℕ) (point : ReaderPoint M)
  | returned (result : Except String ReaderCompletion)

inductive ParserState where
  | receiving
  | parsing (envelope : ReadEnvelope)
  | delivering (output : ParserOutput)
  | returned (result : Except String Unit)

structure PipelineTrace (M : Type*) where
  emitted : List (CommitEntry M)
  acknowledged : List ℕ
  submitted : List (List (ℕ × M))
  succeeded : List (List (ℕ × M))
  committedThrough : ℕ

structure PipelineState (M : Type*) where
  cancelled : Bool
  reader : ReaderState M
  nextId : ℕ
  ledger : List (CommitEntry M)
  toParser : List ReadEnvelope
  parser : ParserState
  evolving : Bool
  toSink : List ParserOutput
  sinkRunning : Bool
  received : List ℕ
  events : List ℕ
  rowCounts : Option OutputRowCounts
  committedGroups : ℕ
  finiteSourceDrained : Bool
  trace : PipelineTrace M

namespace PipelineState

def start (evolving : Bool) (rowCounts : Option OutputRowCounts) : PipelineState M :=
  { cancelled := false
    reader := .waiting .reading, nextId := 1, ledger := [], toParser := [], parser := .receiving
    evolving, toSink := []
    sinkRunning := true, received := [], events := [], rowCounts, committedGroups := 0
    finiteSourceDrained := false
    trace :=
      { emitted := []
        acknowledged := [], submitted := [], succeeded := [], committedThrough := 0 } }

variable (state : PipelineState M)

def failReader (error : String) : PipelineState M :=
  { state with reader := .returned (.error error) }

/-- The reader is alive and holds the receiver of the events. -/
def readerRunning : Bool :=
  match state.reader with
  | .returned _ => false
  | _ => true

/-- The reader still holds its end of the channel to the parser. -/
def outputOpen : Bool :=
  match state.reader with
  | .returned _ => false
  | .waiting .finishing => false
  | .committing _ .finishing => false
  | _ => true

def parserRunning : Bool :=
  match state.parser with
  | .returned _ => false
  | _ => true

/-! ## Committing through an acknowledged delivery -/

variable (ledger : List (CommitEntry M))

def validRange (committed : ℕ) : Bool :=
  match ledger.head?, ledger.getLast? with
  | some first, some last => decide (first.id ≤ committed) && decide (committed ≤ last.id)
  | _, _ => false

def debugId : Option ℕ → String
  | none => "None"
  | some id => "Some(" ++ toString id ++ ")"

section
variable (committed : ℕ)

def unknownDelivery : String :=
  "sink committed unknown delivery " ++ toString committed ++ "; outstanding range is " ++
    debugId (ledger.head?.map CommitEntry.id) ++ "..=" ++
    debugId (ledger.getLast?.map CommitEntry.id)

def committedEntries : ℕ :=
  (ledger.takeWhile fun entry => decide (entry.id ≤ committed)).length

def markers : List (ℕ × M) :=
  (ledger.take (committedEntries ledger committed)).filterMap CommitEntry.marked

def finishCommit (point : ReaderPoint M) : PipelineState M :=
  match state.rowCounts.mapM fun counts => counts.commitThrough committed with
  | .error error => state.failReader error
  | .ok rowCounts =>
    { state with
      reader := .waiting point, rowCounts
      ledger := state.ledger.drop (committedEntries state.ledger committed)
      trace := { state.trace with committedThrough := committed } }

def commitThrough (point : ReaderPoint M) : PipelineState M :=
  if validRange state.ledger committed then
    match state.rowCounts.mapM fun counts =>
        counts.validateCommitThrough committed with
    | .error error => state.failReader error
    | .ok _ =>
      if (markers state.ledger committed).isEmpty then
        state.finishCommit committed point
      else
        { state with
          reader := .committing committed point, trace := { state.trace with
            submitted := state.trace.submitted ++ [markers state.ledger committed] } }
  else state.failReader (unknownDelivery state.ledger committed)

def commitFailed (error : String) : String :=
  "source commit failed through delivery " ++ toString committed ++ ": " ++ error

end

def commitReturns (result : Except String Unit) : Option (PipelineState M) :=
  match state.reader with
  | .committing committed point =>
    match result with
    | .error error => some (state.failReader (commitFailed committed error))
    | .ok _ =>
      some (finishCommit { state with
            committedGroups := state.committedGroups + 1, trace := { state.trace with
              succeeded := state.trace.succeeded ++ [markers state.ledger committed] } }
          committed point)
  | _ => none

/-! ## Reader -/

/-- The waits in which the reader takes an event of the sink, with the point
where it goes on. -/
def listening : ReaderPoint M → Option (ReaderPoint M)
  | .reading => none
  | .polling batch => some (.polling batch)
  | .finishing => some .finishing
  | .backingOff => some .reading
  | .reserving batch => some (.reserving batch)
  | .sending envelope => some (.sending envelope)
  | .admitting => some .admitting

/-- The loops that wait for the ledger do not look at events once it is
empty. -/
def awaitsLedger : ReaderPoint M → Bool
  | .finishing => true
  | .admitting => true
  | _ => false

def receiveEvent : Option (PipelineState M) :=
  match state.reader, state.events with
  | .waiting point, committed :: rest =>
    if awaitsLedger point && state.ledger.isEmpty then none
    else
      match listening point with
      | none => none
      | some next => some (commitThrough { state with events := rest } committed next)
  | _, _ => none

/-- The error of each wait when the sink has dropped its end. -/
def eventsClosedError : ReaderPoint M → Option String
  | .finishing => some "sink event stream closed before source completion"
  | .reserving _ => some "sink event stream closed while reserving source memory"
  | .sending _ => some "sink event stream closed"
  | .admitting => some "sink closed during dataset admission"
  | _ => none

def eventsClosed : Option (PipelineState M) :=
  match state.reader, state.sinkRunning, state.events with
  | .waiting .backingOff, false, [] => some { state with reader := .waiting .reading }
  | .waiting point, false, [] =>
    if awaitsLedger point && state.ledger.isEmpty then none
    else (eventsClosedError point).map state.failReader
  | _, _, _ => none

def read (result : Except String (SourceBatch M)) : Option (PipelineState M) :=
  match state.reader with
  | .waiting .reading =>
    match result with
    | .error error => some (state.failReader error)
    | .ok batch => some { state with reader := .waiting (.polling batch) }
  | _ => none

/-- Every wait of the reader but the poll of the events and the call of the
source is abandoned on cancellation. -/
def cancelReader : Option (PipelineState M) :=
  match state.cancelled, state.reader with
  | true, .waiting (.polling _) => none
  | true, .waiting point =>
    if awaitsLedger point && state.ledger.isEmpty then none
    else some { state with reader := .returned (.ok .cancelled) }
  | _, _ => none

def emitBatch (batch : SourceBatch M) : PipelineState M :=
  { state with
    ledger := state.ledger ++ [{ id := state.nextId, marker := batch.marker }]
    nextId := state.nextId + 1, reader := .waiting
      (.sending
        { id := state.nextId
          isDataset := batch.isDataset, sourceMessages := batch.sourceMessages })
    trace := { state.trace with
      emitted := state.trace.emitted ++ [{ id := state.nextId, marker := batch.marker }] } }

/-- No event is ready any more: the reader turns to the batch it has read. -/
def afterPoll : Option (PipelineState M) :=
  match state.reader, state.events with
  | .waiting (.polling batch), [] =>
    if batch.isFinished then some { state with reader := .waiting .finishing }
    else if batch.payloadIsEmpty && batch.marker.isNone then
      some { state with reader := .waiting .backingOff }
    else if !batch.memoryReserved && decide (0 < batch.sourcePayloadBytes)
    then some { state with reader := .waiting (.reserving batch) }
    else some (state.emitBatch batch)
  | _, _ => none

def backoffElapsed : Option (PipelineState M) :=
  match state.reader with
  | .waiting .backingOff => some { state with reader := .waiting .reading }
  | _ => none

/-- Source memory is granted only when neither cancellation nor an event is
ready. -/
def memoryGranted : Option (PipelineState M) :=
  match state.reader, state.cancelled, state.events with
  | .waiting (.reserving batch), false, [] => some (state.emitBatch batch)
  | _, _, _ => none

def sendEnvelope : Option (PipelineState M) :=
  match state.reader with
  | .waiting (.sending envelope) =>
    if state.parserRunning then
      if state.toParser.length < channelCapacity then
        some
          { state with
            toParser := state.toParser ++ [envelope], reader := .waiting
              (if envelope.isDataset then .admitting else .reading) }
      else none
    else some (state.failReader "parser input closed")
  | _ => none

/-- The loops that wait for the ledger end when it is empty. -/
def ledgerDrained : Option (PipelineState M) :=
  match state.reader, state.ledger with
  | .waiting .finishing, [] =>
    some { state with finiteSourceDrained := true, reader := .returned (.ok .finiteSourceDrained) }
  | .waiting .admitting, [] => some { state with reader := .waiting .reading }
  | _, _ => none

/-! ## Parser -/

def stopParser (result : Except String Unit) : PipelineState M :=
  { state with parser := .returned result }

def parserReceive : Option (PipelineState M) :=
  match state.parser, state.cancelled, state.toParser with
  | .receiving, false, envelope :: rest =>
    some { state with toParser := rest, parser := .parsing envelope }
  | _, _, _ => none

def parserInputClosed : Option (PipelineState M) :=
  match state.parser, state.outputOpen, state.toParser with
  | .receiving, false, [] => some (state.stopParser (.ok ()))
  | _, _, _ => none

/-- Cancellation is seen before an envelope is taken and while memory is
awaited for a parse. -/
def cancelParser : Option (PipelineState M) :=
  match state.cancelled, state.parser with
  | true, .receiving => some (state.stopParser (.ok ()))
  | true, .parsing envelope =>
    if envelope.isDataset then none else some (state.stopParser (.ok ()))
  | _, _ => none

def observe (id : ℕ) (outputs : List OutputBatch) (output : ParserOutput) : PipelineState M :=
  match state.rowCounts.mapM fun counts =>
      counts.observeDelivery id outputs with
  | .error error => state.stopParser (.error error)
  | .ok rowCounts => { state with rowCounts, parser := .delivering output }

/-- Parser session and middlewares answer with the output batches or fail. -/
def parse (result : Except String (List OutputBatch)) : Option (PipelineState M) :=
  match state.parser with
  | .parsing envelope =>
    if envelope.isDataset then
      some (state.observe envelope.id [] (.dataset envelope.id))
    else
      match result with
      | .error error => some (state.stopParser (.error error))
      | .ok outputs =>
        some (observe (if state.evolving then
              { state with
                rowCounts := state.rowCounts.map (·.admitDatasets outputs) }
            else state)
            envelope.id outputs
            (.deliver envelope.id outputs envelope.sourceMessages))
  | _ => none

def missingCoordinator : String :=
  "source emitted a dataset without a configured admission coordinator"

def sinkInputClosed : ParserOutput → Except String Unit
  | .dataset _ => .error "dataset admission channel closed"
  | .deliver _ _ _ => .ok ()

def sendOutput : Option (PipelineState M) :=
  match state.parser with
  | .delivering output =>
    match state.evolving, output with
    | false, .dataset _ => some (state.stopParser (.error missingCoordinator))
    | _, _ =>
      if state.sinkRunning then
        if state.toSink.length < channelCapacity then
          some { state with toSink := state.toSink ++ [output], parser := .receiving }
        else none
      else some (state.stopParser (sinkInputClosed output))
  | _ => none

/-! ## Sink -/

def sinkReceive : Option (PipelineState M) :=
  match state.sinkRunning, state.toSink with
  | true, output :: rest =>
    some { state with toSink := rest, received := state.received ++ [output.id] }
  | _, _ => none

def acknowledge (id : ℕ) : Option (PipelineState M) :=
  if state.sinkRunning && state.readerRunning &&
      decide (id ∈ state.received) &&
      decide (state.events.length < channelCapacity) then
    some
      { state with
        events := state.events ++ [id]
        trace := { state.trace with acknowledged := state.trace.acknowledged ++ [id] } }
  else none

def sinkStops : Option (PipelineState M) :=
  if state.sinkRunning then some { state with sinkRunning := false } else none

end PipelineState

/-! ## Interleavings -/

inductive PipelineLabel (M : Type*) where
  | cancel
  | read (result : Except String (SourceBatch M))
  | receiveEvent
  | commitReturns (result : Except String Unit)
  | eventsClosed
  | cancelReader
  | afterPoll
  | backoffElapsed
  | memoryGranted
  | sendEnvelope
  | ledgerDrained
  | parserReceive
  | parserInputClosed
  | cancelParser
  | parse (result : Except String (List OutputBatch))
  | sendOutput
  | sinkReceive
  | acknowledge (id : ℕ)
  | sinkStops

namespace PipelineState

def step (state : PipelineState M) : PipelineLabel M → Option (PipelineState M)
  | .cancel => some { state with cancelled := true }
  | .read result => state.read result
  | .receiveEvent => state.receiveEvent
  | .commitReturns result => state.commitReturns result
  | .eventsClosed => state.eventsClosed
  | .cancelReader => state.cancelReader
  | .afterPoll => state.afterPoll
  | .backoffElapsed => state.backoffElapsed
  | .memoryGranted => state.memoryGranted
  | .sendEnvelope => state.sendEnvelope
  | .ledgerDrained => state.ledgerDrained
  | .parserReceive => state.parserReceive
  | .parserInputClosed => state.parserInputClosed
  | .cancelParser => state.cancelParser
  | .parse result => state.parse result
  | .sendOutput => state.sendOutput
  | .sinkReceive => state.sinkReceive
  | .acknowledge id => state.acknowledge id
  | .sinkStops => state.sinkStops

end PipelineState
end Transferia.Pipeline
