import Transferia.Core.Failure
import Transferia.Postgres.ReplicationReader
import Transferia.Support.Trace
import Transferia.Support.Transition

/-!
# The replication source

The source peeks at a logical replication slot and moves the slot when its
batches are acknowledged.  The slot is an append-only list of committed
transactions with a confirmed position.  A read is a loop whose rounds are
separate steps, so that the server can commit transactions between them.  A
commit takes markers of batches that the source has returned before.  The label
of a step carries what the server and the lease answer.
-/

namespace Transferia.Postgres
open Transferia.Core Support
variable {T D : Type}

/-- What the run shows to an observer. -/
inductive SourceEvent (D : Type)
  | peeked (lsns : List ℕ)
  | emitted (batch : QueuedBatch D)
  | committed (lsn : ℕ) (markers : List ℕ)

inductive SourcePhase
  | idle
  | reading
  | stopped (failure : DataPlaneFailure)

structure SourceState (catalog : ReplicationCatalog T D) where
  reader : ReplicationReader D
  slot : List (SlotTransaction catalog)
  /-- The position of the slot on the server. -/
  confirmedLsn : ℕ
  phase : SourcePhase
  trace : List (SourceEvent D)

/-- How the server answers a peek: an error of the connection or of the checks
made with it, or the first `count` transactions after the slot position. -/
inductive PeekAnswer
  | failed (failure : DataPlaneFailure)
  | page (count : ℕ)

inductive CommitAnswer
  | leaseLost
  | storeFailed (message : String)
  | advanceFailed (applied : Bool) (message : String)
  | advanced

/-- Markers of this source carry an LSN; others belong to another source. -/
inductive Marker
  | replication (lsn : ℕ)
  | foreign (typeName : String)

def Marker.lsn? : Marker → Except String ℕ
  | .replication lsn => .ok lsn
  | .foreign typeName => .error
      ("commit marker type mismatch: expected 'ReplicationMarker', received '" ++ typeName ++ "'")

inductive SourceLabel (catalog : ReplicationCatalog T D)
  | append (transaction : SlotTransaction catalog)
  | callRead
  | round (leaseHeld : Bool) (answer : PeekAnswer)
  | cancelRead
  | commit (markers : List Marker) (answer : CommitAnswer)

def leaseLost : DataPlaneFailure := ⟨.fatal, "PostgreSQL replication execution lease was lost; " ++
    "refusing further reads or acknowledgements"⟩

def emittedLsns (trace : List (SourceEvent D)) : List ℕ :=
  trace.filterMap fun event =>
    match event with
    | .emitted batch => some batch.lsn
    | _ => none

namespace SourceState
variable {catalog : ReplicationCatalog T D}

def start (slot : List (SlotTransaction catalog)) (startLsn : ℕ) : SourceState catalog :=
  { reader :=
      { pgoutput := .new, pending := [], lastPeekLsn := startLsn, committedLsn := startLsn }
    slot, confirmedLsn := startLsn
    phase := .idle, trace := [] }

variable (s : SourceState catalog)

def stop (failure : DataPlaneFailure) : SourceState catalog := { s with phase := .stopped failure }

def append (transaction : SlotTransaction catalog) : Option (SourceState catalog) :=
  if ∀ earlier ∈ s.slot, earlier.endLsn < transaction.endLsn then
    some { s with slot := s.slot ++ [transaction] }
  else none

def callRead : Option (SourceState catalog) :=
  match s.phase with
  | .idle => some { s with phase := .reading }
  | _ => none

/-- The queue is empty: an uncommitted page ends the call with an empty batch,
otherwise the call sleeps and goes on. -/
def afterRefill : SourceState catalog :=
  if s.reader.pending.isEmpty && decide (s.reader.committedLsn < s.reader.lastPeekLsn) then
    { s with phase := .idle }
  else s

def page (count : ℕ) : List (SlotTransaction catalog) :=
  (s.slot.filter (s.confirmedLsn < ·.endLsn)).take count

variable (decoder : LogicalDecoder)
section
variable (s : SourceState catalog) (leaseHeld : Bool) (answer : PeekAnswer)

def refill : SourceState catalog :=
  if leaseHeld then
    if s.reader.committedLsn < s.reader.lastPeekLsn then s.afterRefill
    else
      match answer with
      | .failed failure => s.stop failure
      | .page count =>
        let page := s.page count
        let peeked : SourceState catalog :=
          { s with trace := s.trace ++ [.peeked (page.map SlotTransaction.endLsn)] }
        match s.reader.processRows catalog decoder (page.flatMap (·.rows decoder)) with
        | .error message => peeked.stop ⟨.fatal, message⟩
        | .ok reader => { peeked with reader }.afterRefill
  else s.stop leaseLost

def round : Option (SourceState catalog) :=
  match s.phase with
  | .reading =>
    match s.reader.pending with
    | batch :: rest =>
      let popped := { s with reader := { s.reader with pending := rest } }
      if leaseHeld then some { popped with phase := .idle, trace := s.trace ++ [.emitted batch] }
      else some (popped.stop leaseLost)
    | [] => some (s.refill decoder leaseHeld answer)
  | _ => none

end

/-- The sleep of a read sees the cancellation; the call returns `Finished`. -/
def cancelRead : Option (SourceState catalog) :=
  match s.phase with
  | .reading => some { s with phase := .idle }
  | _ => none

def advance (lsn : ℕ) (lsns : List ℕ) : CommitAnswer → SourceState catalog
  | .leaseLost => s.stop leaseLost
  | .storeFailed message => s.stop ⟨.fatal, message⟩
  | .advanceFailed applied message =>
    { s with confirmedLsn := if applied then lsn else s.confirmedLsn }.stop ⟨.fatal, message⟩
  | .advanced =>
    { s with
      confirmedLsn := lsn, reader := { s.reader with committedLsn := lsn }
      trace := s.trace ++ [.committed lsn lsns] }

/-- Markers are those of returned batches, or of another source. -/
def returned (marker : Marker) : Bool :=
  match marker with
  | .replication lsn => lsn ∈ emittedLsns s.trace
  | .foreign _ => true

def commit (markers : List Marker) (answer : CommitAnswer) : Option (SourceState catalog) :=
  match s.phase with
  | .idle =>
    if markers.all s.returned then
      match markers.mapM Marker.lsn? with
      | .error message => some (s.stop ⟨.fatal, message⟩)
      | .ok lsns =>
        match s.reader.commitTarget lsns with
        | .error message => some (s.stop ⟨.fatal, message⟩)
        | .ok lsn => some (s.advance lsn lsns answer)
    else none
  | _ => none

def step (s : SourceState catalog) : SourceLabel catalog → Option (SourceState catalog)
  | .append transaction => s.append transaction
  | .callRead => s.callRead
  | .round leaseHeld answer => s.round decoder leaseHeld answer
  | .cancelRead => s.cancelRead
  | .commit markers answer => s.commit markers answer

end SourceState
end Transferia.Postgres
