import Transferia.Postgres.PgOutput
import Transferia.Support.OrderedMap

/-!
# Reading pages of a replication slot

The reader turns the rows of one peek into queued batches, one for each
transaction.  With `pgoutput` a row is one message; with `wal2json` it is a
whole transaction.  JSON decoding, the checks of a change against the discovered
table and the conversion to Arrow are parameters.
-/

namespace Transferia.Postgres
open List Support PgOutputDecoder

inductive LogicalDecoder
  | pgoutput
  | wal2json

structure Wal2JsonEvent where
  event : ChangeEvent
  columnNames : List String
  columnTypeOids : List ℕ
  oldKeyNames : List String
  oldKeyTypeOids : List ℕ

structure Wal2JsonTransaction where
  events : List Wal2JsonEvent
  endLsn : ℕ

/-- The part of a change that its normalization replaces. -/
structure NormalizedValues where
  values : List LogicalValue
  oldValues : Option (List LogicalValue)
  oldValuesKind : Option OldValuesKind

def ChangeEvent.withValues (event : ChangeEvent) (normalized : NormalizedValues) : ChangeEvent :=
  { event with
    values := normalized.values, oldValues := normalized.oldValues
    oldValuesKind := normalized.oldValuesKind }

/-- The discovered tables, by schema and name, and what is done with their
changes. -/
structure ReplicationCatalog (T D : Type) where
  tables : AList fun _ : String × String => T
  normalizePgoutputEvent : T → PgOutputEvent → Except String NormalizedValues
  normalizeWal2jsonEvent : T → Wal2JsonEvent → Except String NormalizedValues
  eventsToTableData : T → List ChangeEvent → Except String D
  decodeWal2json : List UInt8 → Except String Wal2JsonTransaction

structure QueuedBatch (D : Type) where
  tables : List D
  (rows lsn : ℕ)

structure ReplicationReader (D : Type) where
  pgoutput : PgOutputDecoder
  pending : List (QueuedBatch D)
  (lastPeekLsn committedLsn : ℕ)

variable {T D : Type}
namespace ReplicationCatalog
variable (catalog : ReplicationCatalog T D)

/-- Changes of tables that were not discovered are left out. -/
def normalizePgoutput (decoded : PgOutputEvent) : Except String (Option ChangeEvent) :=
  match catalog.tables.lookup (decoded.event.schema, decoded.event.table) with
  | none => .ok none
  | some table =>
    (catalog.normalizePgoutputEvent table decoded).map fun normalized =>
      some (decoded.event.withValues normalized)

def normalizeWal2json (decoded : Wal2JsonEvent) : Except String (Option ChangeEvent) :=
  match catalog.tables.lookup (decoded.event.schema, decoded.event.table) with
  | none => .ok none
  | some table =>
    (catalog.normalizeWal2jsonEvent table decoded).map fun normalized =>
      some (decoded.event.withValues normalized)

/-- The changes of discovered tables, by table in name order. -/
def groupByTable (events : List ChangeEvent) : OrderedMap (String ×ₗ String) (List ChangeEvent) :=
  events.foldl (fun groups event =>
      let key := toLex (event.schema, event.table)
      if (catalog.tables.lookup (event.schema, event.table)).isSome then
        groups.insert key ((groups.find? key).getD [] ++ [event])
      else groups)
    .empty

/-- The table data of every group and the number of rows in them. -/
def convertGroups : List ((String ×ₗ String) × List ChangeEvent) → ℕ → Except String (List D × ℕ)
  | [], rows => .ok ([], rows)
  | (key, events) :: rest, rows => do
    let table ← okOr (catalog.tables.lookup (ofLex key)) "configured PostgreSQL table disappeared"
    ensure (rows + events.length < 2 ^ 64) "PostgreSQL CDC row count overflow"
    let data ← catalog.eventsToTableData table events
    let (tables, total) ← convertGroups rest (rows + events.length)
    return (data :: tables, total)

end ReplicationCatalog
namespace ReplicationReader
variable (catalog : ReplicationCatalog T D)
section
variable (reader : ReplicationReader D)

def enqueueTransaction (events : List ChangeEvent) (lsn : ℕ) : Except String
    (ReplicationReader D) := do
  ensure (∀ event ∈ events, event.lsn = lsn) "PostgreSQL transaction contains multiple commit LSNs"
  let (tables, rows) ← catalog.convertGroups (catalog.groupByTable events).entries 0
  return { reader with
    lastPeekLsn := max reader.lastPeekLsn lsn
    pending := reader.pending ++ [{ tables, rows, lsn }] }

/-- One message of the binary protocol; only a COMMIT has events. -/
def processPgoutputRow (data : List UInt8) : Except String (ReplicationReader D) := do
  let (decoded, pgoutput) ← reader.pgoutput.decode data
  match decoded.head? with
  | none => return { reader with pgoutput }
  | some first =>
    let events ← decoded.mapM catalog.normalizePgoutput
    enqueueTransaction catalog { reader with pgoutput } events.reduceOption first.event.lsn

def processWal2jsonRow (data : List UInt8) : Except String (ReplicationReader D) := do
  let transaction ← catalog.decodeWal2json data
  let events ← transaction.events.mapM catalog.normalizeWal2json
  reader.enqueueTransaction catalog events.reduceOption transaction.endLsn

end

def processRow (decoder : LogicalDecoder) (reader : ReplicationReader D)
    (data : List UInt8) : Except String (ReplicationReader D) :=
  match decoder with
  | .pgoutput => reader.processPgoutputRow catalog data
  | .wal2json => reader.processWal2jsonRow catalog data

def processRows (decoder : LogicalDecoder) (reader : ReplicationReader D) :
    List (List UInt8) → Except String (ReplicationReader D)
  | [] => .ok reader
  | data :: rest => do
    let next ← reader.processRow catalog decoder data
    next.processRows decoder rest

/-- The position that a commit of these markers moves the slot to. -/
def commitTarget (reader : ReplicationReader D) (lsns : List ℕ) : Except String ℕ := do
  let lsn ← okOr lsns.max? "PostgreSQL replication commit has no markers"
  ensure (reader.committedLsn ≤ lsn) "PostgreSQL replication commit LSN moved backwards"
  return lsn

end ReplicationReader

/-- A complete committed transaction, as both plugins show it.  Its `pgoutput`
messages are a BEGIN, messages of other kinds, and a COMMIT with the end LSN;
its `wal2json` row decodes to a transaction with the same end LSN. -/
structure SlotTransaction (catalog : ReplicationCatalog T D) where
  endLsn : ℕ
  begin : List UInt8
  body : List (List UInt8)
  (commit row : List UInt8)
  body_tags : ∀ message ∈ body, message.head? ≠ some 0x42 ∧ message.head? ≠ some 0x43
  commit_endLsn : ∃ commitTime rest, takeCommit.run commit = .ok ((endLsn, commitTime), rest)
  row_endLsn : ∃ events, catalog.decodeWal2json row = .ok { events, endLsn }

namespace SlotTransaction
variable {catalog : ReplicationCatalog T D}

def rows (decoder : LogicalDecoder) (transaction : SlotTransaction catalog) : List (List UInt8) :=
  match decoder with
  | .pgoutput => (0x42 :: transaction.begin) :: (transaction.body ++ [0x43 :: transaction.commit])
  | .wal2json => [transaction.row]

/-- The number of row changes that `pgoutput` sends for the transaction. -/
def rowChanges (transaction : SlotTransaction catalog) : ℕ :=
  transaction.body.countP (·.head?.any isRowChange)

def queued (decoder : LogicalDecoder) (transaction : SlotTransaction catalog) : Bool :=
  match decoder with
  | .pgoutput => 0 < transaction.rowChanges
  | .wal2json => true

end SlotTransaction

namespace ReplicationReader
variable {catalog : ReplicationCatalog T D} {decoder : LogicalDecoder}
  {reader mid next : ReplicationReader D} {data : List UInt8} {transaction : PgTransaction}

/-- The batches were added to the queue. -/
structure Queues (reader next : ReplicationReader D) (batches : List (QueuedBatch D)) : Prop where
  pending_eq : next.pending = reader.pending ++ batches
  lastPeek_eq : next.lastPeekLsn = (batches.map QueuedBatch.lsn).foldl max reader.lastPeekLsn
  committed_eq : next.committedLsn = reader.committedLsn

theorem Queues.nil (hpend : next.pending = reader.pending)
    (hlastPeek : next.lastPeekLsn = reader.lastPeekLsn)
    (hcommitted : next.committedLsn = reader.committedLsn) : Queues reader next [] :=
  ⟨by simpa using hpend, hlastPeek, hcommitted⟩

theorem Queues.trans {first snd : List (QueuedBatch D)}
    (hfst : Queues reader mid first) (hsnd : Queues mid next snd) :
    Queues reader next (first ++ snd) where
  pending_eq := by rw [hsnd.pending_eq, hfst.pending_eq, append_assoc]
  lastPeek_eq := by rw [hsnd.lastPeek_eq, hfst.lastPeek_eq, map_append, foldl_append]
  committed_eq := hsnd.committed_eq.trans hfst.committed_eq

theorem enqueueTransaction_ok {evs : List ChangeEvent} {lsn : ℕ}
    (h : reader.enqueueTransaction catalog evs lsn = .ok next) :
    next.pgoutput = reader.pgoutput ∧ ∃ batch, batch.lsn = lsn ∧ Queues reader next [batch] := by
  obtain ⟨_, _, h⟩ := of_bind h
  obtain ⟨⟨tables, rows⟩, _, h⟩ := of_bind h
  cases h
  exact ⟨rfl, _, rfl, rfl, rfl, rfl⟩

theorem processRows_append {first snd : List (List UInt8)} :
    reader.processRows catalog decoder (first ++ snd) =
      (reader.processRows catalog decoder first >>=
          fun mid => mid.processRows catalog decoder snd) := by
  induction first generalizing reader with
  | nil => rfl
  | cons data rest ih =>
    rw [cons_append, processRows, processRows, bind_assoc]
    exact bind_congr fun mid => ih

theorem processRows_singleton (h : reader.processRows catalog decoder [data] = .ok next) :
    reader.processRow catalog decoder data = .ok next := by
  obtain ⟨mid, hmid, h⟩ := of_bind h
  cases h
  exact hmid

theorem processPgoutputRow_of_nil {pgoutput : PgOutputDecoder}
    (h : reader.processPgoutputRow catalog data = .ok next)
    (hdecode : reader.pgoutput.decode data = .ok ([], pgoutput)) :
    next.pgoutput = pgoutput ∧ Queues reader next [] := by
  obtain ⟨⟨decoded, after⟩, hdec, h⟩ := of_bind h
  cases hdecode.symm.trans hdec
  cases h
  exact ⟨rfl, .nil rfl rfl rfl⟩

theorem decode_of_process (h : reader.processPgoutputRow catalog data = .ok next) :
    ∃ evs pgoutput, reader.pgoutput.decode data = .ok (evs, pgoutput) := by
  obtain ⟨⟨decoded, after⟩, hdec, _⟩ := of_bind h
  exact ⟨decoded, after, hdec⟩

theorem process_begin {body : List UInt8}
    (h : reader.processPgoutputRow catalog (0x42 :: body) = .ok next) :
    Queues reader next [] ∧ ∃ txn, next.pgoutput.transaction = some txn ∧ txn.changes = [] := by
  obtain ⟨events, pgoutput, hd⟩ := decode_of_process h
  have hread : readToEnd reader.pgoutput.begin body = .ok (events, pgoutput) := hd
  obtain ⟨rfl, rest, hbegin⟩ := readToEnd_ok hread
  obtain ⟨rfl, hqueue⟩ := processPgoutputRow_of_nil h hd
  exact ⟨hqueue, begin_ok hbegin⟩

theorem process_body {msg : List UInt8} (htags : msg.head? ≠ some 0x42 ∧ msg.head? ≠ some 0x43)
    (hopen : reader.pgoutput.transaction = some transaction)
    (h : reader.processPgoutputRow catalog msg = .ok next) : Queues reader next [] ∧ ∃ changes,
      next.pgoutput.transaction = some
        { transaction with changes := transaction.changes ++ changes } ∧
      changes.length = if msg.head?.any isRowChange then 1 else 0 := by
  obtain ⟨events, pgoutput, hd⟩ := decode_of_process h
  cases msg with
  | nil => cases hd
  | cons tag payload =>
    simp only [head?_cons, ne_eq, Option.some.injEq] at htags
    have hread : readToEnd (reader.pgoutput.bodyMessage tag) payload = .ok (events, pgoutput) := by
      simpa [decode, htags] using hd
    obtain ⟨rfl, rest, hbody⟩ := readToEnd_ok hread
    obtain ⟨rfl, hqueue⟩ := processPgoutputRow_of_nil h hd
    obtain ⟨changes, he, hcount⟩ := bodyMessage_ok hbody
    exact ⟨hqueue, changes, he transaction hopen, hcount⟩

theorem process_bodies {body : List (List UInt8)}
    (htags : ∀ msg ∈ body, msg.head? ≠ some 0x42 ∧ msg.head? ≠ some 0x43)
    (hopen : reader.pgoutput.transaction = some transaction)
    (h : reader.processRows catalog .pgoutput body = .ok next) :
    Queues reader next [] ∧
    ∃ changes, next.pgoutput.transaction =
        some { transaction with changes := transaction.changes ++ changes } ∧
      changes.length = body.countP fun msg => msg.head?.any isRowChange := by
  induction body generalizing reader transaction with
  | nil =>
    cases h
    exact ⟨.nil rfl rfl rfl, [], by simpa using hopen, rfl⟩
  | cons msg rest ih =>
    obtain ⟨mid, hmid, h⟩ := of_bind h
    obtain ⟨hfst, added, hadded, hcount⟩ := process_body (htags msg mem_cons_self) hopen hmid
    obtain ⟨hrest, changes, hchanges, htotal⟩ :=
      ih (fun later hlater => htags later (mem_cons_of_mem _ hlater)) hadded h
    refine ⟨hfst.trans hrest, added ++ changes, ?_, ?_⟩
    · simpa using hchanges
    · rw [length_append, hcount, htotal, countP_cons, Nat.add_comm]

theorem process_commit {body rest : List UInt8} {endLsn : ℕ} {commitTime : ℤ}
    (hcommit : takeCommit.run body = .ok ((endLsn, commitTime), rest))
    (hopen : reader.pgoutput.transaction = some transaction)
    (h : reader.processPgoutputRow catalog (0x43 :: body) = .ok next) :
    next.pgoutput.transaction = none ∧ ∃ bs, Queues reader next bs ∧
    bs.map QueuedBatch.lsn = if transaction.changes.isEmpty then [] else [endLsn] := by
  obtain ⟨⟨decoded, after⟩, hdecode, h⟩ := of_bind h
  have hrun : Prod.fst <$> reader.pgoutput.commit.run body = .ok (decoded, after) := hdecode
  obtain ⟨⟨found, left⟩, hrun, rfl⟩ := map_eq_ok.mp hrun
  obtain ⟨closed, lsn, time, rest', micros, hclosed, htake, he, ha⟩ := commit_ok hrun
  cases hopen.symm.trans hclosed
  cases hcommit.symm.trans htake
  cases hchanges : transaction.changes with
  | nil =>
    rw [hchanges] at he
    cases he
    cases h
    exact ⟨by rw [ha], [], .nil rfl rfl rfl, rfl⟩
  | cons change changes =>
    rw [hchanges] at he
    cases he
    obtain ⟨events, _, h⟩ := of_bind h
    obtain ⟨hpgoutput, batch, hlsn, hqueue⟩ := enqueueTransaction_ok h
    refine ⟨by rw [hpgoutput, ha], [batch], ⟨?_, ?_, ?_⟩, ?_⟩
    · exact hqueue.pending_eq
    · exact hqueue.lastPeek_eq
    · exact hqueue.committed_eq
    · simpa [commitEvent] using hlsn

/-- A complete transaction queues one batch with its end LSN, or nothing when
`pgoutput` sends no row change for it. -/
theorem process_transaction {txn : SlotTransaction catalog}
    (hc : reader.pgoutput.transaction = none)
    (h : reader.processRows catalog decoder (txn.rows decoder) = .ok next) :
    next.pgoutput.transaction = none ∧ ∃ bs, Queues reader next bs ∧
    bs.map QueuedBatch.lsn = if txn.queued decoder then [txn.endLsn] else [] := by
  cases decoder with
  | wal2json =>
    have h := processRows_singleton h
    obtain ⟨decoded, hdec, h⟩ := of_bind h
    obtain ⟨events, _, h⟩ := of_bind h
    obtain ⟨found, hget⟩ := txn.row_endLsn
    cases hget.symm.trans hdec
    obtain ⟨hpgoutput, batch, hlsn, hqueue⟩ := enqueueTransaction_ok h
    exact ⟨by rw [hpgoutput, hc], [batch], hqueue, by simpa [SlotTransaction.queued] using hlsn⟩
  | pgoutput =>
    obtain ⟨begun, hbegin, h⟩ := of_bind h
    obtain ⟨hfst, opened, hopened, hempty⟩ := process_begin hbegin
    rw [processRows_append] at h
    obtain ⟨filled, hbody, h⟩ := of_bind h
    obtain ⟨hsnd, changes, hchanges, hcount⟩ := process_bodies txn.body_tags hopened hbody
    obtain ⟨time, left, hcommit⟩ := txn.commit_endLsn
    obtain ⟨hnone, bs, hthird, hlsns⟩ := process_commit hcommit hchanges (processRows_singleton h)
    refine ⟨hnone, bs, (hfst.trans hsnd).trans hthird, ?_⟩
    rw [hlsns]
    simp only [hempty, SlotTransaction.queued, SlotTransaction.rowChanges, ← hcount]
    cases changes with
    | nil | cons change changes => simp

/-- The rows of a page queue the end LSNs of its transactions, except those for
which `pgoutput` sends no row change. -/
theorem process_page {page : List (SlotTransaction catalog)}
    (hclosed : reader.pgoutput.transaction = none)
    (h : reader.processRows catalog decoder (page.flatMap (·.rows decoder)) = .ok next) :
    next.pgoutput.transaction = none ∧ ∃ bs, Queues reader next bs ∧
    bs.map QueuedBatch.lsn = (page.filter (·.queued decoder)).map SlotTransaction.endLsn := by
  induction page generalizing reader with
  | nil =>
    cases h
    exact ⟨hclosed, [], .nil rfl rfl rfl, rfl⟩
  | cons transaction rest ih =>
    rw [flatMap_cons, processRows_append] at h
    obtain ⟨mid, hmid, h⟩ := of_bind h
    obtain ⟨hmidClosed, first, hfst, hlsn⟩ := process_transaction hclosed hmid
    obtain ⟨hnextClosed, later, hlater, hlsns⟩ := ih hmidClosed h
    refine ⟨hnextClosed, first ++ later, hfst.trans hlater, ?_⟩
    rw [map_append, hlsn, hlsns, filter_cons]
    split <;> simp

end ReplicationReader
end Transferia.Postgres
