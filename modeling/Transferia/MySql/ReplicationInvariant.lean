import Transferia.MySql.ReplicationProgress

/-!
# The invariant of the replication runs

A record covers a prefix of the missing transactions, and a process is at two
prefixes at once: the one that it has committed and the one that it has
emitted.  Between the two at most one transaction creates a table of the
delivery, and it is the last one.
-/

namespace Transferia.MySql
open List Registry Support
open MySqlReplicationSource (groupChanges)
variable {Raw Value : Type}

abbrev tableNames (tables : List AuthoritativeTableIdentity) : List TableName :=
  tables.map AuthoritativeTableIdentity.name

variable (setting : ReplicationSetting Raw Value)

/-- A record, with the number of transactions that it covers. -/
def RecordAt (origin : ReplicationOffsetState) (entry : ℕ × ReplicationOffsetState) : Prop :=
  After setting origin entry.1 entry.2.committedPosition
    entry.2.committedGtids (tableNames entry.2.authoritativeTables)

/-- The second record replaces the first.  It covers more transactions, and a
table of the delivery that one of them creates is created by the last. -/
structure Advance (origin : ReplicationOffsetState) (old new : ℕ × ReplicationOffsetState) :
    Prop where
  lt : old.1 < new.1
  admission : ∀ place transaction, old.1 ≤ place → place < new.1 →
    (setting.missing origin.committedGtids)[place]? = some transaction →
    (setting.admitted transaction).isSome → new.1 = place + 1

def StartsFrom (origin : ReplicationOffsetState) : Prop := ∃ tables boundary executed purged,
    initialState setting.parser setting.identity tables boundary executed purged = .ok origin

/-- Where the storage still has this revision, it still has this record. -/
def Based (run : ReplicationRun Raw Value) (revision : ℕ) (entry : ℕ × ReplicationOffsetState) :
    Prop :=
  ∃ current, run.storage replicationOffsetStateKey = some current ∧ revision ≤ current.revision ∧
    (current.revision = revision → run.written.getLast? = some entry)

section
variable (origin : ReplicationOffsetState) (run : ReplicationRun Raw Value)

structure LateWriteOk (late : LateWrite) (revision : ℕ) : Prop where
  record : RecordAt setting origin (late.index, late.payload)
  acknowledged : late.index ≤ run.acknowledged
  base : ∃ entry, Based run revision entry ∧ Advance setting origin entry (late.index, late.payload)

/-- The records of a run. -/
structure Stored : Prop where
  starts : StartsFrom setting origin
  first : run.written.head? = some (0, origin)
  current : ∃ current index, run.storage replicationOffsetStateKey = some current ∧
    run.written.getLast? = some (index, current.payload)
  records : ∀ entry ∈ run.written, RecordAt setting origin entry ∧ entry.1 ≤ run.acknowledged
  chain : run.written.IsChain (Advance setting origin)
  late : ∀ late ∈ run.lateWrites,
    ∀ revision, late.expectedRevision = some revision → LateWriteOk setting origin run late revision

end

/-- Before the first record is stored. -/
structure Fresh (run : ReplicationRun Raw Value) : Prop where
  storage : run.storage replicationOffsetStateKey = none
  source : run.source = none
  written : run.written = []
  emitted : run.emitted = []
  accepted : run.accepted = []
  started : run.startedAt = 0
  complete : run.completeAtRead = 0
  late : ∀ late ∈ run.lateWrites, late.expectedRevision = none ∧
    late.index = 0 ∧ StartsFrom setting late.payload

/-- A batch carries the selected rows of one transaction in the order of its
log, and its marker leads from the state before the transaction to the state
after it. -/
structure EmissionOf (origin : ReplicationOffsetState) (index : ℕ) (batch : SourceBatch Value)
    (transaction : LoggedTransaction Raw) (tables : List AuthoritativeTableIdentity)
    (changes : List (BufferedRowChange Value)) : Prop where
  place : (setting.missing origin.committedGtids)[index]? = some transaction
  previous : After setting origin index batch.commitMarker.previousPosition
    batch.commitMarker.previousGtids (tableNames tables)
  next : After setting origin (index + 1) batch.commitMarker.nextPosition
    batch.commitMarker.nextGtids (tableNames tables ++ (setting.admitted transaction).toList)
  rows : List.Forall₂ (MySqlReplicationSource.ChangeOf setting.library tables)
    changes (selectedRows (tableNames tables) [] transaction.body)
  numbers : changes.map BufferedRowChange.messageIndex = range changes.length
  groups : batch.tables = groupChanges tables changes
  complete : (batch.tables.flatMap TableChanges.changes).Perm changes

def EmittedAt (origin : ReplicationOffsetState) (index : ℕ) (batch : SourceBatch Value) : Prop :=
  ∃ transaction tables changes, EmissionOf setting origin index batch transaction tables changes

section
variable (origin : ReplicationOffsetState) (run : ReplicationRun Raw Value)

/-- What the current or the last process has done. -/
structure Observed : Prop where
  accepted : run.accepted.flatten = range run.committed
  le : run.committed ≤ run.emitted.length
  batches : ∀ place batch, run.emitted[place]? = some batch →
    EmittedAt setting origin (run.startedAt + place) batch
  complete : run.completeAtRead ≤ run.startedAt + run.emitted.length
  waited : ∀ place transaction, place < run.completeAtRead →
    (setting.missing origin.committedGtids)[place]? = some transaction →
    (setting.admitted transaction).isSome → place < run.startedAt + run.committed
  requested : run.emitted ≠ [] → ∃ position tables,
    After setting origin run.startedAt position run.requested tables

/-- The table that waits for the commit of its transaction. -/
structure PendingAt (pending : PendingTable) : Prop where
  uncommitted : run.committed < run.emitted.length
  creates : ∃ transaction, (setting.missing origin.committedGtids)[ run.startedAt +
    (run.emitted.length - 1)]? = some transaction ∧ transaction.endPosition = pending.position ∧
    setting.admitted transaction = some pending.table.name

structure Process (source : MySqlReplicationSource Value) : Prop where
  based : Based run source.offsetTracker.revision
    (run.startedAt + run.committed, source.offsetTracker.identity)
  position : source.offsetTracker.identity.committedPosition = source.committedPosition
  gtids : source.offsetTracker.identity.committedGtids = source.committedGtids
  tables : source.offsetTracker.identity.authoritativeTables = source.tables
  committed : After setting origin (run.startedAt + run.committed)
    source.committedPosition source.committedGtids (tableNames source.tables)
  emitted : After setting origin
    (run.startedAt + run.emitted.length) source.emittedPosition source.emittedGtids
    (tableNames source.tables ++ (source.pendingTable.map (·.table.name)).toList)
  selected : source.decoder.selectedTables = some (tableNames source.tables)
  pending : ∀ pending, source.pendingTable = some pending → PendingAt setting origin run pending
  unadmitted : ∀ place transaction, run.startedAt + run.committed ≤ place →
    place < run.startedAt + run.emitted.length → (setting.missing origin.committedGtids)[place]? =
    some transaction → (setting.admitted transaction).isSome →
    source.pendingTable.isSome = true ∧ place + 1 = run.startedAt + run.emitted.length
  requested : ∃ position tables, After setting origin run.startedAt position run.requested tables

/-- The source has read the events of `done`. -/
structure Inside (connection : Connection Raw) (source : MySqlReplicationSource Value)
    (transaction : LoggedTransaction Raw) (done : List (BinlogEvent Raw))
    (active : BufferedTransaction Value) : Prop where
  file : connection.file = some transaction.file
  body :
    ∃ rest, transaction.body = done ++ rest ∧ connection.current = rest ++ [transaction.endEvent]
  buffering : source.active = some active
  identity : active.marker.identity = .gtid transaction.gtid
  buffered : MySqlReplicationSource.Buffered setting.library source.tables
    (selectedRows (tableNames source.tables) [] done) active
  tableMaps : source.decoder.tableMaps = tableMapsAfter [] done
  pending : source.pendingTable = none

/-- Where the source is in the log.  `remaining` are the transactions whose end
it has not read. -/
inductive Place (connection : Connection Raw) (source : MySqlReplicationSource Value) :
    List (LoggedTransaction Raw) → Prop
  | between (hcurrent : connection.current = []) (hactive : source.active = none)
      (htableMaps : source.decoder.tableMaps = []) : Place connection source connection.upcoming
  | inside (transaction : LoggedTransaction Raw) (done : List (BinlogEvent Raw))
      (active : BufferedTransaction Value) (hinside : Inside setting connection
      source transaction done active) : Place connection source (transaction :: connection.upcoming)

/-- The reading of a source. -/
structure Reads (source : MySqlReplicationSource Value) : Prop where
  inStep : source.InStep
  file : ∀ name ∈ run.connection.file, source.decoder.currentPosition.filename = name
  place : ∃ remaining, Place setting run.connection source remaining ∧ (∀ transaction ∈ remaining,
    transaction ∈ setting.history) ∧ remaining.filter (·.commits setting.binlog) =
    (setting.missing origin.committedGtids).drop (run.startedAt + run.emitted.length)

/-- The invariant once a record is stored. -/
structure Recorded : Prop where
  stored : Stored setting origin run
  observed : Observed setting origin run
  process : ∀ source, run.source = some source →
    Process setting origin run source ∧ Reads setting origin run source

end

def RunInvariant (run : ReplicationRun Raw Value) : Prop :=
  Fresh setting run ∨ ∃ origin, Recorded setting origin run

theorem flatMap_filter_perm {α : Type} (key : α → ℕ) (values : List α) (n : ℕ) :
    ((range n).flatMap fun index => values.filter (key · = index)).Perm
      (values.filter (key · < n)) := by
  induction n with
  | zero => simp
  | succ n ih =>
    rw [range_succ, flatMap_append, flatMap_singleton]
    apply (ih.append_right _).trans
    have hsplit := filter_append_perm (key · < n) (values.filter (key · < n + 1))
    simp only [filter_filter] at hsplit
    convert hsplit using 4 <;> grind

theorem flatMap_filter_ne_nil {α β : Type} (f : α → List β) (nonempty : α → Bool) (values : List α)
    (h : ∀ value, nonempty value = false → f value = []) :
    (values.filter nonempty).flatMap f = values.flatMap f := by
  induction values with
  | nil => rfl
  | cons value rest ih =>
    rw [filter_cons, flatMap_cons, ← ih]
    split
    · rfl
    next hval => rw [h value (by simpa using hval), nil_append]

theorem groupChanges_perm {tables : List AuthoritativeTableIdentity}
    {changes : List (BufferedRowChange Value)}
    (h : ∀ change ∈ changes, change.tableIndex < tables.length) :
    ((groupChanges tables changes).flatMap TableChanges.changes).Perm changes := by
  -- A group that is left out is empty.
  have hgroups :
      (groupChanges tables changes).flatMap TableChanges.changes = (range tables.length).flatMap
      fun index => changes.filter fun change => change.tableIndex = index := by
    unfold groupChanges
    rw [flatMap_filter_ne_nil _ _ _ fun group hempty => by simpa using hempty,
      flatMap_map, range_eq_range', ← zipIdx_map_snd,
      flatMap_map]
  rw [hgroups]
  apply (flatMap_filter_perm BufferedRowChange.tableIndex changes _).trans
  rw [filter_eq_self.mpr fun change hmem => decide_eq_true (h change hmem)]

end Transferia.MySql
