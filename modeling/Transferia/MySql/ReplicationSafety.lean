import Transferia.MySql.GtidText
import Transferia.MySql.ReplicationReads

/-!
# What holds in every run of the replication source

The first part collects what the invariant says about the durable record, the
batches and the commits.  The second part is about the GTID sets of the
markers: they cover what the source has read as long as nothing was rolled
back.
-/

namespace Transferia.MySql
open List Registry Support Nat
open ReplicationRun (step noDiscovery)
variable {Raw Value : Type} {setting : ReplicationSetting Raw Value}
  {origin : ReplicationOffsetState} {run : ReplicationRun Raw Value}

theorem runInvariant_reachable (hlog : WellFormedLog setting.history)
    (hreach : Reachable (step setting) .initial run) : RunInvariant setting run :=
  hreach.invariant (fun _ _ _ h hstep => runInvariant_step hlog h hstep) (.inl fresh_initial)

namespace SampleLog

def file : Bytes := [0x66]

def header (logPos : ℕ) : EventHeader :=
  { eventBytes := 1, logPos, timestamp := 0, serverId := 1 }

def transaction (gno position : ℕ) (ending : TransactionEnd) : LoggedTransaction Unit where
  file := file
  rotation := header 4
  gtid := { sid := Vector.replicate 16 0x11, tag := none, gno }
  start := header (position - 2)
  body := [{ header := header (position - 1), data := .query [] beginStatement }]
  ending := ending
  finish := header position

def interval (start endExclusive : ℕ) : GtidSid :=
  { sid := Vector.replicate 16 0x11, tag := none, intervals := [{ start, endExclusive }] }

def table : AuthoritativeTableIdentity where
  name := { database := [0x64], table := [0x74] }
  engine := innoDb
  columns := [{ name := [0x69], columnType := [0x69], primaryKeyOrdinal := some 1 }]

def createdTable : AuthoritativeTableIdentity :=
  { table with name := { database := [0x64], table := [0x75] } }

def createStatement : Bytes := "CREATE TABLE u(i INT PRIMARY KEY)".toUTF8.data.toList

def oneServer (history : List (LoggedTransaction Unit)) : ReplicationSetting Unit Unit where
  library :=
    { tableIdentity := fun _ => .ok ()
      createdTable := fun statement _ =>
        if statement = createStatement then some createdTable.name else none
      renameError := fun _ _ => none
      validateSelectedTableMap := fun _ _ => .ok ()
      normalizeBinlogRow := fun _ _ row => .ok row }
  parser := .ofSet [interval 1 2, interval 2 3, interval 1 3]
  identity :=
    { config := { serverId := 7, maxEvents := 10, maxTransactionBytes := 1000 }
      source := { serverUuid := "11111111-1111-1111-1111-111111111111", database := "d" }
      replayIdentity := "delivery" }
  admission :=
    { includesDatabase := fun _ => true
      classificationIssues := fun _ => []
      selectedBy := fun _ => [0]
      newTables := .includeAutomatically }
  history := history

def boundary : MySqlBinlogBoundary :=
  { filename := file, position := 4, gtidExecuted := [], sourceTimestampMicros := 0 }

def start : RunLabel Unit := .start (some boundary) [table] [] [] true

def read : RunLabel Unit := .read noDiscovery

def insertBody : List (BinlogEvent Unit) :=
  [{ header := header 97, data := .query [] beginStatement },
    { header := header 98
      data := .tableMap { tableId := 5, name := table.name, columns := 1, metadata := [] } },
    { header := header 99
      data := .rows
        { tableId := 5, columns := 1, operation := .write, partialUpdate := false
          beforeColumns := [], afterColumns := [true], rows := [(none, some [()])] } }]

def committed : List (LoggedTransaction Unit) :=
  [{ transaction 1 100 (.xid 1) with start := header 96, body := insertBody },
    { transaction 2 200 (.query [0x64] createStatement) with body := [] }]

def rolledBack : List (LoggedTransaction Unit) :=
  [transaction 1 100 (.query [] rollbackStatement), transaction 2 200 (.xid 1)]

def lastRun (history : List (LoggedTransaction Unit))
    (labels : List (RunLabel Unit)) : Option (ReplicationRun Unit Unit) :=
  exec (step (oneServer history)) .initial labels

def readBoth : List (RunLabel Unit) :=
  start :: replicate 7 read ++ [.read fun _ => .ok createdTable]

def restarted : List (RunLabel Unit) :=
  readBoth ++ [.commit [0, 1] true, .crash, .start none [table, createdTable] [interval 1 3] []
      true]

theorem wellFormed_committed : WellFormedLog committed := by constructor <;> decide

theorem wellFormed_rolledBack : WellFormedLog rolledBack := by constructor <;> decide

end SampleLog
open SampleLog

/-- What the run of a delivery guarantees, where `origin` is its first record.
The batches of a process are the missing transactions from the one it started
at to the last whose end it has read, and the markers that it commits are the first ones it emitted.
     The durable
record is the state after a prefix that a commit has named.  A table joins with
the record that stores the position of its transaction, and no event was read
after that transaction before. -/
structure ReplicationLaws (setting : ReplicationSetting Raw Value)
    (run : ReplicationRun Raw Value) (origin : ReplicationOffsetState) : Prop where
  starts : StartsFrom setting origin
  first : run.written.head? = some (0, origin)
  accepted : run.accepted.flatten = range run.committed
  committed : run.committed ≤ run.emitted.length
  emitted : ∀ place batch, run.emitted[place]? = some batch →
    EmittedAt setting origin (run.startedAt + place) batch
  complete : run.source.isSome → ∃ started : List (LoggedTransaction Raw),
    (∀ transaction ∈ started, ∃ rest, run.connection.current = rest ++ [transaction.endEvent]) ∧
    (started ++ run.connection.upcoming).filter (·.commits setting.binlog) =
      (setting.missing origin.committedGtids).drop (run.startedAt + run.emitted.length)
  durable : ∀ value, run.storage replicationOffsetStateKey = some value →
    ∃ index, run.written.getLast? = some (index, value.payload)
  records : ∀ entry ∈ run.written, RecordAt setting origin entry ∧ entry.1 ≤ run.acknowledged
  admission : run.written.IsChain (Advance setting origin)
  waited : ∀ place transaction, place < run.completeAtRead →
    (setting.missing origin.committedGtids)[place]? = some transaction →
    (setting.admitted transaction).isSome → place < run.startedAt + run.committed
  grows : run.written.Pairwise fun old new => ∀ gtid,
    old.2.committedGtids.contains gtid → new.2.committedGtids.contains gtid

theorem Stored.grows (h : Stored setting origin run) : run.written.Pairwise fun old new => ∀ gtid,
    old.2.committedGtids.contains gtid → new.2.committedGtids.contains gtid := by
  have hi : run.written.Pairwise (·.1 < ·.1) := by
    rw [← isChain_iff_pairwise]
    exact h.chain.imp fun _ _ hadvance => hadvance.lt
  refine hi.imp_of_mem fun hold hnew hlt gtid hmem => ?_
  exact (h.records _ hold).1.subset h.starts.canonical (h.records _ hnew).1 (le_of_lt hlt) hmem

/-- Before the first record nothing is stored and nothing is emitted.  From then
on the laws hold, whatever the processes do and whenever they crash. -/
theorem replication_laws (hlog : WellFormedLog setting.history)
    (hreach : Reachable (step setting) .initial run) :
    (run.storage replicationOffsetStateKey = none ∧ run.written = [] ∧ run.emitted = []) ∨
      ∃ origin, ReplicationLaws setting run origin := by
  rcases runInvariant_reachable hlog hreach with hfresh | ⟨origin, hr⟩
  · exact .inl ⟨hfresh.storage, hfresh.written, hfresh.emitted⟩
  obtain ⟨hs, hobs, hprocess⟩ := hr
  refine .inr ⟨origin, hs.starts, hs.first, hobs.accepted, hobs.le, hobs.batches, ?_, ?_,
    hs.records, hs.chain, hobs.waited, hs.grows⟩
  · intro hsource
    obtain ⟨source, hsource⟩ := Option.isSome_iff_exists.mp hsource
    obtain ⟨remaining, hplace, -, hremaining⟩ := (hprocess source hsource).2.place
    cases hplace with
    | between => exact ⟨[], by simp, hremaining⟩
    | inside transaction done active hinside =>
      obtain ⟨rest, -, hcurrent⟩ := hinside.body
      exact ⟨[transaction], by simp [hcurrent], hremaining⟩
  intro value hval
  obtain ⟨current, index, hcur, hlast⟩ := hs.current
  cases hval.symm.trans hcur
  exact ⟨index, hlast⟩

theorem replication_laws_restarted :
    WellFormedLog committed ∧ ∃ run, lastRun committed restarted = some run ∧
      run.startedAt = 2 ∧
      run.written.map (fun entry => (entry.1, tableNames entry.2.authoritativeTables)) =
        [(0, [table.name]), (2, [table.name, createdTable.name])] ∧
      ∃ origin, ReplicationLaws (oneServer committed) run origin := by
  refine ⟨wellFormed_committed, ?_⟩
  have hrun : (lastRun committed restarted).map (fun run => (run.startedAt,
      run.written.map fun entry => (entry.1, tableNames entry.2.authoritativeTables))) =
        some (2, [(0, [table.name]), (2, [table.name, createdTable.name])]) := by
    decide +kernel
  obtain ⟨run, hexec, hview⟩ := Option.map_eq_some_iff.mp hrun
  obtain ⟨hstarted, hwritten⟩ := Prod.mk.inj hview
  refine ⟨run, hexec, hstarted, hwritten, ?_⟩
  refine (replication_laws wellFormed_committed ⟨_, hexec⟩).resolve_left ?_
  rintro ⟨-, hnone, -⟩
  simp [hnone] at hwritten

variable {library : BinlogLibrary} {transactions : List (LoggedTransaction Raw)}

/-- The transactions up to and including the committed one at `place`. -/
def readThrough (library : BinlogLibrary) (place : ℕ) :
    List (LoggedTransaction Raw) → List (LoggedTransaction Raw)
  | [] => []
  | transaction :: later =>
    if transaction.commits library then
      if place = 0 then [transaction]
      else transaction :: readThrough library (place - 1) later
    else transaction :: readThrough library place later

section
variable (setting : ReplicationSetting Raw Value) (run : ReplicationRun Raw Value)

def ReplicationRun.sent : List (LoggedTransaction Raw) :=
  (Connection.connect setting.history run.requested).upcoming

/-- The transactions whose end the process has read when it emits the marker at
`place`. -/
def ReplicationRun.readBefore (place : ℕ) : List (LoggedTransaction Raw) :=
  readThrough setting.binlog place (run.sent setting)

end

theorem filter_readThrough {place : ℕ} :
    (readThrough library place transactions).filter (·.commits library) =
      (transactions.filter (·.commits library)).take (place + 1) := by
  induction transactions generalizing place with
  | nil => rfl
  | cons transaction later ih =>
    rw [readThrough]
    split
    next hcommits =>
      rw [filter_cons_of_pos hcommits, take_succ_cons]
      split
      next hzero =>
        rw [hzero, filter_singleton, hcommits, take_zero]
        rfl
      rename_i hp
      rw [filter_cons_of_pos hcommits, ih, Nat.sub_add_cancel (Nat.pos_of_ne_zero hp)]
    next hcommits => rw [filter_cons_of_neg hcommits, filter_cons_of_neg hcommits, ih]

theorem readThrough_subset {place : ℕ} : readThrough library place transactions ⊆ transactions := by
  induction transactions generalizing place with
  | nil => exact List.Subset.refl _
  | cons transaction later ih =>
    rw [readThrough]
    split
    · split
      · exact cons_subset_cons _ (nil_subset _)
      · exact cons_subset_cons _ ih
    exact cons_subset_cons _ ih

theorem ensure_eq_ok {cond : Bool} {text : String} : ensure cond text = .ok () ↔ cond := by
  cases cond <;> simp [ensure]

def GtidSet.single (gtid : Gtid) : GtidSet :=
  [{ sid := gtid.sid, tag := gtid.tag
     intervals := [{ start := gtid.gno, endExclusive := gtid.gno + 1 }] }]

theorem GtidSet.single_contains (gtid other : Gtid) :
    (single gtid).contains other ↔ other = gtid := by
  obtain ⟨sid, tag, gno⟩ := gtid
  obtain ⟨sid', tag', gno'⟩ := other
  simp only [GtidSet.contains_iff, GtidSid.contains_iff,
    GtidInterval.contains_iff, single, mem_singleton, exists_eq_left, Gtid.mk.injEq]
  constructor
  · rintro ⟨hsid, htag, hge, hlt⟩
    exact ⟨hsid.symm, htag.symm, by omega⟩
  rintro ⟨rfl, rfl, rfl⟩
  exact ⟨rfl, rfl, le_rfl, lt_succ_self _⟩

theorem GtidSet.single_canonical {gtid : Gtid} (hpositive : 0 < gtid.gno)
    (hbounded : gtid.gno < maxEndExclusive) : (single gtid).Canonical := by
  refine ⟨fun sid hmem => ?_, by simp [single]⟩
  cases mem_singleton.mp hmem
  refine ⟨cons_ne_nil _ _, fun interval hi => ?_, by simp⟩
  cases mem_singleton.mp hi
  exact ⟨hpositive, lt_succ_self _, hbounded⟩

section
variable (hlog : WellFormedLog setting.history) (hcanon : origin.committedGtids.Canonical)
  (hobs : Observed setting origin run) {place : ℕ}
  {batch : SourceBatch Value} (hbatch : run.emitted[place]? = some batch)
include hlog hcanon hobs hbatch

theorem Observed.marker_contains (gtid : Gtid) :
    batch.commitMarker.nextGtids.contains gtid ↔ run.requested.contains gtid ∨
    ∃ txn ∈ run.readBefore setting place, txn.commits setting.binlog ∧ txn.gtid = gtid := by
  obtain ⟨txn, tables, changes, he⟩ := hobs.batches place batch hbatch
  have hne : run.emitted ≠ [] := by
    rintro hnil
    rw [hnil] at hbatch
    cases hbatch
  obtain ⟨position, names, hr⟩ := hobs.requested hne
  have hsent : (run.sent setting).filter (fun txn => txn.commits setting.binlog) =
    (setting.missing origin.committedGtids).drop run.startedAt := hr.missing_eq_drop hlog hcanon
  have hread : ∀ txn, txn ∈ run.readBefore setting place ∧ txn.commits setting.binlog ↔
      txn ∈ ((setting.missing origin.committedGtids).drop run.startedAt).take (place + 1) := by
    intro txn
    rw [← hsent, ← filter_readThrough, mem_filter]
    rfl
  rw [he.next.contains hcanon, hr.contains hcanon,
    Nat.add_assoc, take_add, map_append, mem_append, or_assoc]
  refine or_congr Iff.rfl (or_congr Iff.rfl ?_)
  rw [mem_map]
  simp only [← hread, and_assoc]

/-- The marker covers every transaction that was read before it just when all
of them committed. -/
theorem Observed.covers_iff : (∀ transaction ∈ run.readBefore setting place,
    batch.commitMarker.nextGtids.contains transaction.gtid) ↔
    ∀ transaction ∈ run.readBefore setting place, transaction.commits setting.binlog := by
  refine forall₂_congr fun transaction hmem => ?_
  obtain ⟨hhistory, hunasked⟩ := mem_filter.mp (readThrough_subset hmem)
  rw [hobs.marker_contains hlog hcanon hbatch]
  constructor
  · rintro (hasked | ⟨other, hother, hcommits, heq⟩)
    · simp [hasked] at hunasked
    have hsame : other = transaction :=
      inj_on_of_nodup_map hlog.gtids (mem_of_mem_filter (readThrough_subset hother)) hhistory heq
    exact hsame ▸ hcommits
  intro hcommits
  exact .inr ⟨transaction, hmem, hcommits, rfl⟩

/-- The marker's set passes the check against every purged set of transactions
that were asked for or read, just when all of them committed. -/
theorem Observed.purge_iff : (∀ purged, purged.Canonical → (∀ gtid, purged.contains gtid →
    run.requested.contains gtid ∨ ∃ txn ∈ run.readBefore setting place, txn.gtid = gtid) →
    checkPurged batch.commitMarker.nextGtids purged = .ok ()) ↔
    ∀ txn ∈ run.readBefore setting place, txn.commits setting.binlog := by
  obtain ⟨_, _, _, he⟩ := hobs.batches place batch hbatch
  have hnext := he.next.canonical hcanon
  have hcheck : ∀ purged, purged.Canonical → (checkPurged batch.commitMarker.nextGtids purged =
      .ok () ↔ ∀ gtid, purged.contains gtid → batch.commitMarker.nextGtids.contains gtid) := by
    intro purged hpurge
    rw [← GtidSet.isSubsetOf_iff hpurge hnext, checkPurged, ensure_eq_ok]
  rw [← hobs.covers_iff hlog hcanon hbatch]
  constructor
  · intro h txn hmem
    -- The server may purge this one txn.
    obtain ⟨hhistory, -⟩ := mem_filter.mp (readThrough_subset hmem)
    have hnumber := hlog.numbers txn hhistory
    have hsingle := GtidSet.single_contains txn.gtid
    have hpurge := GtidSet.single_canonical hnumber.1 hnumber.2
    refine (hcheck _ hpurge).mp (h _ hpurge fun gtid hgtid => ?_) txn.gtid ((hsingle _).mpr rfl)
    exact .inr ⟨txn, hmem, ((hsingle gtid).mp hgtid).symm⟩
  intro h purged hpurge hwithin
  refine (hcheck purged hpurge).mpr fun gtid hgtid => ?_
  rcases hwithin gtid hgtid with hasked | ⟨txn, hmem, rfl⟩
  · exact (hobs.marker_contains hlog hcanon hbatch gtid).mpr (.inl hasked)
  · exact h txn hmem

end

/-- In every run, a marker covers all transactions whose end was read before it
just when none of them was rolled back, and only then does the set that it
commits pass the check against whatever the server may have purged of them. -/
theorem marker_covers_read_iff (hlog : WellFormedLog setting.history)
    (hreach : Reachable (step setting) .initial run)
    {place : ℕ} {batch : SourceBatch Value} (hbatch : run.emitted[place]? = some batch) :
    ((∀ transaction ∈ run.readBefore setting place,
        batch.commitMarker.nextGtids.contains transaction.gtid) ↔
      ∀ transaction ∈ run.readBefore setting place, transaction.commits setting.binlog) ∧
    ((∀ purged : GtidSet, purged.Canonical →
        (∀ gtid, purged.contains gtid → run.requested.contains gtid ∨
          ∃ transaction ∈ run.readBefore setting place, transaction.gtid = gtid) →
        checkPurged batch.commitMarker.nextGtids purged = .ok ()) ↔
      ∀ transaction ∈ run.readBefore setting place, transaction.commits setting.binlog) := by
  rcases runInvariant_reachable hlog hreach with hfresh | ⟨origin, hr⟩
  · rw [hfresh.emitted] at hbatch
    cases hbatch
  have hcanon := hr.stored.starts.canonical
  exact ⟨hr.observed.covers_iff hlog hcanon hbatch, hr.observed.purge_iff hlog hcanon hbatch⟩

theorem marker_covers_committed :
    WellFormedLog committed ∧ ∃ run batch, lastRun committed readBoth = some run ∧
      run.emitted[1]? = some batch ∧
      (run.readBefore (oneServer committed) 1).map (·.gtid.gno) = [1, 2] ∧
      (∀ transaction ∈ run.readBefore (oneServer committed) 1,
        batch.commitMarker.nextGtids.contains transaction.gtid) ∧
      ∀ purged : GtidSet, purged.Canonical →
        (∀ gtid, purged.contains gtid → run.requested.contains gtid ∨
          ∃ transaction ∈ run.readBefore (oneServer committed) 1, transaction.gtid = gtid) →
        checkPurged batch.commitMarker.nextGtids purged = .ok () := by
  refine ⟨wellFormed_committed, ?_⟩
  have hrun : (lastRun committed readBoth).map (fun run => (run.emitted[1]?.isSome,
      (run.readBefore (oneServer committed) 1).map (·.gtid.gno),
      (run.readBefore (oneServer committed) 1).all (·.commits (oneServer committed).binlog))) =
        some (true, [1, 2], true) := by
    decide +kernel
  obtain ⟨run, hexec, hview⟩ := Option.map_eq_some_iff.mp hrun
  obtain ⟨hemitted, hread, hcommits⟩ : _ ∧ _ ∧ _ := by simpa using hview
  obtain ⟨batch, hbatch⟩ : ∃ batch, run.emitted[1]? = some batch :=
      ⟨_, getElem?_eq_getElem hemitted⟩
  obtain ⟨hcovers, hpurge⟩ := marker_covers_read_iff wellFormed_committed ⟨_, hexec⟩ hbatch
  exact ⟨run, batch, hexec, hbatch, hread, hcovers.mpr hcommits, hpurge.mpr hcommits⟩

/-- The number of a rolled back transaction is in no marker, and once the server
has purged it the delivery cannot go on. -/
theorem marker_loses_rolledBack :
    WellFormedLog rolledBack ∧
    (lastRun rolledBack (start :: replicate 7 read)).map
      (fun run => (run.emitted.map (·.commitMarker.nextGtids),
        (run.readBefore (oneServer rolledBack) 0).map (·.gtid.gno))) =
      some ([[interval 2 3]], [1, 2]) ∧
    checkPurged [interval 2 3] [interval 1 2] = .error (.message historyPurged) :=
  ⟨wellFormed_rolledBack, by decide +kernel, by decide⟩

end Transferia.MySql
