import Transferia.MySql.ReplicationRun

/-!
# What decoding an event does

One lemma for each kind of event that the server sends: what is decoded, and
what becomes of the file, the table maps and the selection of the decoder.
-/

namespace Transferia.MySql.MySqlBinlogDecoder
open Support LoggedTransaction
open MySqlBinlogPosition (new)
variable {Raw : Type} {cfg : MySqlReplicationConfig} {lib : BinlogLibrary}
  {decoder decoder' : MySqlBinlogDecoder} {header : EventHeader} {event : BinlogEvent Raw}
  {decoded : DecodedBinlogEvent Raw} {eventType : EventType} {transaction : LoggedTransaction Raw}
variable (decoder decoder')

/-- The decoder keeps its file, its table maps and its selection. -/
structure Keeps : Prop where
  filename : decoder'.currentPosition.filename = decoder.currentPosition.filename
  selectedTables : decoder'.selectedTables = decoder.selectedTables
  tableMaps : decoder'.tableMaps = decoder.tableMaps

/-- A transaction is active after the event just when one was before it. -/
def KeepsActive : Prop :=
  decoder'.activeTransaction.isSome = decoder.activeTransaction.isSome

variable {decoder decoder'}

theorem new_ok {filename : Bytes} {position : ℕ} {result : MySqlBinlogPosition}
    (h : new filename position = .ok result) : result = { filename, position } := by
  unfold new at h
  split at h
  · cases h
  split at h
  · cases h
  split at h
  · cases h
  split at h
  · cases h
  cases h
  rfl

theorem nextPosition_ok {logPos : ℕ} {next : MySqlBinlogPosition}
    (h : decoder.nextPosition eventType logPos = .ok next) :
    next.filename = decoder.currentPosition.filename ∧
    (logPos ≠ 0 → eventType ≠ .formatDescription → eventType ≠ .previousGtids →
      next.position = logPos) := by
  unfold nextPosition at h
  split at h
  · cases h
    exact ⟨rfl, fun hne => absurd ‹_› hne⟩
  split at h
  · split at h
    next htype =>
      cases h
      exact ⟨rfl, fun _ hformat hprev => absurd htype (by simp [hformat, hprev])⟩
    · cases h
  split at h
  next pos hnew =>
    cases h
    obtain rfl := new_ok hnew
    exact ⟨rfl, fun _ _ _ => rfl⟩
  · cases h

theorem startTransaction_ok {identity : MySqlBinlogPosition → MySqlTransactionIdentity}
    {sawBeginQuery : Bool}
    (h :
      decoder.startTransaction header eventType identity sawBeginQuery = .ok (decoded, decoder')) :
    decoded =
      .transactionStarted
        { identity := identity decoder.currentPosition, beginPosition := decoder.currentPosition } ∧
    decoder.Keeps decoder' ∧
    decoder'.activeTransaction.isSome := by
  obtain ⟨next, hnext, h⟩ := of_bind h
  cases h
  exact ⟨rfl, ⟨(nextPosition_ok hnext).1, rfl, rfl⟩, rfl⟩

theorem decodeCommit_ok {xid : Option ℕ} {comm : CommittedTransaction}
    (h : decoder.decodeCommit cfg header eventType xid = .ok (comm, decoder')) :
    (decoder.nextPosition eventType header.logPos = .ok comm.nextPosition) ∧
    decoder'.currentPosition = comm.nextPosition ∧
    decoder'.selectedTables = decoder.selectedTables ∧ decoder'.tableMaps = [] ∧
    decoder'.activeTransaction = none := by
  obtain ⟨txn, -, h⟩ := of_bind h
  replace h := after_check h
  obtain ⟨next, hnext, h⟩ := of_bind h
  cases h
  exact ⟨hnext, rfl, rfl, rfl, rfl⟩

theorem decodeRollback_ok (h : decoder.decodeRollback cfg header = .ok (decoded, decoder')) :
    (∃ rolledBack, decoded = .transactionRolledBack rolledBack) ∧
    decoder'.currentPosition.filename = decoder.currentPosition.filename ∧ decoder'.selectedTables =
    decoder.selectedTables ∧ decoder'.tableMaps = [] ∧ decoder'.activeTransaction = none := by
  obtain ⟨txn, -, h⟩ := of_bind h
  replace h := after_check h
  obtain ⟨next, hnext, h⟩ := of_bind h
  cases h
  exact ⟨⟨_, rfl⟩, (nextPosition_ok hnext).1, rfl, rfl, rfl⟩

theorem decodeIgnored_ok
    (h : decoder.decodeIgnored cfg header eventType = .ok (decoded, decoder')) :
    (∃ next inside, decoded = .ignored eventType next inside) ∧
    decoder.Keeps decoder' ∧
    decoder.KeepsActive decoder' := by
  unfold decodeIgnored at h
  split at h
  · obtain ⟨next, hnext, h⟩ := of_bind h
    cases h
    exact ⟨⟨_, _, rfl⟩, ⟨(nextPosition_ok hnext).1, rfl, rfl⟩, rfl⟩
  rename_i hact
  replace h := after_check h
  obtain ⟨next, hnext, h⟩ := of_bind h
  cases h
  exact ⟨⟨_, _, rfl⟩, ⟨(nextPosition_ok hnext).1, rfl, rfl⟩, by simp [KeepsActive, hact]⟩

theorem decodeBegin_ok (hact : decoder.activeTransaction.isSome)
    (h : decoder.decodeBegin cfg header = .ok (decoded, decoder')) : (∃ next, decoded =
    .ignored .query next true) ∧ decoder.Keeps decoder' ∧ decoder.KeepsActive decoder' := by
  unfold decodeBegin at h
  split at h
  next hnone =>
    rw [hnone] at hact
    cases hact
  · replace h := after_check h
    split at h
    · cases h
    obtain ⟨next, hnext, h⟩ := of_bind h
    cases h
    exact ⟨⟨_, rfl⟩, ⟨(nextPosition_ok hnext).1, rfl, rfl⟩, hact.symm⟩

theorem requireTransaction_ok {transaction : ActiveTransaction}
    (h : decoder.requireTransaction eventType = .ok transaction) :
    decoder.activeTransaction = some transaction := by
  unfold requireTransaction at h
  split at h
  · cases h
  cases h
  assumption

theorem decodeTableMap_ok {table : TableMap}
    (h : decoder.decodeTableMap cfg lib header table = .ok (decoded, decoder')) :
    (decoded = .tableMapped table ∨ ∃ next, decoded = .ignored .tableMap next true) ∧
    decoder'.currentPosition.filename = decoder.currentPosition.filename ∧
    decoder'.selectedTables = decoder.selectedTables ∧
    decoder'.tableMaps = (table.tableId, table) :: decoder.tableMaps ∧
    decoder.KeepsActive decoder' := by
  obtain ⟨txn, htxn', h⟩ := of_bind h
  have hact := requireTransaction_ok htxn'
  replace h := after_check h
  obtain ⟨next, hnext, h⟩ := of_bind h
  have hfilename := (nextPosition_ok hnext).1
  split at h
  · replace h := after_check h
    cases h
    exact ⟨.inl rfl, hfilename, rfl, rfl, by simp [KeepsActive, hact]⟩
  cases h
  exact ⟨.inr ⟨_, rfl⟩, hfilename, rfl, rfl, by simp [KeepsActive, hact]⟩

theorem decodeRowChanges_ok {op : MySqlRowOperation} {cols : ℕ} {previouslyDecodedRows rowIndex : ℕ}
    {rows : List (Option (List Raw) × Option (List Raw))} {changes : List (MySqlRowChange Raw)}
    (h : decodeRowChanges cfg op cols previouslyDecodedRows rowIndex rows = .ok changes) :
    changes.map (fun chg => (chg.before, chg.after)) = rows := by
  induction rows generalizing rowIndex changes with
  | nil =>
    cases h
    rfl
  | cons row rest ih =>
    replace h := after_check h
    split at h
    · cases h
    split at h
    · cases h
    obtain ⟨others, hothers, h⟩ := of_bind h
    cases h
    rw [List.map_cons, ih hothers]

theorem decodeRows_ok {rows : RowsEvent Raw}
    (h : decoder.decodeRows cfg lib header rows = .ok (decoded, decoder')) :
    ∃ table, decoder.tableMaps.lookup rows.tableId = some table ∧
    ((decoder.tableIsSelected table = false ∧ ∃ next, decoded = .ignored .rows next true) ∨
      (decoder.tableIsSelected table ∧ ∃ event, decoded = .rows event ∧ event.table = table ∧
      event.operation = rows.operation ∧
      event.rows.map (fun change => (change.before, change.after)) = rows.rows)) ∧
    decoder.Keeps decoder' ∧ decoder.KeepsActive decoder' := by
  obtain ⟨txn, htxn', h⟩ := of_bind h
  have hact := requireTransaction_ok htxn'
  replace h := after_check h
  split at h
  · cases h
  split at h
  · cases h
  rename_i table htable
  refine ⟨table, htable, ?_⟩
  split at h
  · cases h
  split at h
  next hs =>
    obtain ⟨next, hnext, h⟩ := of_bind h
    cases h
    exact ⟨.inl ⟨by simpa using hs, _, rfl⟩, ⟨(nextPosition_ok hnext).1, rfl, rfl⟩,
      by simp [KeepsActive, hact]⟩
  rename_i hs
  iterate 2 replace h := after_check h
  obtain ⟨changes, hchanges, h⟩ := of_bind h
  obtain ⟨next, hnext, h⟩ := of_bind h
  replace h := after_check h
  cases h
  exact ⟨.inr ⟨by simpa using hs, _, rfl, rfl, rfl, decodeRowChanges_ok hchanges⟩,
    ⟨(nextPosition_ok hnext).1, rfl, rfl⟩,
    by simp [KeepsActive, hact]⟩

/-- A rotation happens outside transactions and leaves the decoder in the named
file. -/
theorem decodeRotate_ok {name : Bytes} {pos : ℕ}
    (h : decoder.decodeRotate header name pos = .ok (decoded, decoder')) :
    ((∃ prev next, decoded = .binlogRotated prev next) ∨ ∃ next,
      decoded = .ignored .rotate next false) ∧
    decoder.activeTransaction = none ∧ decoder'.activeTransaction = none ∧
    decoder'.currentPosition.filename = name ∧
    decoder'.selectedTables = decoder.selectedTables ∧
    (decoder.tableMaps = [] → decoder'.tableMaps = []) := by
  unfold decodeRotate at h
  simp only at h
  split at h
  · cases h
  rename_i hact
  have hact : decoder.activeTransaction = none := by simpa using hact
  split at h
  · split at h
    · cases h
    rename_i next hnext
    cases h
    obtain rfl := new_ok hnext
    exact ⟨.inl ⟨_, _, rfl⟩, hact, hact, rfl, rfl, fun _ => rfl⟩
  split at h
  · split at h
    · cases h
    rename_i next hnext
    cases h
    obtain rfl := new_ok hnext
    exact ⟨.inl ⟨_, _, rfl⟩, hact, hact, rfl, rfl, fun _ => rfl⟩
  split at h
  · cases h
  rename_i hname
  cases h
  exact ⟨.inr ⟨_, rfl⟩, hact, hact, (not_not.mp hname).symm, rfl, id⟩

theorem decodeData_of_decode (h : decoder.decode cfg lib event = .ok (decoded, decoder')) :
    decoder.decodeData cfg lib event.header event.data = .ok (decoded, decoder') := by
  unfold decode at h
  split at h
  · cases h
  split at h
  · cases h
  · exact h

theorem decode_start (h : decoder.decode cfg lib transaction.startEvent = .ok (decoded, decoder')) :
    (∃ mk, decoded = .transactionStarted mk ∧ mk.identity = .gtid transaction.gtid) ∧
    decoder.Keeps decoder' ∧ decoder.activeTransaction = none ∧
    decoder'.activeTransaction.isSome = true := by
  have h := decodeData_of_decode h
  simp only [startEvent, decodeData] at h
  split at h
  · cases h
  rename_i hact
  obtain ⟨rfl, hkeep, hstarted⟩ := startTransaction_ok h
  exact ⟨⟨_, rfl, rfl⟩, hkeep, by simpa using hact, hstarted⟩

theorem decode_body (hbody : event.data.isBody) (hact : decoder.activeTransaction.isSome)
    (h : decoder.decode cfg lib event = .ok (decoded, decoder')) :
    decoder'.currentPosition.filename = decoder.currentPosition.filename ∧
    decoder'.selectedTables = decoder.selectedTables ∧
    decoder'.activeTransaction.isSome ∧
    ((∃ table, event.data = .tableMap table ∧
        decoder'.tableMaps = (table.tableId, table) :: decoder.tableMaps ∧
        (decoded = .tableMapped table ∨ ∃ next, decoded = .ignored .tableMap next true)) ∨
      (∃ rows table, event.data = .rows rows ∧
        decoder'.tableMaps = decoder.tableMaps ∧
        decoder.tableMaps.lookup rows.tableId = some table ∧
        ((decoder.tableIsSelected table = false ∧ ∃ next, decoded = .ignored .rows next true) ∨
          (decoder.tableIsSelected table ∧
          ∃ event, decoded = .rows event ∧
            event.table = table ∧
            event.operation = rows.operation ∧
            event.rows.map (fun change => (change.before, change.after)) = rows.rows))) ∨
      ((∀ table, event.data ≠ .tableMap table) ∧
      (∀ rows, event.data ≠ .rows rows) ∧
      decoder'.tableMaps = decoder.tableMaps ∧
      ∃ eventType next inside,
        eventType ≠ .tableMap ∧ decoded = .ignored eventType next inside)) := by
  have h := decodeData_of_decode h
  cases hdata : event.data with
  | tableMap table =>
    rw [hdata, decodeData] at h
    obtain ⟨hdec, hfile, hs, hmaps, hkeep⟩ := decodeTableMap_ok h
    exact ⟨hfile, hs, hkeep.trans hact, .inl ⟨table, rfl, hmaps, hdec⟩⟩
  | rows rows =>
    rw [hdata, decodeData] at h
    obtain ⟨table, htable, hdec, hkeep, hstill⟩ := decodeRows_ok h
    exact ⟨hkeep.filename, hkeep.selectedTables, hstill.trans hact,
      .inr (.inl ⟨rows, table, rfl, hkeep.tableMaps, htable, hdec⟩)⟩
  | query schema query =>
    rw [hdata, decodeData, decodeQuery] at h
    rw [hdata, EventData.isBody] at hbody
    rw [if_pos hbody] at h
    obtain ⟨⟨next, rfl⟩, hkeep, hstill⟩ := decodeBegin_ok hact h
    exact ⟨hkeep.filename, hkeep.selectedTables, hstill.trans hact,
      .inr (.inr ⟨by simp, by simp, hkeep.tableMaps, _, next, true, by simp, rfl⟩)⟩
  | heartbeat | rowsQuery | ignorable =>
    rw [hdata, decodeData] at h
    obtain ⟨⟨next, inside, rfl⟩, hkeep, hstill⟩ := decodeIgnored_ok h
    exact ⟨hkeep.filename, hkeep.selectedTables, hstill.trans hact,
      .inr (.inr ⟨by simp, by simp, hkeep.tableMaps, _, next, inside, by simp, rfl⟩)⟩
  | gtid | anonymousGtid | xid | rotate | formatDescription | previousGtids
  | stop | transactionPayload | unsupported =>
    rw [hdata] at hbody
    cases hbody

/-- What the end of a transaction is decoded to. -/
inductive Ends (binlog : BinlogLibrary) (transaction : LoggedTransaction Raw) :
    DecodedBinlogEvent Raw → Prop
  | committed (committed : CommittedTransaction) (houtcome : transaction.outcome binlog =
      .committed) (hposition : committed.nextPosition = transaction.endPosition) :
      Ends binlog transaction (.transactionCommitted committed)
  | created (table : TableName) (committed : CommittedTransaction)
      (houtcome : transaction.outcome binlog = .created table) (hposition : committed.nextPosition =
      transaction.endPosition) : Ends binlog transaction (.tableCreated table committed)
  | rolledBack (rolledBack : RolledBackTransaction) (houtcome : transaction.outcome binlog =
      .rolledBack) : Ends binlog transaction (.transactionRolledBack rolledBack)

theorem decode_end (hfinish : transaction.finish.logPos ≠ 0)
    (hending : transaction.endEvent.data.isBody = false)
    (hfile : decoder.currentPosition.filename = transaction.file)
    (h : decoder.decode cfg lib transaction.endEvent = .ok (decoded, decoder')) :
    Ends lib transaction decoded ∧ decoder'.currentPosition.filename = transaction.file ∧
    decoder'.selectedTables = decoder.selectedTables ∧ decoder'.tableMaps = [] ∧
    decoder'.activeTransaction = none := by
  have hposition : ∀ {eventType : EventType} {next : MySqlBinlogPosition},
      eventType ≠ .formatDescription → eventType ≠ .previousGtids →
      decoder.nextPosition eventType transaction.finish.logPos = .ok next →
      next = transaction.endPosition := by
    intro eventType next hformat hprev hnext
    obtain ⟨hname, hlogPos⟩ := nextPosition_ok hnext
    cases next
    simp_all [endPosition]
  have h := decodeData_of_decode h
  simp only [endEvent] at h hending
  cases hend : transaction.ending with
  | xid xid =>
    simp only [hend] at h
    obtain ⟨⟨committed, after⟩, hcommit, h⟩ := of_bind h
    cases h
    obtain ⟨hnext, hcur, hs, hmaps, hact⟩ := decodeCommit_ok hcommit
    have hend' := hposition (by simp) (by simp) hnext
    exact ⟨.committed committed (by simp [outcome, hend])
      hend', by rw [hcur, hend']; rfl, hs, hmaps, hact⟩
  | query schema statement =>
    simp only [hend, decodeData, decodeQuery] at h
    simp only [hend, EventData.isBody] at hending
    rw [hending] at h
    simp only [Bool.false_eq_true, if_false] at h
    split at h
    next hcommits =>
      obtain ⟨⟨committed, after⟩, hcommit, h⟩ := of_bind h
      cases h
      obtain ⟨hnext, hcur, hs, hmaps, hact⟩ := decodeCommit_ok hcommit
      have hend' := hposition (by simp) (by simp) hnext
      exact ⟨.committed committed (by simp [outcome, hend, hcommits]) hend',
        by rw [hcur, hend']; rfl, hs, hmaps, hact⟩
    rename_i hcommits
    split at h
    next hrolls =>
      obtain ⟨⟨rolledBack, rfl⟩, hname, hs, hmaps, hact⟩ := decodeRollback_ok h
      exact ⟨.rolledBack rolledBack (by simp [outcome, hend, hcommits, hrolls]),
        hname.trans hfile, hs, hmaps, hact⟩
    rename_i hrolls
    split at h
    · cases h
    split at h
    · cases h
    rename_i table htable
    obtain ⟨⟨committed, after⟩, hcommit, h⟩ := of_bind h
    cases h
    obtain ⟨hnext, hcur, hs, hmaps, hact⟩ := decodeCommit_ok hcommit
    have hend' := hposition (by simp) (by simp) hnext
    exact ⟨.created table committed (by
      simp [outcome, hend, hcommits, hrolls, htable]) hend',
      by rw [hcur, hend']; rfl, hs, hmaps, hact⟩

/-- An event that may come at any time is ignored.  Only outside transactions
does it drop table maps. -/
theorem decode_quiet {file : Option Bytes} (hq : event.data.isQuiet file event.header)
    (hfile : ∀ name ∈ file, decoder.currentPosition.filename = name)
    (h : decoder.decode cfg lib event = .ok (decoded, decoder')) :
    ((∃ prev next, decoded = .binlogRotated prev next) ∨ ∃ eventType next inside,
      eventType ≠ .tableMap ∧ decoded = .ignored eventType next inside) ∧
    decoder.KeepsActive decoder' ∧
    decoder'.currentPosition.filename = decoder.currentPosition.filename ∧
    decoder'.selectedTables = decoder.selectedTables ∧
    (decoder'.tableMaps = decoder.tableMaps ∨
      (decoder.activeTransaction = none ∧ (decoder.tableMaps = [] → decoder'.tableMaps = []))) := by
  have h := decodeData_of_decode h
  cases hdata : event.data with
  | heartbeat | ignorable =>
    rw [hdata, decodeData] at h
    obtain ⟨⟨next, inside, rfl⟩, hkeep, hact⟩ := decodeIgnored_ok h
    exact ⟨.inr ⟨_, next, inside, by simp, rfl⟩, hact, hkeep.filename,
      hkeep.selectedTables, .inl hkeep.tableMaps⟩
  | previousGtids =>
    rw [hdata, decodeData] at h
    replace h := after_check h
    obtain ⟨⟨next, inside, rfl⟩, hkeep, hact⟩ := decodeIgnored_ok h
    exact ⟨.inr ⟨_, next, inside, by simp, rfl⟩, hact, hkeep.filename,
      hkeep.selectedTables, .inl hkeep.tableMaps⟩
  | formatDescription =>
    rw [hdata, decodeData] at h
    obtain ⟨houtside, h⟩ := check_bind_eq_ok.mp h
    obtain ⟨⟨next, inside, rfl⟩, hkeep, hact⟩ := decodeIgnored_ok h
    refine ⟨.inr ⟨_, next, inside, by simp, rfl⟩, hact, hkeep.filename,
      hkeep.selectedTables, .inr ⟨?_, fun _ => hkeep.tableMaps⟩⟩
    unfold requireOutsideTransaction at houtside
    split at houtside
    · assumption
    · cases houtside
  | stop =>
    rw [hdata, decodeData] at h
    split at h
    · cases h
    obtain ⟨⟨next, inside, rfl⟩, hkeep, hact⟩ := decodeIgnored_ok h
    exact ⟨.inr ⟨_, next, inside, by simp, rfl⟩, hact, hkeep.filename,
      hkeep.selectedTables, .inl hkeep.tableMaps⟩
  | rotate name pos =>
    rw [hdata, decodeData] at h
    simp only [hdata, EventData.isQuiet, Bool.and_eq_true, decide_eq_true_eq] at hq
    obtain ⟨hdec, hb, hafter, hname, hs, hmaps⟩ := decodeRotate_ok h
    refine ⟨?_, by simp [KeepsActive, hb, hafter], hname.trans (hfile name hq.2).symm, hs,
      .inr ⟨hb, hmaps⟩⟩
    rcases hdec with hrotated | ⟨next, rfl⟩
    · exact .inl hrotated
    · exact .inr ⟨_, next, false, by simp, rfl⟩
  | gtid | anonymousGtid | query | tableMap | rows | xid | rowsQuery
  | transactionPayload | unsupported =>
    rw [hdata] at hq
    cases hq

end Transferia.MySql.MySqlBinlogDecoder
