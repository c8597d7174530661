import Transferia.MySql.DecoderSteps

/-!
# What reading an event does

Each lemma says what the source has after reading one event; the rows buffered
for a transaction are those that its body holds for the tables of the source, in
the order of the log and numbered from zero.
-/

namespace Transferia.MySql
open List Support MySqlBinlogDecoder LoggedTransaction

/-! ## The rows of a body -/

/-- A row of the log with the table map that it refers to. -/
structure SelectedRow (Raw : Type) where
  table : TableMap
  operation : MySqlRowOperation
  (before after : Option (List Raw))

section
variable {Raw : Type} {events : List (BinlogEvent Raw)}

def BinlogEvent.tableMaps (event : BinlogEvent Raw) : List (ℕ × TableMap) :=
  match event.data with
  | .tableMap table => [(table.tableId, table)]
  | _ => []

def tableMapsAfter (tableMaps : List (ℕ × TableMap)) (events : List (BinlogEvent Raw)) :
    List (ℕ × TableMap) :=
  events.foldl (fun maps event => event.tableMaps ++ maps) tableMaps

def BinlogEvent.selectedRows (names : List TableName)
    (tableMaps : List (ℕ × TableMap)) (event : BinlogEvent Raw) : List (SelectedRow Raw) :=
  match event.data with
  | .rows rows =>
    match tableMaps.lookup rows.tableId with
    | none => []
    | some table =>
      if table.name ∈ names then
        rows.rows.map fun (before, after) =>
          { table, operation := rows.operation, before, after }
      else []
  | _ => []

def selectedRows (names : List TableName) :
    List (ℕ × TableMap) → List (BinlogEvent Raw) → List (SelectedRow Raw)
  | _, [] => []
  | tableMaps, event :: rest =>
    event.selectedRows names tableMaps ++ selectedRows names (event.tableMaps ++ tableMaps) rest

theorem selectedRows_append_singleton {names : List TableName} {tableMaps : List (ℕ × TableMap)}
    {event : BinlogEvent Raw} :
    selectedRows names tableMaps (events ++ [event]) =
      selectedRows names tableMaps events ++
        event.selectedRows names (tableMapsAfter tableMaps events) := by
  induction events generalizing tableMaps with
  | nil => simp [selectedRows, tableMapsAfter]
  | cons first rest ih =>
    rw [cons_append, selectedRows, ih, selectedRows, append_assoc]
    rfl

end
namespace MySqlReplicationSource
variable {Raw Value : Type} {library : SourceLibrary Raw Value}
  {parser : SidParser} {config : MySqlReplicationConfig} {admission : AdmissionConfig}
  {discovered : TableName → Except SourceError AuthoritativeTableIdentity}
  {tables : List AuthoritativeTableIdentity} {source source' : MySqlReplicationSource Value}
  {batch : Option (SourceBatch Value)}

/-! ## Buffered rows -/

variable {rows : List (SelectedRow Raw)} {active : BufferedTransaction Value} {index : ℕ}
  {active' : BufferedTransaction Value} {name : TableName}
section
variable (library : SourceLibrary Raw Value) (tables : List AuthoritativeTableIdentity)

/-- The change is the row of the log, converted for the table of its name. -/
structure ChangeOf (change : BufferedRowChange Value) (row : SelectedRow Raw) : Prop where
  operation : change.operation = changeOperation row.operation
  images : ∃ table, tables[change.tableIndex]? = some table ∧ table.name = row.table.name ∧
    normalizeRow library table row.table row.before = .ok change.before ∧
    normalizeRow library table row.table row.after = .ok change.after

/-- The changes are the rows in their order, numbered from zero. -/
structure Buffered (rows : List (SelectedRow Raw)) (active : BufferedTransaction Value) : Prop where
  changes : List.Forall₂ (ChangeOf library tables) active.changes rows
  numbers : active.changes.map BufferedRowChange.messageIndex = range active.changes.length
  next : active.nextMessageIndex = active.changes.length

end

theorem Buffered.snoc {row : SelectedRow Raw} {chg : BufferedRowChange Value}
    (h : Buffered library tables rows active) (hc : ChangeOf library tables chg row)
    (hnumber : chg.messageIndex = active.nextMessageIndex) :
    Buffered library tables (rows ++ [row])
      { active with
        changes := active.changes ++ [chg], nextMessageIndex := active.nextMessageIndex + 1 } where
  changes := rel_append h.changes (.cons hc .nil)
  numbers := by
    rw [map_append, h.numbers, length_append, length_singleton,
      range_succ, map_singleton, hnumber, h.next]
  next := by rw [length_append, length_singleton, h.next]

theorem appendRowChanges_ok {table : AuthoritativeTableIdentity} {event : DecodedRowsEvent Raw}
    {changes : List (MySqlRowChange Raw)} (htable : tables[index]? = some table)
    (hname : table.name = event.table.name) (hbuf : Buffered library tables rows active)
    (h : appendRowChanges library table index event active changes = .ok active') :
    active'.marker = active.marker ∧
    Buffered library tables (rows ++ changes.map fun chg =>
        { table := event.table, operation := event.operation
          before := chg.before, after := chg.after }) active' := by
  induction changes generalizing active rows with
  | nil =>
    cases h
    exact ⟨rfl, by simpa using hbuf⟩
  | cons chg rest ih =>
    obtain ⟨before, hb, h⟩ := of_bind h
    obtain ⟨after, ha, h⟩ := of_bind h
    let row : SelectedRow Raw :=
      { table := event.table, operation := event.operation
        before := chg.before, after := chg.after }
    have hrow : ChangeOf library tables (bufferedRowChange event
      chg index active.nextMessageIndex before after) row := ⟨rfl, table, htable, hname, hb, ha⟩
    obtain ⟨hm, hrest⟩ := ih (hbuf.snoc hrow rfl) h
    refine ⟨hm, ?_⟩
    simpa using hrest

theorem tableIndex_some (h : tableIndex tables name = some index) :
    ∃ table, tables[index]? = some table ∧ table.name = name := by
  obtain ⟨hlt, hname, -⟩ := findIdx?_eq_some_iff_getElem.mp h
  exact ⟨tables[index], List.getElem?_eq_getElem hlt, by simpa using hname⟩

theorem tableIndex_of_mem (h : name ∈ tables.map AuthoritativeTableIdentity.name) :
    ∃ index, tableIndex tables name = some index := by
  obtain ⟨table, hmem, hname⟩ := mem_map.mp h
  apply Option.isSome_iff_exists.mp
  rw [tableIndex, findIdx?_isSome]
  exact any_eq_true.mpr ⟨table, hmem, by simpa using hname⟩

theorem appendRows_ok {event : DecodedRowsEvent Raw} (hbuf : Buffered library tables rows active)
    (hmem : event.table.name ∈ tables.map AuthoritativeTableIdentity.name)
    (h : appendRows library tables active event = .ok active') :
    active'.marker = active.marker ∧
    Buffered library tables (rows ++ event.rows.map fun change =>
        { table := event.table, operation := event.operation
          before := change.before, after := change.after }) active' := by
  replace h := after_check h
  obtain ⟨index, hidx⟩ := tableIndex_of_mem hmem
  obtain ⟨table, htable, hname⟩ := tableIndex_some hidx
  rw [hidx] at h
  simp only [htable] at h
  iterate 3 replace h := after_check h
  exact appendRowChanges_ok htable hname hbuf h

/-! ## Reading -/

variable {event : BinlogEvent Raw} {decoder : MySqlBinlogDecoder} {bytes : ℕ}
  {transaction : LoggedTransaction Raw} {file : Option Bytes}
  {committed : CommittedTransaction} {gtid : Gtid} {res : SourceBatch Value}
variable (source source')

/-- What reading leaves alone. -/
structure KeepsProgress : Prop where
  tables : source'.tables = source.tables
  committedPosition : source'.committedPosition = source.committedPosition
  committedGtids : source'.committedGtids = source.committedGtids
  offsetTracker : source'.offsetTracker = source.offsetTracker
  selectedTables : source'.decoder.selectedTables = source.decoder.selectedTables

/-- Reading that emits nothing leaves the emitted state alone, too. -/
structure KeepsEmitted : Prop extends KeepsProgress source source' where
  emittedPosition : source'.emittedPosition = source.emittedPosition
  emittedGtids : source'.emittedGtids = source.emittedGtids
  pendingTable : source'.pendingTable = source.pendingTable

variable {source source'}

/-- The source and its decoder agree on whether a transaction is active. -/
def InStep (source : MySqlReplicationSource Value) : Prop :=
  source.active.isSome = source.decoder.activeTransaction.isSome

theorem readEvent_ok
    (h : source.readEvent library parser config admission discovered event = .ok (batch, source')) :
    source.pendingTable = none ∧
    ∃ dcd dec, source.decoder.decode config library.toBinlogLibrary event = .ok (dcd, dec) ∧
      acceptEvent library parser admission discovered (source.counting dec event.header.eventBytes)
        event.header.eventBytes dcd = .ok (batch, source') := by
  unfold readEvent at h
  split at h
  · cases h
  rename_i hpending
  split at h
  · cases h
  next dcd dec hdecode => exact ⟨by simpa using hpending, dcd, dec, hdecode, h⟩

theorem keepsEmitted_counting (hsel : decoder.selectedTables = source.decoder.selectedTables) :
    source.KeepsEmitted (source.counting decoder bytes) :=
  { tables := rfl, committedPosition := rfl, committedGtids := rfl
    offsetTracker := rfl, selectedTables := hsel, emittedPosition := rfl
    emittedGtids := rfl, pendingTable := rfl }

theorem read_start
    (h : source.readEvent library parser config admission discovered transaction.startEvent =
      .ok (batch, source')) :
    batch = none ∧
    source.KeepsEmitted source' ∧
    source.decoder.Keeps source'.decoder ∧
    source'.InStep ∧
    ∃ active, source'.active = some active ∧
      active.marker.identity = .gtid transaction.gtid ∧
      Buffered library source.tables [] active := by
  obtain ⟨-, decoded, dec, hdecode, h⟩ := readEvent_ok h
  obtain ⟨⟨marker, rfl, hident⟩, hkeeps, -, hstarted⟩ := decode_start hdecode
  replace h := after_check h
  cases h
  have hcounting : source.KeepsEmitted (source.counting dec
    transaction.startEvent.header.eventBytes) := source.keepsEmitted_counting hkeeps.selectedTables
  refine ⟨rfl, { hcounting with }, hkeeps, ?_, _, rfl, hident, ?_⟩
  · exact hstarted.symm
  · exact ⟨.nil, rfl, rfl⟩

theorem active_counting (h : source.active = some active) : (source.counting decoder bytes).active =
    some { active with encodedBytes := active.encodedBytes + bytes } := by
  simp [counting, h]

theorem Buffered.counting (h : Buffered library tables rows active) :
    Buffered library tables rows { active with encodedBytes := bytes } :=
  { h with }

/-- The source after an event of a body: it has the rows of one more event. -/
structure ReadsBody (library : SourceLibrary Raw Value) (source source' : MySqlReplicationSource
    Value) (event : BinlogEvent Raw) (active : BufferedTransaction Value)
    (rows : List (SelectedRow Raw)) : Prop extends KeepsEmitted source source' where
  filename : source'.decoder.currentPosition.filename = source.decoder.currentPosition.filename
  inStep : source'.InStep
  tableMaps : source'.decoder.tableMaps = event.tableMaps ++ source.decoder.tableMaps
  buffered : ∃ active', source'.active = some active' ∧
    active'.marker = active.marker ∧ Buffered library source.tables (rows ++ event.selectedRows
    (source.tables.map AuthoritativeTableIdentity.name) source.decoder.tableMaps) active'

theorem read_body (hbody : event.data.isBody) (hact : source.active = some active)
    (hstep : source.InStep)
    (hsel :
      source.decoder.selectedTables = some (source.tables.map AuthoritativeTableIdentity.name))
    (hbuf : Buffered library source.tables rows active)
    (h : source.readEvent library parser config admission discovered event = .ok (batch, source')) :
    batch = none ∧ source.ReadsBody library source' event active rows := by
  obtain ⟨-, decoded, dec, hdecode, h⟩ := readEvent_ok h
  have hdecoding : source.decoder.activeTransaction.isSome := by
    rw [← hstep, hact]
    rfl
  obtain ⟨hfile, hselected', hstill, hcases⟩ := decode_body hbody hdecoding hdecode
  have hcounting : source.KeepsEmitted (source.counting dec event.header.eventBytes) :=
    source.keepsEmitted_counting hselected'
  have hcounted : (source.counting dec event.header.eventBytes).active = some
    { active with encodedBytes := active.encodedBytes + event.header.eventBytes } :=
    active_counting hact
  have hinStep : (source.counting dec event.header.eventBytes).InStep := by
    rw [InStep, hcounted]
    exact hstill.symm
  -- Events without rows change only the count.
  have hq : dec.tableMaps = event.tableMaps ++ source.decoder.tableMaps →
      event.selectedRows (source.tables.map AuthoritativeTableIdentity.name)
        source.decoder.tableMaps = [] →
      source.ReadsBody library (source.counting dec event.header.eventBytes)
        event active rows := fun hmaps hnone =>
    { hcounting with
      filename := hfile, inStep := hinStep, tableMaps := hmaps, buffered := ⟨_, hcounted, rfl, by
        rw [hnone, append_nil]
        exact hbuf.counting⟩ }
  rcases hcases with ⟨table, hdata, hmaps, hdec⟩ |
    ⟨rowsEvent, table, hdata, hmaps, htable, hdec⟩ |
    ⟨hnotMap, hnotRows, hmaps, eventType, next, inside, htype, rfl⟩
  · have hev : event.tableMaps = [(table.tableId, table)] := by simp [BinlogEvent.tableMaps, hdata]
    have hnone : event.selectedRows
        (source.tables.map AuthoritativeTableIdentity.name) source.decoder.tableMaps = [] := by
      simp [BinlogEvent.selectedRows, hdata]
    have hreads := hq (by rw [hmaps, hev]; rfl) hnone
    rcases hdec with rfl | ⟨next, rfl⟩
    · replace h := after_check h
      replace h := after_check h
      cases h
      exact ⟨rfl, hreads⟩
    replace h := after_check h
    cases h
    exact ⟨rfl, hreads⟩
  · have hev : event.tableMaps = [] := by simp [BinlogEvent.tableMaps, hdata]
    have hmaps' : dec.tableMaps = event.tableMaps ++ source.decoder.tableMaps := by
      rw [hmaps, hev]
      rfl
    have hname : source.decoder.tableIsSelected table ↔
        table.name ∈ source.tables.map AuthoritativeTableIdentity.name := by
      simp [tableIsSelected, hsel]
    rcases hdec with ⟨hunselected, next, rfl⟩ | ⟨hchosen, decodedRows, rfl, rfl, ho, hrows⟩
    · cases h
      refine ⟨rfl, hq hmaps' ?_⟩
      have hnot : table.name ∉ source.tables.map AuthoritativeTableIdentity.name := by
        rw [← hname, hunselected]
        simp
      simp only [BinlogEvent.selectedRows, hdata, htable]
      rw [if_neg hnot]
    have hmem := hname.mp hchosen
    simp only [acceptEvent, hcounted] at h
    obtain ⟨appended, happend, h⟩ := of_bind h
    cases h
    obtain ⟨hm, happended⟩ := appendRows_ok hbuf.counting hmem happend
    have hrowsOf : event.selectedRows (source.tables.map AuthoritativeTableIdentity.name)
        source.decoder.tableMaps = decodedRows.rows.map fun change =>
          { table := decodedRows.table, operation := decodedRows.operation
            before := change.before, after := change.after } := by
      simp only [BinlogEvent.selectedRows, hdata, htable]
      rw [if_pos hmem, ← hrows, map_map, ho]
      rfl
    refine ⟨rfl, { hcounting with
      filename := hfile, inStep := ?_, tableMaps := hmaps'
      buffered := ⟨appended, rfl, hm, by rwa [hrowsOf]⟩ }⟩
    exact hstill.symm
  have hev : event.tableMaps = [] := by
    unfold BinlogEvent.tableMaps
    split
    · exact absurd ‹_› (hnotMap _)
    · rfl
  have hnone : event.selectedRows
      (source.tables.map AuthoritativeTableIdentity.name) source.decoder.tableMaps = [] := by
    unfold BinlogEvent.selectedRows
    split
    · exact absurd ‹_› (hnotRows _)
    · rfl
  replace h := after_check h
  cases h
  exact ⟨rfl, hq (by rw [hmaps, hev]; rfl) hnone⟩

theorem read_rotation
    (h : source.readEvent library parser config admission discovered
      (Connection.rotationEvent file transaction) = .ok (batch, source')) :
    batch = none ∧
    source.KeepsEmitted source' ∧
    (source.active = none → source'.active = none ∧ source'.InStep) ∧
    source'.decoder.currentPosition.filename = transaction.file ∧
    (source.decoder.tableMaps = [] → source'.decoder.tableMaps = []) := by
  obtain ⟨-, decoded, dec, hdecode, h⟩ := readEvent_ok h
  obtain ⟨hdec, -, hafter, hfile, hsel, hmaps⟩ := decodeRotate_ok (decodeData_of_decode hdecode)
  have hres : batch = none ∧ source' = source.counting dec
      (Connection.rotationEvent file transaction).header.eventBytes := by
    rcases hdec with ⟨prev, next, rfl⟩ | ⟨next, rfl⟩
    all_goals
      cases h
      exact ⟨rfl, rfl⟩
  obtain ⟨rfl, rfl⟩ := hres
  refine ⟨rfl, source.keepsEmitted_counting hsel, fun hact => ?_, hfile, hmaps⟩
  have hnone : (source.counting dec
      (Connection.rotationEvent file transaction).header.eventBytes).active = none := by
    simp [counting, hact]
  refine ⟨hnone, ?_⟩
  rw [InStep, hnone]
  exact (congrArg Option.isSome hafter).symm

theorem read_quiet (hq : event.data.isQuiet file event.header)
    (hfile : ∀ name ∈ file, source.decoder.currentPosition.filename = name)
    (hstep : source.InStep)
    (h : source.readEvent library parser config admission discovered event = .ok (batch, source')) :
    batch = none ∧
    source.KeepsEmitted source' ∧
    source'.InStep ∧
    source'.decoder.currentPosition.filename = source.decoder.currentPosition.filename ∧
    source'.active =
      source.active.map
        (fun active =>
            { active with encodedBytes := active.encodedBytes + event.header.eventBytes }) ∧
    (source'.decoder.tableMaps = source.decoder.tableMaps ∨
      (source.active = none ∧
      (source.decoder.tableMaps = [] → source'.decoder.tableMaps = []))) := by
  obtain ⟨-, decoded, dec, hdecode, h⟩ := readEvent_ok h
  obtain ⟨hdec, hkeeps, hname, hsel, hmaps⟩ := decode_quiet hq hfile hdecode
  have hres : batch = none ∧ source' = source.counting dec event.header.eventBytes := by
    rcases hdec with ⟨prev, next, rfl⟩ | ⟨_, next, inside, -, rfl⟩
    · cases h
      exact ⟨rfl, rfl⟩
    replace h := after_check h
    cases h
    exact ⟨rfl, rfl⟩
  obtain ⟨rfl, rfl⟩ := hres
  refine ⟨rfl, source.keepsEmitted_counting hsel, ?_, hname, rfl, ?_⟩
  · rw [InStep, counting]
    simp only [Option.isSome_map]
    exact hstep.trans hkeeps.symm
  rcases hmaps with hmaps | ⟨hnone, hmaps⟩
  · exact .inl hmaps
  refine .inr ⟨?_, hmaps⟩
  have hout := hstep
  rw [InStep, hnone] at hout
  simpa using hout

/-! ## The end of a transaction -/

/-- The source after a transaction that it emits: the marker leads from the
emitted state to the end of the transaction. -/
structure Emits (parser : SidParser) (source source' : MySqlReplicationSource Value)
    (gtid : Gtid) (position : MySqlBinlogPosition) (marker : MySqlReplicationMarker) :
    Prop extends KeepsProgress source source' where
  previousPosition : marker.previousPosition = source.emittedPosition
  previousGtids : marker.previousGtids = source.emittedGtids
  nextPosition : marker.nextPosition = position
  nextGtids :
    source.emittedGtids.includeTransaction parser gtid.sid gtid.tag gtid.gno = .ok marker.nextGtids
  emittedPosition : source'.emittedPosition = marker.nextPosition
  emittedGtids : source'.emittedGtids = marker.nextGtids

theorem finishTransaction_ok (hact : source.active = some active)
    (hident : active.marker.identity = .gtid gtid)
    (h : source.finishTransaction parser committed = .ok (res, source')) :
    ∃ mk, res = .typed (groupChanges source.tables active.changes) mk ∧
    source.Emits parser source' gtid committed.nextPosition mk ∧ source'.active = none ∧
    source'.pendingTable = source.pendingTable ∧ source'.decoder = source.decoder ∧
    ∀ chg ∈ active.changes, chg.tableIndex < source.tables.length := by
  unfold finishTransaction at h
  simp only [hact] at h
  iterate 3 replace h := after_check h
  simp only [hident] at h
  obtain ⟨hplaces, h⟩ := check_bind_eq_ok.mp h
  split at h
  · cases h
  rename_i nextGtids hinclude
  cases h
  refine ⟨_, rfl, ⟨⟨rfl, rfl, rfl, rfl, rfl⟩, rfl, rfl, rfl, hinclude, rfl, rfl⟩, rfl, rfl, rfl, ?_⟩
  unfold ensureSource at hplaces
  split at hplaces
  next hall => simpa using hall
  · cases hplaces

/-- The source after the end of a transaction. -/
inductive ReadsEnd (library : SourceLibrary Raw Value) (parser : SidParser)
    (admission : AdmissionConfig) (source source' : MySqlReplicationSource Value)
    (transaction : LoggedTransaction Raw) (changes : List (BufferedRowChange Value)) :
    Option (SourceBatch Value) → Prop
  | rolledBack (houtcome : transaction.commits library.toBinlogLibrary = false)
      (hkeeps : source.KeepsEmitted source') :
      ReadsEnd library parser admission source source' transaction changes none
  | emitted (batch : SourceBatch Value) (houtcome : transaction.commits library.toBinlogLibrary =
      true) (hemits : source.Emits parser source' transaction.gtid transaction.endPosition
      batch.commitMarker) (htables : batch.tables = groupChanges source.tables changes) (hplaces : ∀
      change ∈ changes, change.tableIndex < source.tables.length) (hnone : transaction.admittedTable
      library.toBinlogLibrary admission = none) (hpending : source'.pendingTable = none) :
      ReadsEnd library parser admission source source' transaction changes (some batch)
  | admitted (table : AuthoritativeTableIdentity) (marker : MySqlReplicationMarker)
      (houtcome : transaction.commits library.toBinlogLibrary) (hemits : source.Emits parser source'
      transaction.gtid transaction.endPosition marker) (hnone : groupChanges source.tables changes =
      []) (hplaces : ∀ change ∈ changes, change.tableIndex < source.tables.length) (htable :
      transaction.admittedTable library.toBinlogLibrary admission = some table.name) (hpending :
      source'.pendingTable = some { table, position := transaction.endPosition }) : ReadsEnd
      library parser admission source source' transaction changes (some (.dataset table marker))

theorem commits_of_outcome {binlog : BinlogLibrary} {outcome : TransactionOutcome}
    (houtcome : transaction.outcome binlog = outcome) :
    transaction.commits binlog = (outcome ≠ .rolledBack : Bool) := by
  rw [commits, houtcome]

theorem ensureSource_ok {cond : Bool} {text : String} (h : ensureSource cond text = .ok ()) :
    cond := by
  unfold ensureSource at h
  split at h
  · assumption
  · cases h

theorem admitCreatedTable_ok {table : TableName}
    (houtcome : transaction.outcome library.toBinlogLibrary = .created table)
    (hpos : committed.nextPosition = transaction.endPosition) (hact : source.active = some active)
    (hident : active.marker.identity = .gtid transaction.gtid)
    (hpending : source.pendingTable = none)
    (h :
      source.admitCreatedTable parser admission discovered table committed = .ok (res, source')) :
    ReadsEnd library parser admission source source' transaction active.changes (some res) ∧
    source'.active = none ∧
    source'.decoder = source.decoder := by
  have hcommits : transaction.commits library.toBinlogLibrary := commits_of_outcome houtcome
  -- A table that is not taken in ends its transaction like any other.
  have hordinary : transaction.admittedTable library.toBinlogLibrary admission = none →
      source.finishTransaction parser committed = .ok (res, source') →
      ReadsEnd library parser admission source source' transaction active.changes (some res) ∧
      source'.active = none ∧ source'.decoder = source.decoder := by
    intro hnone hfinish
    obtain ⟨marker, rfl, hemits, hended, hstill, hdecoder, hplaces⟩ :=
      finishTransaction_ok hact hident hfinish
    exact ⟨.emitted _ hcommits (hpos ▸ hemits) rfl hplaces hnone (hstill.trans hpending), hended,
        hdecoder⟩
  unfold admitCreatedTable at h
  split at h
  next hdb' =>
    refine hordinary ?_ h
    have hdb' : admission.includesDatabase table.database = false := by simpa using hdb'
    simp [admittedTable, houtcome, hdb']
  rename_i hdb'
  have hdb' : admission.includesDatabase table.database := by simpa using hdb'
  replace h := after_check h
  split at h
  next hs =>
    refine hordinary ?_ h
    rw [admittedTable, houtcome]
    rcases hs with hs | hs
    · simp [hs]
    · simp [hs]
  rename_i hchosen
  rw [not_or] at hchosen
  iterate 3 replace h := after_check h
  obtain ⟨found, -, h⟩ := of_bind h
  obtain ⟨hget, h⟩ := check_bind_eq_ok.mp h
  have hname : found.name = table := by simpa using ensureSource_ok hget
  obtain ⟨⟨batch, after⟩, hfinish, h⟩ := of_bind h
  obtain ⟨marker, hbatch, hemits, hended, -, hdecoder, hplaces⟩ := finishTransaction_ok hact hident
      hfinish
  simp only at h
  split at h
  · cases h
    obtain ⟨hgroups, rfl⟩ := SourceBatch.typed.inj hbatch
    refine ⟨.admitted found _ hcommits ?_ ?_ hplaces ?_ ?_, hended, hdecoder⟩
    · exact hpos ▸ { hemits with }
    · exact hgroups.symm
    · simp [admittedTable, houtcome, hdb', hchosen.1, hchosen.2, hname]
    · simp [hpos]
  · cases h
  · cases h

section
variable (hsel : decoder.selectedTables = source.decoder.selectedTables)
include hsel

theorem Emits.of_counting {pos : MySqlBinlogPosition} {marker : MySqlReplicationMarker}
    (h : (source.counting decoder bytes).Emits parser source' gtid pos marker) :
    source.Emits parser source' gtid pos marker :=
  { h with selectedTables := h.selectedTables.trans hsel }

theorem ReadsEnd.of_counting {changes : List (BufferedRowChange Value)}
    (h :
      ReadsEnd library parser admission (source.counting decoder bytes) source' transaction changes
        batch) : ReadsEnd library parser admission source source' transaction changes batch := by
  cases h with
  | rolledBack houtcome hkeeps =>
    exact .rolledBack houtcome { hkeeps with selectedTables := hkeeps.selectedTables.trans hsel }
  | emitted batch houtcome hemits htables hplaces hnone hpending =>
    exact .emitted batch houtcome (hemits.of_counting hsel) htables hplaces hnone hpending
  | admitted table marker houtcome hemits hnone hplaces htable hpending =>
    exact .admitted table marker houtcome (hemits.of_counting hsel) hnone hplaces htable hpending

end

theorem read_end (hfinish : transaction.finish.logPos ≠ 0)
    (hending : transaction.endEvent.data.isBody = false)
    (hfile : source.decoder.currentPosition.filename = transaction.file)
    (hact : source.active = some active) (hident : active.marker.identity = .gtid transaction.gtid)
    (h : source.readEvent library parser config admission discovered transaction.endEvent =
        .ok (batch, source')) :
    ReadsEnd library parser admission source source' transaction active.changes batch ∧
    source'.active = none ∧ source'.InStep ∧
    source'.decoder.currentPosition.filename = transaction.file ∧
    source'.decoder.tableMaps = [] := by
  obtain ⟨hpending, decoded, dec, hdecode, h⟩ := readEvent_ok h
  obtain ⟨hends, hname, hsel, hmaps, hnone⟩ := decode_end hfinish hending hfile hdecode
  -- The dec is left as it was after decoding.
  have hres : ∀ {res : Option (SourceBatch Value)},
      ReadsEnd library parser admission (source.counting dec transaction.endEvent.header.eventBytes)
      source' transaction active.changes res → source'.active = none → source'.decoder = dec →
      ReadsEnd library parser admission source source' transaction active.changes res ∧
      source'.active = none ∧ source'.InStep ∧ source'.decoder.currentPosition.filename =
      transaction.file ∧ source'.decoder.tableMaps = [] := by
    rintro res hreads hended rfl
    refine ⟨hreads.of_counting hsel, hended, ?_, hname, hmaps⟩
    rw [InStep, hended, hnone]
    rfl
  have hcounted : (source.counting dec
      transaction.endEvent.header.eventBytes).active = some { active with
        encodedBytes := active.encodedBytes + transaction.endEvent.header.eventBytes } :=
    active_counting hact
  cases hends with
  | committed committed houtcome hpos =>
    obtain ⟨⟨res, after⟩, hf, h⟩ := of_bind h
    cases h
    obtain ⟨marker, rfl, hemits, hended, hstill, hdecoder, hplaces⟩ :=
      finishTransaction_ok hcounted hident hf
    refine hres (.emitted _ (commits_of_outcome houtcome)
      (hpos ▸ hemits) rfl hplaces ?_ (hstill.trans hpending)) hended hdecoder
    simp [admittedTable, houtcome]
  | created table committed houtcome hpos =>
    obtain ⟨⟨res, after⟩, ha, h⟩ := of_bind h
    cases h
    obtain ⟨hreads, hended, hdecoder⟩ := admitCreatedTable_ok houtcome hpos hcounted hident hpending
        ha
    exact hres hreads hended hdecoder
  | rolledBack rolledBack houtcome =>
    simp only [acceptEvent, hcounted] at h
    replace h := after_check h
    cases h
    exact hres (.rolledBack (commits_of_outcome houtcome)
      ⟨⟨rfl, rfl, rfl, rfl, rfl⟩, rfl, rfl, rfl⟩) rfl rfl

end MySqlReplicationSource
end Transferia.MySql
