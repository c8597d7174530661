import Transferia.MySql.ReplicationInvariant

/-!
# Writing and committing

A write that applies replaces exactly the record that its writer has read.  A
commit follows the markers one after the other, and since no two states of the
log have one GTID set, the markers are the next ones that were emitted.
-/

namespace Transferia.MySql
open List Option Registry Support Nat ReplicationRun MySqlReplicationSource
variable {Raw Value : Type} {setting : ReplicationSetting Raw Value}
  {origin : ReplicationOffsetState} {run run' : ReplicationRun Raw Value}
  {late : LateWrite} {revision next : ℕ} {indices : List ℕ} {pos : MySqlBinlogPosition}
  {gtids : GtidSet} {record : Option ReplicationOffsetState}

/-! ## One write -/

theorem write_ok (h : run.write late = some (run', revision)) :
    (run.storage replicationOffsetStateKey).map DurableValue.revision = late.expectedRevision ∧
      nextRevision late.expectedRevision = .ok revision ∧
      run' = { run with
        storage := Function.update run.storage replicationOffsetStateKey
          (some { revision, payload := late.payload })
        written := run.written ++ [(late.index, late.payload)] } := by
  unfold write at h
  split at h
  next value storage hw =>
    rcases DurableStorage.compareExchange_ok hw with
      ⟨current, hc, -⟩ | ⟨next, hr, hnext, happlied, hstorage⟩
    · cases hc
    cases happlied
    cases h
    exact ⟨hr, hnext, by rw [hstorage]⟩
  · cases h

theorem nextRevision_some (h : nextRevision (some revision) = .ok next) : next = revision + 1 := by
  simp only [nextRevision] at h
  split at h
  · cases h
    rfl
  · cases h

/-- What a write leaves behind, apart from the record itself. -/
structure Writes (run run' : ReplicationRun Raw Value) (late : LateWrite) (revision : ℕ) :
    Prop where
  stored : run'.storage replicationOffsetStateKey = some { revision, payload := late.payload }
  written : run'.written = run.written ++ [(late.index, late.payload)]
  lateWrites : run'.lateWrites = run.lateWrites
  acknowledged : run'.acknowledged = run.acknowledged

theorem writes_of_write (h : run.write late = some (run', revision)) :
    Writes run run' late revision := by
  obtain ⟨-, -, rfl⟩ := write_ok h
  exact ⟨by simp, rfl, rfl, rfl⟩

theorem Based.write {expected : ℕ} {entry : ℕ × ReplicationOffsetState}
    (h : Based run revision entry) (hexp : late.expectedRevision = some expected)
    (hw : run.write late = some (run', next)) : Based run' revision entry := by
  obtain ⟨hr, hnext, -⟩ := write_ok hw
  obtain ⟨cur, hcur, hle, -⟩ := h
  rw [hexp] at hr hnext
  rw [hcur, map_some, some_inj] at hr
  have hnext := nextRevision_some hnext
  refine ⟨_, (writes_of_write hw).stored, ?_, fun heq => ?_⟩
  · change revision ≤ next
    omega
  change next = revision at heq
  omega

theorem LateWriteOk.written (h : LateWriteOk setting origin run late revision)
    (hexp : late.expectedRevision = some revision) (hw : run.write late = some (run', next)) :
    ∃ entry, run.written.getLast? = some entry ∧
    Advance setting origin entry (late.index, late.payload) := by
  obtain ⟨hr, -, -⟩ := write_ok hw
  obtain ⟨entry, ⟨cur, hcur, -, hlast⟩, hadvance⟩ := h.base
  rw [hexp, hcur, map_some, some_inj] at hr
  exact ⟨entry, hlast hr, hadvance⟩

theorem Stored.write (h : Stored setting origin run)
    (hlate : LateWriteOk setting origin run late revision)
    (hexp : late.expectedRevision = some revision) (hw : run.write late = some (run', next)) :
    Stored setting origin run' := by
  have hwrites := writes_of_write hw
  obtain ⟨entry, hlast, hadvance⟩ := hlate.written hexp hw
  refine ⟨h.starts, ?_, ⟨_, late.index, hwrites.stored, ?_⟩, ?_, ?_, ?_⟩
  · rw [hwrites.written, head?_append, h.first]
    rfl
  · rw [hwrites.written, getLast?_concat]
  · intro record hmem
    rw [hwrites.acknowledged]
    rw [hwrites.written, mem_append, mem_singleton] at hmem
    rcases hmem with hold | rfl
    · exact h.records record hold
    · exact ⟨hlate.record, hlate.acknowledged⟩
  · rw [hwrites.written, isChain_append]
    refine ⟨h.chain, isChain_singleton _, fun old hold new hnew => ?_⟩
    cases hlast.symm.trans hold
    cases hnew
    exact hadvance
  intro other hother expected hr
  rw [hwrites.lateWrites] at hother
  have hok := h.late other hother expected hr
  obtain ⟨base, hbased, hbase⟩ := hok.base
  refine ⟨hok.record, ?_, base, hbased.write hexp hw, hbase⟩
  rw [hwrites.acknowledged]
  exact hok.acknowledged

theorem positionOrFail_eq_ok {α : Type} {res : Except PositionError α} {value : α} :
    positionOrFail res = .ok value ↔ res = .ok value := by
  cases res <;> simp [positionOrFail]

theorem StartsFrom.canonical (h : StartsFrom setting origin) : origin.committedGtids.Canonical := by
  obtain ⟨tables, boundary, executed, purged, h⟩ := h
  cases boundary with
  | none => cases h
  | some boundary =>
    obtain ⟨pos, -, h⟩ := of_bind h
    obtain ⟨gtids, -, h⟩ := of_bind h
    obtain ⟨hcontinuity, h⟩ := check_bind_eq_ok.mp h
    cases h
    obtain ⟨hvalid, -⟩ := check_bind_eq_ok.mp hcontinuity
    exact GtidSet.canonical_of_validate (positionOrFail_eq_ok.mp hvalid)

/-! ## Following markers -/

theorem ensureSource_eq_ok {cond : Bool} {text : String} :
    ensureSource cond text = .ok () ↔ cond := by
  cases cond <;> simp [ensureSource]

theorem followMarkers_ok (hlog : WellFormedLog setting.history)
    (hcanon : origin.committedGtids.Canonical) {emitted : List (SourceBatch Value)}
    {start count : ℕ}
    (hbatches : ∀ place batch, emitted[place]? = some batch →
      EmittedAt setting origin (start + place) batch) {bs : List (SourceBatch Value)}
    {pos' : MySqlBinlogPosition} {gtids' : GtidSet} {tables : List TableName}
    (hcount : count ≤ emitted.length) (hat : After setting origin (start + count) pos gtids tables)
    (hmap : indices.mapM (fun index => emitted[index]?) = some bs)
    (h : followMarkers setting.parser pos gtids (bs.map SourceBatch.commitMarker) =
        .ok (pos', gtids')) :
    indices = range' count indices.length ∧ count + indices.length ≤ emitted.length ∧
    ∃ tables', After setting origin (start + count + indices.length) pos' gtids' tables' := by
  induction indices generalizing bs pos gtids tables count with
  | nil =>
    cases hmap
    cases h
    exact ⟨rfl, hcount, tables, hat⟩
  | cons index rest ih =>
    rw [mapM_cons] at hmap
    obtain ⟨batch, hbatch, hmap⟩ := bind_eq_some_iff.mp hmap
    obtain ⟨later, hlater, hmap⟩ := bind_eq_some_iff.mp hmap
    cases hmap
    obtain ⟨hm, h⟩ := check_bind_eq_ok.mp h
    obtain ⟨-, hgtids⟩ := Bool.and_eq_true_iff.mp (ensureSource_eq_ok.mp hm)
    obtain ⟨txn, names, changes, he⟩ := hbatches index batch hbatch
    -- The marker starts where the followed ones end.
    have hidx : index = count := by
      have hprev := he.previous
      rw [of_decide_eq_true hgtids] at hprev
      have := hprev.index_inj hlog hcanon hat
      omega
    subst hidx
    obtain ⟨hlt, -⟩ := List.getElem?_eq_some_iff.mp hbatch
    split at h
    · cases h
    split at h
    · cases h
    have hnext : After setting origin (start + (index + 1)) batch.commitMarker.nextPosition
      batch.commitMarker.nextGtids (tableNames names ++ (setting.admitted txn).toList) := he.next
    obtain ⟨hrest, hle, after, hafter⟩ := ih hlt hnext hlater h
    refine ⟨?_, ?_, after, ?_⟩
    · rw [length_cons, range'_succ, ← hrest]
    · rw [length_cons]
      omega
    rw [length_cons]
    convert hafter using 1
    omega

/-! ## The record of a commit -/

namespace MySqlReplicationSource

/-- The tables that join the delivery with a commit up to `position`. -/
def admittedAt (source : MySqlReplicationSource Value) (position : MySqlBinlogPosition) :
    List AuthoritativeTableIdentity :=
  (source.pendingTable.filter fun pending =>
    pending.position = position).toList.map PendingTable.table

variable (source : MySqlReplicationSource Value)
  (tracker : MySqlReplicationOffsetTracker) (position : MySqlBinlogPosition) (gtids : GtidSet)
  {src : MySqlReplicationSource Value}

/-- What a commit leaves alone or sets outright. -/
structure FinishesCommit (source source' : MySqlReplicationSource Value) (tracker :
    MySqlReplicationOffsetTracker) (position : MySqlBinlogPosition) (gtids : GtidSet) : Prop where
  offsetTracker : source'.offsetTracker = tracker
  committedPosition : source'.committedPosition = position
  committedGtids : source'.committedGtids = gtids
  emittedPosition : source'.emittedPosition = source.emittedPosition
  emittedGtids : source'.emittedGtids = source.emittedGtids
  active : source'.active = source.active
  currentPosition : source'.decoder.currentPosition = source.decoder.currentPosition
  activeTransaction : source'.decoder.activeTransaction = source.decoder.activeTransaction
  tableMaps : source'.decoder.tableMaps = source.decoder.tableMaps
  pendingTable : source'.pendingTable = source.pendingTable.filter (·.position ≠ position)

theorem finishesCommit :
    source.FinishesCommit (source.finishCommit tracker position gtids) tracker position gtids := by
  unfold finishCommit
  cases hpend : source.pendingTable with
  | none => constructor <;> simp [hpend]
  | some pending =>
    by_cases h : pending.position = position
    all_goals constructor <;> simp [h, hpend, filter_some]

theorem finishCommit_tables : (source.finishCommit tracker position gtids).tables =
    source.tables ++ source.admittedAt position := by
  unfold finishCommit admittedAt
  cases source.pendingTable with
  | none => simp
  | some pending => by_cases h : pending.position = position <;> simp [h, filter_some]

theorem finishCommit_pending :
    tableNames (source.admittedAt position) ++
      ((source.finishCommit tracker position gtids).pendingTable.map (·.table.name)).toList =
      (source.pendingTable.map (·.table.name)).toList := by
  unfold finishCommit admittedAt
  cases source.pendingTable with
  | none => simp
  | some pending => by_cases h : pending.position = position <;> simp [h]

theorem finishCommit_selected (h : src.decoder.selectedTables = some (tableNames src.tables)) :
    (src.finishCommit tracker position gtids).decoder.selectedTables =
      some (tableNames (src.finishCommit tracker position gtids).tables) := by
  unfold finishCommit
  cases src.pendingTable with
  | none => exact h
  | some pending =>
    by_cases hpos : pending.position = position
    · simp [hpos]
    · simpa [hpos] using h

end MySqlReplicationSource
open MySqlReplicationSource

theorem admitTables_ok {tables added res : List AuthoritativeTableIdentity}
    (h : admitTables tables added = .ok res) : res = tables ++ added := by
  induction added generalizing tables with
  | nil =>
    cases h
    rw [append_nil]
  | cons table rest ih =>
    replace h := after_check h
    rw [ih h, append_assoc, singleton_append]

variable {trk : MySqlReplicationOffsetTracker}

theorem storeAdmission_ok {parser : SidParser} {added : List AuthoritativeTableIdentity}
    (h : trk.storeAdmission parser pos gtids added = .ok record) :
    record = none ∧ gtids = trk.identity.committedGtids ∨ record = some { trk.identity with
        committedPosition := pos, committedGtids := gtids
        authoritativeTables := trk.identity.authoritativeTables ++ added } := by
  iterate 3 replace h := after_check h
  split at h
  next hsame =>
    cases h
    exact .inl ⟨rfl, hsame.2.1⟩
  · obtain ⟨tables, htables, h⟩ := of_bind h
    rw [admitTables_ok htables] at h
    split at h
    · replace h := after_check h
      cases h
      exact .inr rfl
    cases h
    exact .inr rfl

theorem prepareCommit_ok {src : MySqlReplicationSource Value} {parser : SidParser}
    {mks : List MySqlReplicationMarker}
    (h : src.prepareCommit parser mks = .ok (pos, gtids, record)) :
    followMarkers parser src.committedPosition src.committedGtids mks = .ok (pos, gtids) ∧
    mks ≠ [] ∧
    src.offsetTracker.storeAdmission parser pos gtids (src.admittedAt pos) = .ok record := by
  obtain ⟨⟨last, set⟩, hfollow, h⟩ := of_bind h
  obtain ⟨hn, h⟩ := check_bind_eq_ok.mp h
  dsimp only at h
  split at h
  · cases h
  rename_i hstore
  cases h
  exact ⟨hfollow, of_decide_eq_true (ensureSource_eq_ok.mp hn), hstore⟩

/-! ## The tables of a commit -/

theorem After.tables_eq {index other : ℕ} {pos' : MySqlBinlogPosition} {gtids' : GtidSet}
    {tables tables' : List TableName} (h : After setting origin index pos gtids tables)
    (h' : After setting origin other pos' gtids' tables') (hle : index ≤ other)
    (hnone : ∀ place txn, index ≤ place → place < other →
      (setting.missing origin.committedGtids)[place]? = some txn → ¬(setting.admitted txn).isSome) :
    tables' = tables := by
  obtain ⟨count, rfl⟩ := Nat.exists_eq_add_of_le hle
  rw [h.tables, h'.tables, take_add, filterMap_append]
  have hnil : (((setting.missing origin.committedGtids).drop index).take count).filterMap
      setting.admitted = [] := by
    refine filterMap_eq_nil_iff.mpr fun txn hmem => ?_
    obtain ⟨i, hget⟩ := mem_iff_getElem?.mp hmem
    rw [getElem?_take] at hget
    split at hget
    · rw [getElem?_drop] at hget
      simpa using hnone (index + i) txn (by omega) (by omega) hget
    · cases hget
  rw [hnil, append_nil]

section
variable {source : MySqlReplicationSource Value} (hlog : WellFormedLog setting.history)
  (hproc : Process setting origin run source) {count : ℕ}
  (hcount : 0 < count) (hle : run.committed + count ≤ run.emitted.length)
  {position : MySqlBinlogPosition} {gtids : GtidSet} {tables : List TableName}
  (h : After setting origin (run.startedAt + run.committed + count) position gtids tables)
include hlog hproc hcount hle h

theorem Process.pending_position {pend : PendingTable} (hpend : source.pendingTable = some pend) :
    pend.position = position ↔ run.committed + count = run.emitted.length := by
  obtain ⟨creating, hcreating, hend, -⟩ := (hproc.pending pend hpend).creates
  have hlast : run.startedAt + run.committed + count =
      run.startedAt + run.committed + (count - 1) + 1 := by omega
  obtain ⟨transaction, hplace⟩ : ∃ transaction, (setting.missing origin.committedGtids)[
        run.startedAt + run.committed + (count - 1)]? = some transaction := by
    have := h.le
    exact ⟨_, getElem?_eq_getElem (by omega)⟩
  have hpos : position = transaction.endPosition := (hlast ▸ h).position_eq hplace
  rw [← hend, hpos]
  constructor
  · intro heq
    have := After.place_inj (After.nodup_positions hlog) hcreating hplace heq
    omega
  intro hall
  have hsame : run.startedAt + (run.emitted.length - 1) =
      run.startedAt + run.committed + (count - 1) := by omega
  rw [hsame] at hcreating
  rw [some.inj (hcreating.symm.trans hplace)]

/-- Between the committed and the emitted state there is at most one created
table, and it belongs to the position at which its transaction ends. -/
theorem Process.tables_after (hobserved : Observed setting origin run) :
    tables = tableNames source.tables ++ tableNames (source.admittedAt position) := by
  cases hpend : source.pendingTable with
  | none =>
    have hnames : tables = tableNames source.tables := by
      apply hproc.committed.tables_eq h (by omega)
      intro place txn hfrom hto hplace ha
      have := (hproc.unadmitted place txn hfrom (by omega) hplace ha).1
      simp [hpend] at this
    simp [hnames, admittedAt, hpend]
  | some pending =>
    have hmatch := hproc.pending_position hlog hcount hle h hpend
    by_cases hall : run.committed + count = run.emitted.length
    · obtain ⟨creating, hcreating, -, hadmits⟩ := (hproc.pending pending hpend).creates
      obtain ⟨batch, hbatch⟩ : ∃ batch, run.emitted[run.emitted.length - 1]? = some batch :=
        ⟨_, getElem?_eq_getElem (by omega)⟩
      obtain ⟨txn, names, changes, he⟩ := hobserved.batches _ batch hbatch
      have hsame : txn = creating := some.inj (he.place.symm.trans hcreating)
      have hnames : tableNames names = tableNames source.tables := by
        apply hproc.committed.tables_eq he.previous (by omega)
        intro place other hfrom hto hplace ha
        have := (hproc.unadmitted place other hfrom (by omega) hplace ha).2
        omega
      have htables : tables = tableNames names ++ (setting.admitted txn).toList := by
        apply he.next.tables_eq h (by omega)
        omega
      rw [htables, hnames, hsame, hadmits]
      simp [admittedAt, hpend, hmatch.mpr hall, filter_some]
    -- The creating txn is not among the committed ones.
    have hnames : tables = tableNames source.tables := by
      apply hproc.committed.tables_eq h (by omega)
      intro place txn hfrom hto hplace ha
      have := (hproc.unadmitted place txn hfrom (by omega) hplace ha).2
      omega
    simp [hnames, admittedAt, hpend, mt hmatch.mp hall]

end

/-! ## Commits -/

/-- A commit of `count` markers stores `payload`. -/
structure Commits (setting : ReplicationSetting Raw Value) (origin : ReplicationOffsetState)
    (run : ReplicationRun Raw Value) (source : MySqlReplicationSource Value) (count : ℕ) (position :
    MySqlBinlogPosition) (gtids : GtidSet) (payload : ReplicationOffsetState) : Prop where
  positive : 0 < count
  le : run.committed + count ≤ run.emitted.length
  contents : payload = { source.offsetTracker.identity with
    committedPosition := position, committedGtids := gtids
    authoritativeTables := source.tables ++ source.admittedAt position }
  record : RecordAt setting origin (run.startedAt + run.committed + count, payload)
  advance : Advance setting origin (run.startedAt + run.committed, source.offsetTracker.identity)
    (run.startedAt + run.committed + count, payload)

theorem commits_of_prepareCommit (hlog : WellFormedLog setting.history)
    (hcanon : origin.committedGtids.Canonical) {src : MySqlReplicationSource Value}
    (hproc : Process setting origin run src) (hobserved : Observed setting origin run)
    {bs : List (SourceBatch Value)}
    (hmap : indices.mapM (fun index => run.emitted[index]?) = some bs)
    (h : src.prepareCommit setting.parser (bs.map SourceBatch.commitMarker) =
        .ok (pos, gtids, record)) :
    indices = range' run.committed indices.length ∧ ∃ payload, record = some payload ∧
    Commits setting origin run src indices.length pos gtids payload := by
  obtain ⟨hfollow, hn, hstore⟩ := prepareCommit_ok h
  obtain ⟨hindices, hle, tables, hafter⟩ :=
    followMarkers_ok hlog hcanon hobserved.batches hobserved.le hproc.committed hmap hfollow
  have hp : 0 < indices.length := by
    refine length_pos_iff.mpr fun hnil => hn ?_
    subst hnil
    cases hmap
    rfl
  refine ⟨hindices, ?_⟩
  rcases storeAdmission_ok hstore with ⟨-, hsame⟩ | hrec
  · -- The GTID set of a later state is another one.
    rw [hsame, hproc.gtids] at hafter
    have := hafter.index_inj hlog hcanon hproc.committed
    omega
  have htables := hproc.tables_after hlog hp hle hafter hobserved
  rw [hproc.tables] at hrec
  refine ⟨_, hrec, hp, hle, rfl, ?_, ?_, ?_⟩
  · change After setting origin _ pos gtids (tableNames (src.tables ++ src.admittedAt pos))
    rw [tableNames, map_append]
    exact htables ▸ hafter
  · omega
  intro place txn hfrom hto hplace ha
  have := (hproc.unadmitted place txn hfrom (by omega) hplace ha).2
  omega

variable {src : MySqlReplicationSource Value}

theorem Process.finishCommit (hlog : WellFormedLog setting.history)
    (h : Process setting origin run src) {position : MySqlBinlogPosition}
    {body : ReplicationOffsetState}
    (hcommits : Commits setting origin run src indices.length position gtids body)
    (hstarted : run'.startedAt = run.startedAt) (hemitted : run'.emitted = run.emitted)
    (haccepted : run'.accepted = run.accepted ++ [indices]) (hr : run'.requested = run.requested)
    (hbased : Based run' revision (run.startedAt + run.committed + indices.length, body)) :
    Process setting origin run'
      (src.finishCommit { revision, identity := body } position gtids) := by
  have hc : run'.committed = run.committed + indices.length := by
    simp [ReplicationRun.committed, haccepted]
  have hfinish := src.finishesCommit { revision, identity := body } position gtids
  have htables := src.finishCommit_tables { revision, identity := body } position gtids
  have hrec : After setting origin (run.startedAt + run.committed + indices.length) position gtids
      (tableNames (src.tables ++ src.admittedAt position)) := by
    have := hcommits.record
    rwa [hcommits.contents] at this
  have hplace : run'.startedAt + run'.committed = run.startedAt + run.committed + indices.length :=
      by
    rw [hstarted, hc, Nat.add_assoc]
  refine
    { based := ?_, position := ?_, gtids := ?_, tables := ?_, committed := ?_
      emitted := ?_, pending := ?_, unadmitted := ?_, requested := ?_
      selected := src.finishCommit_selected _ _ _ h.selected }
  · rw [hfinish.offsetTracker, hplace]
    exact hbased
  · rw [hfinish.offsetTracker, hfinish.committedPosition, hcommits.contents]
  · rw [hfinish.offsetTracker, hfinish.committedGtids, hcommits.contents]
  · rw [hfinish.offsetTracker, htables, hcommits.contents]
  · rw [hplace, hfinish.committedPosition, hfinish.committedGtids, htables]
    exact hrec
  · rw [hstarted, hemitted, hfinish.emittedPosition, hfinish.emittedGtids,
      htables, tableNames, map_append, append_assoc, src.finishCommit_pending]
    exact h.emitted
  · intro pending hpend
    rw [hfinish.pendingTable] at hpend
    obtain ⟨hold, hother⟩ := filter_eq_some_iff.mp hpend
    have hmatch := h.pending_position hlog hcommits.positive hcommits.le hrec hold
    have hne := mt hmatch.mpr (of_decide_eq_true hother)
    have hle := hcommits.le
    constructor
    · rw [hc, hemitted]
      omega
    rw [hstarted, hemitted]
    exact (h.pending pending hold).creates
  · intro place txn hfrom hto hmissing ha
    rw [hstarted, hemitted] at hto ⊢
    obtain ⟨hpend, hlast⟩ := h.unadmitted place txn (by omega) hto hmissing ha
    refine ⟨?_, hlast⟩
    obtain ⟨pending, hpend⟩ := isSome_iff_exists.mp hpend
    have hmatch := h.pending_position hlog hcommits.positive hcommits.le hrec hpend
    have hne : pending.position ≠ position := mt hmatch.mp (by omega)
    simp [hfinish.pendingTable, hpend, hne]
  rw [hstarted, hr]
  exact h.requested

theorem Place.finishCommit {conn : Connection Raw}
    {remaining : List (LoggedTransaction Raw)} (h : Place setting conn src remaining)
    (trk : MySqlReplicationOffsetTracker) (pos : MySqlBinlogPosition) (gtids : GtidSet) :
    Place setting conn (src.finishCommit trk pos gtids) remaining := by
  have hfinish := src.finishesCommit trk pos gtids
  cases h with
  | between hcur hact ht =>
    exact .between hcur (hfinish.active.trans hact) (hfinish.tableMaps.trans ht)
  | inside txn done active hins =>
    -- Inside a txn no table is pending, so none joins.
    have htables : (src.finishCommit trk pos gtids).tables = src.tables := by
      rw [src.finishCommit_tables, admittedAt, hins.pending]
      simp
    refine .inside txn done active
      { file := hins.file, body := hins.body, buffering := hfinish.active.trans hins.buffering
        identity := hins.identity, buffered := ?_
        tableMaps := hfinish.tableMaps.trans hins.tableMaps, pending := ?_ }
    · rw [htables]
      exact hins.buffered
    rw [hfinish.pendingTable, hins.pending]
    rfl

theorem Reads.finishCommit (h : Reads setting origin run src)
    (hconnect : run'.connection = run.connection) (hstarted : run'.startedAt = run.startedAt)
    (hemitted : run'.emitted = run.emitted) :
    Reads setting origin run' (src.finishCommit trk pos gtids) := by
  have hfinish := src.finishesCommit trk pos gtids
  obtain ⟨rem, hplace, hhistory, hr⟩ := h.place
  refine ⟨?_, ?_, rem, ?_, hhistory, ?_⟩
  · rw [MySqlReplicationSource.InStep, hfinish.active, hfinish.activeTransaction]
    exact h.inStep
  · rw [hconnect, hfinish.currentPosition]
    exact h.file
  · rw [hconnect]
    exact hplace.finishCommit trk pos gtids
  rw [hstarted, hemitted]
  exact hr

theorem Observed.commit (h : Observed setting origin run)
    (hindices : indices = range' run.committed indices.length)
    (hle : run.committed + indices.length ≤ run.emitted.length)
    (ha : run'.accepted = run.accepted ++ [indices]) (hstarted : run'.startedAt = run.startedAt)
    (hemitted : run'.emitted = run.emitted) (hcomplete : run'.completeAtRead = run.completeAtRead)
    (hrequested : run'.requested = run.requested) : Observed setting origin run' := by
  have hc : run'.committed = run.committed + indices.length := by simp [committed, ha]
  refine ⟨?_, ?_, ?_, ?_, ?_, ?_⟩
  · rw [ha, flatten_append, h.accepted, flatten_singleton,
      hindices, hc, range_eq_range', range_eq_range', ← range'_append_1, Nat.zero_add]
  · rw [hc, hemitted]
    exact hle
  · rw [hstarted, hemitted]
    exact h.batches
  · rw [hcomplete, hstarted, hemitted]
    exact h.complete
  · intro place txn hlt hplace hadmitted
    rw [hcomplete] at hlt
    have := h.waited place txn hlt hplace hadmitted
    omega
  rw [hemitted, hstarted, hrequested]
  exact h.requested

/-! ## The steps that write -/

theorem Stored.frame (h : Stored setting origin run) (hstorage : run'.storage = run.storage)
    (hwritten : run'.written = run.written) (hack : run.acknowledged ≤ run'.acknowledged)
    (hlate : ∀ late ∈ run'.lateWrites, late ∈ run.lateWrites ∨ ∀ rev, late.expectedRevision =
    some rev → LateWriteOk setting origin run' late rev) : Stored setting origin run' := by
  refine ⟨h.starts, ?_, ?_, ?_, ?_, ?_⟩
  · rw [hwritten]
    exact h.first
  · rw [hstorage, hwritten]
    exact h.current
  · intro entry hmem
    rw [hwritten] at hmem
    obtain ⟨hrec, hle⟩ := h.records entry hmem
    exact ⟨hrec, hle.trans hack⟩
  · rw [hwritten]
    exact h.chain
  intro late hmem rev hexp
  rcases hlate late hmem with hold | hnew
  · obtain ⟨hrec, hle, entry, hbased, hadvance⟩ := h.late late hold rev hexp
    refine ⟨hrec, hle.trans hack, entry, ?_, hadvance⟩
    rw [Based, hstorage, hwritten]
    exact hbased
  exact hnew rev hexp

/-- A step that leaves the process alone, or ends it. -/
structure KeepsProcess (run run' : ReplicationRun Raw Value) : Prop where
  source : ∀ source, run'.source = some source → run.source = some source
  connection : run'.connection = run.connection
  startedAt : run'.startedAt = run.startedAt
  requested : run'.requested = run.requested
  emitted : run'.emitted = run.emitted
  accepted : run'.accepted = run.accepted
  completeAtRead : run'.completeAtRead = run.completeAtRead

theorem Observed.frame (h : Observed setting origin run) (hkeep : KeepsProcess run run') :
    Observed setting origin run' := by
  have hc : run'.committed = run.committed := by rw [committed, hkeep.accepted, committed]
  obtain ⟨ha, hle, hbatches, hcomplete, hwaited, hr⟩ := h
  constructor
  · rw [hkeep.accepted, hc]
    exact ha
  · rw [hc, hkeep.emitted]
    exact hle
  · rw [hkeep.emitted, hkeep.startedAt]
    exact hbatches
  · rw [hkeep.completeAtRead, hkeep.startedAt, hkeep.emitted]
    exact hcomplete
  · rw [hkeep.completeAtRead, hkeep.startedAt, hc]
    exact hwaited
  rw [hkeep.emitted, hkeep.startedAt, hkeep.requested]
  exact hr

theorem Process.frame {source : MySqlReplicationSource Value}
    (h : Process setting origin run source) (hstarted : run'.startedAt = run.startedAt)
    (hemitted : run'.emitted = run.emitted) (haccepted : run'.accepted = run.accepted)
    (hrequested : run'.requested = run.requested)
    (hbased : ∀ {revision entry}, Based run revision entry → Based run' revision entry) :
    Process setting origin run' source := by
  have hc : run'.committed = run.committed := by
    rw [ReplicationRun.committed, haccepted, ReplicationRun.committed]
  constructor
  · rw [hstarted, hc]
    exact hbased h.based
  · exact h.position
  · exact h.gtids
  · exact h.tables
  · rw [hstarted, hc]
    exact h.committed
  · rw [hstarted, hemitted]
    exact h.emitted
  · exact h.selected
  · intro pending hpend
    obtain ⟨hu, hcreates⟩ := h.pending pending hpend
    constructor
    · rw [hc, hemitted]
      exact hu
    rw [hstarted, hemitted]
    exact hcreates
  · rw [hstarted, hc, hemitted]
    exact h.unadmitted
  rw [hstarted, hrequested]
  exact h.requested

theorem Reads.frame {source : MySqlReplicationSource Value} (h : Reads setting origin run source)
    (hconnect : run'.connection = run.connection) (hstarted : run'.startedAt = run.startedAt)
    (hemitted : run'.emitted = run.emitted) : Reads setting origin run' source := by
  obtain ⟨hstep, hfile, hplace⟩ := h
  constructor
  · exact hstep
  · rw [hconnect]
    exact hfile
  rw [hconnect, hstarted, hemitted]
  exact hplace

theorem Recorded.frame (h : Recorded setting origin run) (hkeep : KeepsProcess run run')
    (hstore : Stored setting origin run')
    (hbased : ∀ {revision entry}, Based run revision entry → Based run' revision entry) :
    Recorded setting origin run' := by
  refine ⟨hstore, h.observed.frame hkeep, fun src hsrc => ?_⟩
  obtain ⟨hproc, hreads⟩ := h.process src (hkeep.source src hsrc)
  exact ⟨hproc.frame hkeep.startedAt hkeep.emitted hkeep.accepted hkeep.requested hbased,
    hreads.frame hkeep.connection hkeep.startedAt hkeep.emitted⟩

/-- A commit names the next markers.  Its write is the only thing that moves
the durable record, and the source moves with it. -/
theorem Recorded.commit (hlog : WellFormedLog setting.history) (h : Recorded setting origin run)
    {answered : Bool} (hstep : run.commit setting indices answered = some run') :
    Recorded setting origin run' := by
  unfold ReplicationRun.commit at hstep
  split at hstep
  next source bs hsrc hmap =>
    obtain ⟨hproc, hreads⟩ := h.process source hsrc
    split at hstep
    · cases hstep
    rename_i pos gtids record hprepare
    obtain ⟨hindices, payload, rfl, hcommits⟩ :=
      commits_of_prepareCommit hlog h.stored.starts.canonical hproc h.observed hmap hprepare
    let asked : ReplicationRun Raw Value :=
      { run with
        acknowledged := max run.acknowledged (run.startedAt + run.committed + indices.length) }
    let late : LateWrite :=
      { index := run.startedAt + run.committed + indices.length
        expectedRevision := some source.offsetTracker.revision
        payload }
    have hasked : Recorded setting origin asked := h.frame ⟨fun _ => id, rfl,
      rfl, rfl, rfl, rfl, rfl⟩ (h.stored.frame rfl rfl (le_max_left ..) fun _ hmem => .inl hmem) id
    have hlate : LateWriteOk setting origin asked late source.offsetTracker.revision :=
      ⟨hcommits.record, le_max_right .., _, hproc.based, hcommits.advance⟩
    cases answered with
    | false =>
      cases hstep
      refine hasked.frame ⟨fun _ => id, rfl, rfl, rfl, rfl, rfl, rfl⟩
        (hasked.stored.frame rfl rfl le_rfl fun other hmem => ?_) id
      rcases mem_append.mp hmem with hold | hnew
      · exact .inl hold
      cases mem_singleton.mp hnew
      refine .inr fun revision hexp => ?_
      cases hexp
      exact { hlate with }
    | true =>
      simp only [if_true] at hstep
      split at hstep
      next hw =>
        cases hstep
        exact hasked
      next stored revision hw =>
        cases hstep
        have hwrites := writes_of_write hw
        have hstore := hasked.stored.write hlate rfl hw
        obtain ⟨-, -, rfl⟩ := write_ok hw
        refine ⟨hstore.frame rfl rfl le_rfl fun _ hmem => .inl hmem,
          h.observed.commit hindices hcommits.le rfl rfl rfl rfl rfl, ?_⟩
        rintro finished ⟨⟩
        refine ⟨hproc.finishCommit hlog hcommits rfl rfl rfl rfl ?_, hreads.finishCommit rfl rfl
            rfl⟩
        refine ⟨_, hwrites.stored, le_rfl, fun _ => ?_⟩
        exact getLast?_concat
  · cases hstep

theorem Recorded.land (h : Recorded setting origin run) (hmem : late ∈ run.lateWrites)
    (hw : run.write late = some (run', revision)) : Recorded setting origin run' := by
  obtain ⟨hr, -, -⟩ := write_ok hw
  obtain ⟨cur, index, hcur, -⟩ := h.stored.current
  rw [hcur, map_some] at hr
  have hstore := h.stored.write (h.stored.late late hmem _ hr.symm) hr.symm hw
  have hbased : ∀ {revision entry},
    Based run revision entry → Based run' revision entry := fun hold => hold.write hr.symm hw
  obtain ⟨-, -, rfl⟩ := write_ok hw
  exact h.frame ⟨fun _ => id, rfl, rfl, rfl, rfl, rfl, rfl⟩ hstore hbased

/-! ## Starting -/

theorem Stored.launch (hlog : WellFormedLog setting.history) (h : Stored setting origin run)
    {index : ℕ} (hrec : RecordAt setting origin (index, trk.identity))
    (hbased : Based run trk.revision (index, trk.identity)) :
    Recorded setting origin (run.launch setting trk index) := by
  have hafter : After setting origin (index + 0) _ _ _ := hrec
  refine ⟨h.frame rfl rfl le_rfl fun _ hmem => .inl hmem, ?_, ?_⟩
  · refine ⟨rfl, zero_le _, ?_, le_rfl, ?_, fun _ => ⟨_, _, hrec⟩⟩
    · rintro place batch ⟨⟩
    intro place txn hlt _ _
    exact hlt
  rintro src ⟨⟩
  constructor
  · refine ⟨hbased, rfl, rfl, rfl, hrec, ?_, rfl, ?_, ?_, _, _, hrec⟩
    · have hnames := append_nil (tableNames trk.identity.authoritativeTables)
      exact hnames.symm ▸ hafter
    · rintro pending ⟨⟩
    intro place txn hfrom hto
    exact absurd hto (not_lt.mpr hfrom)
  refine ⟨rfl, ?_, _, .between rfl rfl rfl, ?_, ?_⟩
  · rintro name ⟨⟩
  · intro txn hmem
    exact mem_of_mem_filter hmem
  exact hafter.missing_eq_drop hlog h.starts.canonical

theorem Fresh.write (h : Fresh setting run) (hidx : late.index = 0)
    (hstarts : StartsFrom setting late.payload) (hw : run.write late = some (run', revision)) :
    Stored setting late.payload run' := by
  have hwrites := writes_of_write hw
  have hwritten : run'.written = [(0, late.payload)] := by
    rw [hwrites.written, h.written, hidx]
    rfl
  refine ⟨hstarts, ?_, ⟨_, 0, hwrites.stored, ?_⟩, ?_, ?_, ?_⟩
  · rw [hwritten]
    rfl
  · rw [hwritten]
    rfl
  · intro entry hmem
    rw [hwritten, mem_singleton] at hmem
    subst hmem
    exact ⟨After.zero, zero_le _⟩
  · rw [hwritten]
    exact isChain_singleton _
  intro other hmem expected hexp
  rw [hwrites.lateWrites] at hmem
  rw [(h.late other hmem).1] at hexp
  cases hexp

theorem Fresh.land (h : Fresh setting run) (hmem : late ∈ run.lateWrites)
    (hw : run.write late = some (run', revision)) : Recorded setting late.payload run' := by
  obtain ⟨-, hidx, hstarts⟩ := h.late late hmem
  have hstore := h.write hidx hstarts hw
  obtain ⟨-, -, rfl⟩ := write_ok hw
  refine ⟨hstore, ⟨?_, ?_, ?_, ?_, ?_, ?_⟩, ?_⟩
  · simp [committed, h.accepted]
  · simp [committed, h.accepted]
  · intro place batch hbatch
    rw [h.emitted] at hbatch
    cases hbatch
  · simp [h.complete]
  · intro place txn hlt
    rw [h.complete] at hlt
    cases hlt
  · intro hne
    exact absurd h.emitted hne
  intro src hsrc
  cases h.source.symm.trans hsrc

theorem RunInvariant.start (hlog : WellFormedLog setting.history) (h : RunInvariant setting run)
    {bd : Option MySqlBinlogBoundary} {tables : List AuthoritativeTableIdentity}
    {executed purged : GtidSet} {answered : Bool}
    (hstep : run.start setting bd tables executed purged answered = some run') :
    RunInvariant setting run' := by
  unfold ReplicationRun.start at hstep
  split at hstep
  · cases hstep
  split at hstep
  · cases hstep
  split at hstep
  next cur hcur =>
    split at hstep
    · cases hstep
    rename_i tracker hresume
    iterate 2 replace hresume := after_check hresume
    cases hresume
    cases hstep
    rcases h with hfresh | ⟨origin, hr⟩
    · cases hfresh.storage.symm.trans hcur
    obtain ⟨value, index, hval, hlast⟩ := hr.stored.current
    cases hcur.symm.trans hval
    have hmem := mem_of_getLast? hlast
    rw [hlast]
    exact .inr ⟨origin,
      hr.stored.launch hlog (hr.stored.records _ hmem).1 ⟨cur, hcur, le_rfl, fun _ => hlast⟩⟩
  rename_i hnone
  split at hstep
  · cases hstep
  rename_i state hs
  have hstarts : StartsFrom setting state := ⟨_, _, _, _, hs⟩
  rcases h with hfresh | ⟨origin, hr⟩
  · cases answered with
    | false =>
      cases hstep
      refine .inl { hfresh with late := fun late hmem => ?_ }
      rcases mem_append.mp hmem with hold | hnew
      · exact hfresh.late late hold
      cases mem_singleton.mp hnew
      exact ⟨rfl, rfl, hstarts⟩
    | true =>
      obtain ⟨⟨stored, rev⟩, hw, hlaunch⟩ := map_eq_some_iff.mp hstep
      have hstore := hfresh.write rfl hstarts hw
      refine .inr ⟨state, hlaunch ▸
        hstore.launch hlog After.zero ⟨_, (writes_of_write hw).stored, le_rfl, fun _ => ?_⟩⟩
      rw [(writes_of_write hw).written, getLast?_concat]
  obtain ⟨value, index, hval, -⟩ := hr.stored.current
  cases hnone.symm.trans hval

end Transferia.MySql
