import Transferia.MySql.ReplicationCommits

/-!
# Reading

The source is always inside the transaction that the server is sending.  An
event that does not end a transaction emits nothing; the end of a committed one
emits its batch and moves the emitted state behind it.
-/

namespace Transferia.MySql
open List Option Registry Support MySqlReplicationSource
open ReplicationRun (step)
variable {Raw Value : Type} {setting : ReplicationSetting Raw Value}
  {origin : ReplicationOffsetState} {run run' : ReplicationRun Raw Value}
  {source source' : MySqlReplicationSource Value}

theorem Process.of_keepsEmitted (h : Process setting origin run source)
    (hkeep : source.KeepsEmitted source') : Process setting origin run source' := by
  constructor
  · rw [hkeep.offsetTracker]
    exact h.based
  · rw [hkeep.offsetTracker, hkeep.committedPosition]
    exact h.position
  · rw [hkeep.offsetTracker, hkeep.committedGtids]
    exact h.gtids
  · rw [hkeep.offsetTracker, hkeep.tables]
    exact h.tables
  · rw [hkeep.committedPosition, hkeep.committedGtids, hkeep.tables]
    exact h.committed
  · rw [hkeep.emittedPosition, hkeep.emittedGtids, hkeep.tables, hkeep.pendingTable]
    exact h.emitted
  · rw [hkeep.selectedTables, hkeep.tables]
    exact h.selected
  · rw [hkeep.pendingTable]
    exact h.pending
  · rw [hkeep.pendingTable]
    exact h.unadmitted
  exact h.requested

theorem Process.waited (h : Process setting origin run source) (hpend : source.pendingTable = none)
    {place : ℕ} {txn : LoggedTransaction Raw} (hlt : place < run.startedAt + run.emitted.length)
    (hplace : (setting.missing origin.committedGtids)[place]? = some txn)
    (hadmitted : (setting.admitted txn).isSome) : place < run.startedAt + run.committed := by
  by_contra hge
  have := (h.unadmitted place txn (by omega) hlt hplace hadmitted).1
  rw [hpend] at this
  cases this

/-- A source emits the batch of a transaction. -/
structure EmitsBatch (setting : ReplicationSetting Raw Value)
    (source source' : MySqlReplicationSource Value) (transaction : LoggedTransaction Raw) (changes :
    List (BufferedRowChange Value)) (batch : SourceBatch Value) : Prop extends source.Emits
    setting.parser source' transaction.gtid transaction.endPosition batch.commitMarker where
  groups : batch.tables = groupChanges source.tables changes
  places : ∀ change ∈ changes, change.tableIndex < source.tables.length
  admitted : setting.admitted transaction = source'.pendingTable.map (·.table.name)
  pendingPosition :
    ∀ pending, source'.pendingTable = some pending → pending.position = transaction.endPosition

theorem readsEnd_cases {txn : LoggedTransaction Raw} {changes : List (BufferedRowChange Value)}
    {batch : Option (SourceBatch Value)}
    (h : MySqlReplicationSource.ReadsEnd setting.library setting.parser setting.admission source
      source' txn changes batch) :
    (txn.commits setting.binlog = false ∧ batch = none ∧ source.KeepsEmitted source') ∨
    (txn.commits setting.binlog ∧
      ∃ res, batch = some res ∧ EmitsBatch setting source source' txn changes res) := by
  cases h with
  | rolledBack hout hkeep => exact .inl ⟨hout, rfl, hkeep⟩
  | emitted res hout hems htables hp hnone hpend =>
    refine .inr ⟨hout, res, rfl, hems, htables, hp, ?_, ?_⟩
    · rw [hpend]
      exact hnone
    intro pending hsome
    cases hpend.symm.trans hsome
  | admitted table marker hout hems hnone hp htable hpend =>
    refine .inr ⟨hout, _, rfl, hems, hnone.symm, hp, ?_, ?_⟩
    · rw [hpend]
      exact htable
    intro pending hsome
    cases hpend.symm.trans hsome
    rfl

section
variable {transaction : LoggedTransaction Raw}
  {active : BufferedTransaction Value} {batch : SourceBatch Value}
  (h : Process setting origin run source) (hpend : source.pendingTable = none)
  (hems : EmitsBatch setting source source' transaction active.changes batch)
  (hplace : (setting.missing origin.committedGtids)[
    run.startedAt + run.emitted.length]? = some transaction)
include h hpend in
theorem Process.emitted_after :
    After setting origin (run.startedAt + run.emitted.length) source.emittedPosition
      source.emittedGtids (tableNames source.tables) := by
  have := h.emitted
  rwa [hpend, map_none, toList_none, append_nil] at this

include h hpend hems hplace in
theorem Process.next_after :
    After setting origin (run.startedAt + run.emitted.length + 1) transaction.endPosition
      batch.commitMarker.nextGtids
      (tableNames source.tables ++ (setting.admitted transaction).toList) :=
  (h.emitted_after hpend).succ hplace hems.nextGtids

include h hpend hems hplace in
theorem Process.emittedAt
    (hbuf : MySqlReplicationSource.Buffered setting.library source.tables
      (selectedRows (tableNames source.tables) [] transaction.body) active) :
    EmittedAt setting origin (run.startedAt + run.emitted.length) batch := by
  refine ⟨transaction, source.tables, active.changes, hplace, ?_, ?_,
    hbuf.changes, hbuf.numbers, hems.groups, ?_⟩
  · rw [hems.previousPosition, hems.previousGtids]
    exact h.emitted_after hpend
  · rw [hems.nextPosition]
    exact h.next_after hpend hems hplace
  rw [hems.groups]
  exact groupChanges_perm hems.places

include h hpend hems hplace in
theorem Process.emit (hle : run.committed ≤ run.emitted.length)
    (hstarted : run'.startedAt = run.startedAt) (hemitted : run'.emitted = run.emitted ++ [batch])
    (haccepted : run'.accepted = run.accepted) (hrequested : run'.requested = run.requested)
    (hbased : ∀ {revision entry}, Based run revision entry → Based run' revision entry) :
    Process setting origin run' source' := by
  have hc : run'.committed = run.committed := by
    rw [ReplicationRun.committed, haccepted, ReplicationRun.committed]
  have hlen : run'.emitted.length = run.emitted.length + 1 := by
    rw [hemitted, length_append, length_singleton]
  constructor
  · rw [hems.offsetTracker, hstarted, hc]
    exact hbased h.based
  · rw [hems.offsetTracker, hems.committedPosition]
    exact h.position
  · rw [hems.offsetTracker, hems.committedGtids]
    exact h.gtids
  · rw [hems.offsetTracker, hems.tables]
    exact h.tables
  · rw [hems.committedPosition, hems.committedGtids, hems.tables, hstarted, hc]
    exact h.committed
  · rw [hems.emittedPosition, hems.nextPosition, hems.emittedGtids,
      hems.tables, ← hems.admitted, hstarted, hlen, ← Nat.add_assoc]
    exact h.next_after hpend hems hplace
  · rw [hems.selectedTables, hems.tables]
    exact h.selected
  · intro pending hsome
    refine ⟨?_, transaction, ?_, (hems.pendingPosition pending hsome).symm, ?_⟩
    · omega
    · rw [hstarted, hlen, Nat.add_sub_cancel]
      exact hplace
    rw [hems.admitted, hsome]
    rfl
  · intro place other hfrom hto hother ha
    by_cases hlast : place = run.startedAt + run.emitted.length
    · subst hlast
      cases hplace.symm.trans hother
      rw [hems.admitted, isSome_map] at ha
      exact ⟨ha, by omega⟩
    have := h.waited hpend (by omega) hother ha
    omega
  rw [hstarted, hrequested]
  exact h.requested

end

/-- The reading after an event: the place in the log, and what the event
emitted. -/
structure ReadsOn (setting : ReplicationSetting Raw Value) (origin : ReplicationOffsetState)
    (run : ReplicationRun Raw Value) (source source' : MySqlReplicationSource Value)
    (connection : Connection Raw) (batch : Option (SourceBatch Value)) : Prop where
  inStep : source'.InStep
  file : ∀ name ∈ connection.file, source'.decoder.currentPosition.filename = name
  emits : batch = none ∧ source.KeepsEmitted source' ∨ ∃ result transaction active,
    batch = some result ∧ EmitsBatch setting source source' transaction active.changes result ∧
    (setting.missing origin.committedGtids)[ run.startedAt + run.emitted.length]? =
    some transaction ∧ MySqlReplicationSource.Buffered setting.library source.tables
    (selectedRows (tableNames source.tables) [] transaction.body) active
  place : ∃ remaining, Place setting connection source' remaining ∧ (∀ transaction ∈ remaining,
    transaction ∈ setting.history) ∧ remaining.filter (·.commits setting.binlog) = (setting.missing
    origin.committedGtids).drop (run.startedAt + run.emitted.length + batch.toList.length)

section
variable (hlog : WellFormedLog setting.history) (hproc : Process setting origin run source)
  (hreads : Reads setting origin run source)
  {discovered : TableName → Except SourceError AuthoritativeTableIdentity}
  {batch : Option (SourceBatch Value)} {event : BinlogEvent Raw}
include hlog hproc hreads in
theorem reads_next {conn : Connection Raw} (hnext : run.connection.next = some (event, conn))
    (h : source.readEvent setting.library setting.parser setting.identity.config setting.admission
      discovered event = .ok (batch, source')) :
    ReadsOn setting origin run source source' conn batch := by
  obtain ⟨hpend, -⟩ := readEvent_ok h
  obtain ⟨rem, hplace, hh, hr⟩ := hreads.place
  cases hplace with
  | between hcur hact ht =>
    unfold Connection.next at hnext
    rw [hcur] at hnext
    cases hu : run.connection.upcoming with
    | nil => simp [hu] at hnext
    | cons transaction later =>
      simp only [hu] at hnext
      rw [hu] at hh hr
      split at hnext
      next hfile =>
        cases hnext
        obtain ⟨rfl, hkeep, hdecoder, hstep, active, hsome, hident, hbuf⟩ := read_start h
        refine ⟨hstep, ?_, .inl ⟨rfl, hkeep⟩, _, .inside transaction [] active
            { file := hfile, body := ⟨transaction.body, rfl, rfl⟩
              buffering := hsome, identity := hident
              buffered := ?_, tableMaps := ?_, pending := ?_ },
          hh, hr⟩
        · rw [hdecoder.filename]
          exact hreads.file
        · rw [hkeep.tables]
          exact hbuf
        · rw [hdecoder.tableMaps, ht]
          rfl
        rw [hkeep.pendingTable, hpend]
      · cases hnext
        obtain ⟨rfl, hkeep, hbetween, hname, hmaps⟩ := read_rotation h
        obtain ⟨hnone, hstep⟩ := hbetween hact
        refine ⟨hstep, ?_, .inl ⟨rfl, hkeep⟩, _, .between rfl hnone (hmaps ht), hh, hr⟩
        rintro name ⟨⟩
        exact hname
  | inside transaction done active hins =>
    obtain ⟨rest, hbody, hcur⟩ := hins.body
    have hmem := hh transaction mem_cons_self
    unfold Connection.next at hnext
    rw [hcur] at hnext
    have hfile := hreads.file transaction.file hins.file
    cases rest with
    | cons first rest =>
      cases hnext
      have hisBody : event.data.isBody := hlog.body transaction hmem event (by simp [hbody])
      obtain ⟨rfl, hbodyRead⟩ :=
        read_body hisBody hins.buffering hreads.inStep hproc.selected hins.buffered h
      obtain ⟨active', hsome, hm, hbuf⟩ := hbodyRead.buffered
      refine ⟨hbodyRead.inStep, ?_, .inl ⟨rfl, hbodyRead.toKeepsEmitted⟩, _,
        .inside transaction (done ++ [event]) active'
          { file := hins.file, body := ⟨rest, by simp [hbody], rfl⟩
            buffering := hsome, identity := ?_, buffered := ?_, tableMaps := ?_, pending := ?_ },
        hh, hr⟩
      · rw [hbodyRead.filename]
        exact hreads.file
      · rw [hm]
        exact hins.identity
      · rw [hbodyRead.tables, selectedRows_append_singleton, ← hins.tableMaps]
        exact hbuf
      · simp [hbodyRead.tableMaps, tableMapsAfter, hins.tableMaps]
      · rw [hbodyRead.pendingTable, hpend]
    | nil =>
      cases hnext
      obtain ⟨hend, hnone, hstep, hname, hmaps⟩ := read_end (hlog.finish transaction hmem)
        (hlog.ending transaction hmem) hfile hins.buffering hins.identity h
      have hfile' :
          ∀ name ∈ run.connection.file, source'.decoder.currentPosition.filename = name := by
        rw [hname, ← hfile]
        exact hreads.file
      have hlater : ∀ other ∈ run.connection.upcoming,
        other ∈ setting.history := fun other hother => hh other (mem_cons_of_mem _ hother)
      rw [append_nil] at hbody
      rcases readsEnd_cases hend with ⟨hout, rfl, hkeep⟩ | ⟨hout, result, rfl, hems⟩
      · rw [filter_cons_of_neg (by simp [hout])] at hr
        exact ⟨hstep, hfile', .inl ⟨rfl, hkeep⟩, _, .between rfl hnone hmaps, hlater, hr⟩
      -- The ended transaction is the next missing one.
      rw [filter_cons_of_pos hout] at hr
      have hmiss : (setting.missing origin.committedGtids)[ run.startedAt + run.emitted.length]? =
          some transaction := by
        rw [← Nat.add_zero (run.startedAt + run.emitted.length), ← getElem?_drop, ← hr]
        rfl
      have hrest : run.connection.upcoming.filter
          (fun other => other.commits setting.binlog) = (setting.missing origin.committedGtids).drop
          (run.startedAt + run.emitted.length + 1) := by
        rw [← tail_drop, ← hr]
        rfl
      refine ⟨hstep, hfile', .inr ⟨result, transaction, active, rfl, hems, hmiss, ?_⟩,
        _, .between rfl hnone hmaps, hlater, hrest⟩
      rw [hbody]
      exact hins.buffered

include hreads in
theorem reads_quiet (hq : event.data.isQuiet run.connection.file event.header)
    (h : source.readEvent setting.library setting.parser setting.identity.config setting.admission
      discovered event = .ok (batch, source')) :
    ReadsOn setting origin run source source' run.connection batch := by
  obtain ⟨hpend, -⟩ := readEvent_ok h
  obtain ⟨rfl, hkeep, hstep, hname, hact, hmaps⟩ := read_quiet hq hreads.file hreads.inStep h
  obtain ⟨rem, hplace, hhistory, hr⟩ := hreads.place
  refine ⟨hstep, ?_, .inl ⟨rfl, hkeep⟩, rem, ?_, hhistory, hr⟩
  · rw [hname]
    exact hreads.file
  cases hplace with
  | between hcur hnone ht =>
    refine .between hcur ?_ ?_
    · rw [hact, hnone]
      rfl
    rcases hmaps with hsame | ⟨-, hnil⟩
    · exact hsame.trans ht
    · exact hnil ht
  | inside txn done active hins =>
    refine .inside txn done
      { active with encodedBytes := active.encodedBytes + event.header.eventBytes }
      { file := hins.file, body := hins.body, buffering := by rw [hact, hins.buffering, map_some]
        identity := hins.identity, buffered := ?_, tableMaps := ?_, pending := ?_ }
    · rw [hkeep.tables]
      exact hins.buffered.counting
    · rcases hmaps with hsame | ⟨hnone, -⟩
      · exact hsame.trans hins.tableMaps
      · cases hins.buffering.symm.trans hnone
    rw [hkeep.pendingTable, hpend]

end

variable {connection : Connection Raw} {event : BinlogEvent Raw}

theorem Recorded.deliver (h : Recorded setting origin run) (hsrc : run.source = some source)
    {discovered : TableName → Except SourceError AuthoritativeTableIdentity}
    (hreads : ∀ {batch source'},
      source.readEvent setting.library setting.parser setting.identity.config setting.admission
        discovered event = .ok (batch, source') →
      ReadsOn setting origin run source source' connection batch) :
    Recorded setting origin (run.deliver setting source connection discovered event) := by
  obtain ⟨hproc, -⟩ := h.process source hsrc
  unfold ReplicationRun.deliver
  split
  · exact h.frame ⟨fun _ => id, rfl, rfl, rfl, rfl, rfl, rfl⟩
      (h.stored.frame rfl rfl le_rfl fun _ hmem => .inl hmem) id
  rename_i batch next hread
  obtain ⟨hpend, -⟩ := readEvent_ok hread
  have hon := hreads hread
  have hwaited : ∀ place txn, place < run.startedAt + run.emitted.length →
    (setting.missing origin.committedGtids)[place]? = some txn → (setting.admitted txn).isSome →
    place < run.startedAt + run.committed := fun _ _ hlt hplace ha => hproc.waited hpend hlt
        hplace ha
  obtain ⟨rem, hplace, hhistory, hr⟩ := hon.place
  have hnext : (setting.missing origin.committedGtids).drop (run.startedAt +
      run.emitted.length + batch.toList.length) = (setting.missing origin.committedGtids).drop
      (run.startedAt + (run.emitted ++ batch.toList).length) := by
    rw [length_append, Nat.add_assoc]
  refine ⟨h.stored.frame rfl rfl le_rfl fun _ hmem => .inl hmem,
    ⟨h.observed.accepted, ?_, ?_, ?_, hwaited, fun _ => hproc.requested⟩, fun other hother => ?_⟩
  · have hle := h.observed.le
    change run.committed ≤ (run.emitted ++ batch.toList).length
    rw [length_append]
    omega
  · intro place res hres
    by_cases hold : place < run.emitted.length
    · rw [getElem?_append_left hold] at hres
      exact h.observed.batches place res hres
    rw [getElem?_append_right (Nat.le_of_not_lt hold)] at hres
    rcases hon.emits with ⟨rfl, -⟩ | ⟨emitted, txn, active, rfl, hems, hm, hbuf⟩
    · cases hres
    rw [toList_some, List.getElem?_singleton] at hres
    split at hres
    · cases hres
      have hlast : place = run.emitted.length := by omega
      subst hlast
      exact hproc.emittedAt hpend hems hm hbuf
    · cases hres
  · change run.startedAt + run.emitted.length ≤ run.startedAt + (run.emitted ++ batch.toList).length
    rw [length_append]
    omega
  cases hother
  refine ⟨?_, hon.inStep, hon.file, rem, hplace, hhistory, hr.trans hnext⟩
  rcases hon.emits with ⟨rfl, hkeep⟩ | ⟨res, txn, active, rfl, hems, hm, -⟩
  · refine (hproc.of_keepsEmitted hkeep).frame rfl ?_ rfl rfl id
    exact append_nil _
  exact hproc.emit hpend hems hm h.observed.le rfl rfl rfl rfl id

theorem Recorded.read (hlog : WellFormedLog setting.history) (h : Recorded setting origin run)
    {discovered : TableName → Except SourceError AuthoritativeTableIdentity}
    (hstep : run.read setting discovered = some run') : Recorded setting origin run' := by
  unfold ReplicationRun.read at hstep
  split at hstep
  · cases hstep
  rename_i src hsrc
  obtain ⟨hproc, hreads⟩ := h.process src hsrc
  split at hstep
  · cases hstep
  split at hstep
  · cases hstep
  rename_i hnext
  cases hstep
  exact h.deliver hsrc fun hread => reads_next hlog hproc hreads hnext hread

theorem Recorded.quiet (h : Recorded setting origin run)
    (hstep : run.quiet setting event = some run') : Recorded setting origin run' := by
  unfold ReplicationRun.quiet at hstep
  split at hstep
  · cases hstep
  rename_i src hsrc
  obtain ⟨-, hreads⟩ := h.process src hsrc
  split at hstep
  · cases hstep
  rename_i hg
  cases hstep
  simp only [Bool.or_eq_true, Bool.not_eq_true', not_or, Bool.not_eq_false] at hg
  exact h.deliver hsrc fun hread => reads_quiet hreads hg.2 hread

theorem fresh_initial : Fresh setting (ReplicationRun.initial : ReplicationRun Raw Value) := by
  refine ⟨rfl, rfl, rfl, rfl, rfl, rfl, rfl, fun late hmem => ?_⟩
  cases hmem

theorem Place.finish {remaining : List (LoggedTransaction Raw)}
    (h : Place setting connection source remaining) :
    Place setting connection { source with finished := true } remaining := by
  cases h with
  | between hcur hact ht => exact .between hcur hact ht
  | inside txn done active hins => exact .inside txn done active { hins with }

theorem runInvariant_step (hlog : WellFormedLog setting.history) {label : RunLabel Raw}
    (h : RunInvariant setting run) (hstep : run.step setting label = some run') :
    RunInvariant setting run' := by
  cases label with
  | start boundary tables executed purged answered => exact h.start hlog hstep
  | read discovered =>
    rcases h with hfresh | ⟨origin, hr⟩
    · simp [step, ReplicationRun.read, hfresh.source] at hstep
    · exact .inr ⟨origin, hr.read hlog hstep⟩
  | quiet event =>
    rcases h with hfresh | ⟨origin, hr⟩
    · simp [step, ReplicationRun.quiet, hfresh.source] at hstep
    · exact .inr ⟨origin, hr.quiet hstep⟩
  | fail =>
    cases hstep
    rcases h with hfresh | ⟨origin, hr⟩
    · exact .inl { hfresh with }
    exact .inr ⟨origin, hr.frame ⟨fun _ => id, rfl, rfl, rfl, rfl, rfl, rfl⟩
      (hr.stored.frame rfl rfl le_rfl fun _ hmem => .inl hmem) id⟩
  | cancel =>
    obtain ⟨source, hsrc, rfl⟩ := map_eq_some_iff.mp hstep
    rcases h with hfresh | ⟨origin, hr⟩
    · cases hfresh.source.symm.trans hsrc
    obtain ⟨hproc, hreads⟩ := hr.process source hsrc
    refine .inr ⟨origin,
      hr.stored.frame rfl rfl le_rfl fun _ hmem => .inl hmem, { hr.observed with }, ?_⟩
    rintro finished ⟨⟩
    obtain ⟨rem, hplace, hhistory, hremaining⟩ := hreads.place
    have hkeep : source.KeepsEmitted { source with finished := true } :=
      ⟨⟨rfl, rfl, rfl, rfl, rfl⟩, rfl, rfl, rfl⟩
    exact ⟨(hproc.of_keepsEmitted hkeep).frame rfl rfl rfl rfl id,
      hreads.inStep, hreads.file, rem, hplace.finish, hhistory, hremaining⟩
  | commit markers answered =>
    rcases h with hfresh | ⟨origin, hr⟩
    · simp [step, ReplicationRun.commit, hfresh.source] at hstep
    · exact .inr ⟨origin, hr.commit hlog hstep⟩
  | land write =>
    simp only [step] at hstep
    split at hstep
    · cases hstep
    rename_i late hlate
    obtain ⟨⟨stored, rev⟩, hw, rfl⟩ := map_eq_some_iff.mp hstep
    have hmem := mem_of_getElem? hlate
    rcases h with hfresh | ⟨origin, hr⟩
    · exact .inr ⟨late.payload, hfresh.land hmem hw⟩
    · exact .inr ⟨origin, hr.land hmem hw⟩
  | crash =>
    cases hstep
    rcases h with hfresh | ⟨origin, hr⟩
    · exact .inl { hfresh with source := rfl }
    refine .inr ⟨origin, hr.frame ⟨fun _ hnone => ?_, rfl, rfl, rfl, rfl, rfl, rfl⟩
      (hr.stored.frame rfl rfl le_rfl fun _ hmem => .inl hmem) id⟩
    cases hnone

end Transferia.MySql
