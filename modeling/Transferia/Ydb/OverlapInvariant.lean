import Transferia.Ydb.Overlap

/-!
# What an overlapping delivery has written

Every image on the way to the destination comes from a change at or after the
captured offset, or from the table at some later point.  Changes before the
committed offset are written, changes before the position of the stream are
written or wait.
-/

namespace Transferia.Ydb
open List Function Transferia.Core Support Registry OrderedMap OverlapTable
open Logbroker (okOr_ok ensure_ok OffsetsRange)
variable {V : Type} [LinearOrder V]

/-! ## Tables and their changes -/

def OverlapTable.changes (table : OverlapTable) (events : List (DecodedYdbCdcEvent V)) :
    List (Row V × Option (Row V)) :=
  events.map fun event => (table.key event.current, event.image)

theorem contents_concat (table : OverlapTable)
    (evs : List (DecodedYdbCdcEvent V)) (event : DecodedYdbCdcEvent V) :
    table.contents (evs ++ [event]) = table.applyEvent (table.contents evs) event := by
  simp [contents]

theorem applyEvent_find? (table : OverlapTable)
    (rows : OrderedMap (Row V) (Row V)) (event : DecodedYdbCdcEvent V) (key : Row V) :
    (table.applyEvent rows event).find? key = if table.key event.current = key then event.image
      else rows.find? key := by
  unfold applyEvent
  cases himage : event.image with
  | none =>
    rw [find?_retain]
    by_cases hkey : table.key event.current = key
    · simp [hkey]
    · simp [hkey, Ne.symm hkey]
  | some row =>
    by_cases hkey : table.key event.current = key
    · rw [if_pos hkey, ← hkey, find?_insert_self]
    · rw [if_neg hkey, find?_insert_ne _ _ (Ne.symm hkey)]

theorem contents_find? (table : OverlapTable) (evs : List (DecodedYdbCdcEvent V)) (key : Row V) :
    (table.contents evs).find? key = replay (table.changes evs) key := by
  induction evs using reverseRecOn with
  | nil => rfl
  | append_singleton evs event ih =>
    have hchanges : table.changes
        (evs ++ [event]) = table.changes evs ++ [(table.key event.current, event.image)] := by
      simp [OverlapTable.changes]
    rw [contents_concat, applyEvent_find?, hchanges, replay_concat, ih]

theorem key_of_contents {table : OverlapTable} {evs : List (DecodedYdbCdcEvent V)} {key row : Row V}
    (h : (table.contents evs).find? key = some row) : table.key row = key := by
  induction evs using reverseRecOn with
  | nil => cases h
  | append_singleton evs event ih =>
    rw [contents_concat, applyEvent_find?] at h
    split at h
    next hkey =>
      unfold DecodedYdbCdcEvent.image at h
      split at h
      · cases h
      cases h
      exact hkey
    · exact ih h

/-! ## What has reached the destination -/

def Sent (run : OverlapRun V) (topic : String) (key : Row V) (version : ℕ) : Prop :=
  Landed (run.destination topic) key version ∨
    ∃ row ∈ run.queue, row.topic = topic ∧ row.key = key ∧ row.version = version

section
variable (table : OverlapTable) (events : List (DecodedYdbCdcEvent V))

/-- The changes from one offset up to another one have arrived. -/
def ChangesArrived (arrived : Row V → ℕ → Prop) (first last : ℤ) : Prop :=
  last ≤ events.length ∧ ∀ place : ℕ, first ≤ place → (place : ℤ) < last →
    ∀ event, events[place]? = some event → arrived (table.key event.current) (place + 1)

/-- The rows of the table at some point after `start` have arrived. -/
def RowsArrived (arrived : Row V → Prop) (start : ℤ) : Prop :=
  ∃ point : ℕ, start ≤ point ∧ point ≤ events.length ∧
    ∀ key row, (table.contents (events.take point)).find? key = some row → arrived key

end
section
variable (config : OverlapConfig)

def Genuine (logs : String → List (DecodedYdbCdcEvent V)) (startOffsets : OrderedMap String ℤ)
    (row : OverlapWrite V) : Prop :=
  ∃ table ∈ config.tables, table.topic = row.topic ∧ ∃ start, startOffsets.find? row.topic =
    some start ∧ Sourced (table.changes (logs row.topic)) start.toNat row.key row.version row.image

section
variable (run : OverlapRun V)

/-- What goes with a durable state. -/
structure Stored (state : OverlapState) : Prop where
  known : ∀ table ∈ config.tables, ∃ start, state.startOffsets.find? table.topic = some start
  bounds : ∀ topic start, state.startOffsets.find? topic = some start →
    topic ∈ config.tables.map OverlapTable.topic ∧ 0 ≤ start ∧ start ≤ (run.logs topic).length
  held : ∀ topic key held, run.destination topic key = some held →
    Genuine config run.logs state.startOffsets { topic, key, version := held.1, image := held.2 }
  queued : ∀ row ∈ run.queue, Genuine config run.logs state.startOffsets row
  committed : ∀ table ∈ config.tables,
    ∀ start, state.startOffsets.find? table.topic = some start → ChangesArrived table
    (run.logs table.topic) (Landed (run.destination table.topic)) start (run.committed table.topic)
  rows : state.streaming →
    ∀ table ∈ config.tables, ∀ start, state.startOffsets.find? table.topic = some start →
    RowsArrived table (run.logs table.topic) (Landed (run.destination table.topic) · 0) start

section
variable (execution : OverlapExecution)

/-- What the snapshot has read so far. -/
structure SnapshotRead (snapshot : OverlapSnapshot V) : Prop where
  claimed : execution.snapshotClaimed
  finished : execution.snapshotFinished → config.tables.length ≤ snapshot.tableIndex
  before : ∀ index table start, index < snapshot.tableIndex →
    config.tables[index]? = some table → execution.startOffsets.find? table.topic = some start →
    RowsArrived table (run.logs table.topic) (Sent run table.topic · 0) start
  reading : ∀ table start rows, config.tables[snapshot.tableIndex]? = some table →
    execution.startOffsets.find? table.topic = some start → snapshot.reader = some rows →
    RowsArrived table (run.logs table.topic) (fun key => Sent run table.topic key 0 ∨ ∃ row ∈ rows,
    table.key row = key) start ∧ ∀ row ∈ rows, Genuine config run.logs execution.startOffsets
    { topic := table.topic, key := table.key row, version := 0, image := some row }

/-- What the stream has read so far. -/
structure StreamRead (startOffsets : OrderedMap String ℤ) (positions : String → Option ℤ) : Prop
    where
  streaming : execution.stored.payload.streaming
  offsets : ∀ table ∈ config.tables,
    startOffsets.find? (canonicalTopicPath table.topic) = execution.startOffsets.find? table.topic
  read : ∀ table ∈ config.tables, ∀ start, execution.startOffsets.find? table.topic = some start →
    ∀ offset, positions table.topic = some offset →
    start ≤ offset ∧ ChangesArrived table (run.logs table.topic) (Sent run table.topic) start offset

def ActivityRead : OverlapActivity V → Prop
  | .idle => True
  | .snapshot snapshot => SnapshotRead config run execution snapshot
  | .stream startOffsets positions => StreamRead config run execution startOffsets positions

end

structure Captured (captured : OrderedMap String ℤ) (remaining : List (String × ℤ)) : Prop where
  fresh : run.storage stateKey = none
  known : ∀ table ∈ config.tables,
    (∃ start, captured.find? table.topic = some start) ∨ table.topic ∈ remaining.map Prod.fst
  remaining : ∀ entry ∈ remaining, entry.1 ∈ config.tables.map OverlapTable.topic
  bounds : ∀ topic start, captured.find? topic = some start → topic ∈ config.tables.map
    OverlapTable.topic ∧ 0 ≤ start ∧ start ≤ (run.logs topic).length ∧ run.committed topic ≤ start

structure Executes (execution : OverlapExecution) (activity : OverlapActivity V) : Prop where
  stored : run.storage stateKey = some execution.stored
  offsets : execution.startOffsets = execution.stored.payload.startOffsets
  unclaimed : execution.snapshotClaimed = false → execution.snapshotFinished = false
  activity : ActivityRead config run execution activity

def ProcessRuns : OverlapProcess V → Prop
  | .preparing captured remaining => Captured config run captured remaining
  | .running execution activity _ => Executes config run execution activity

structure OverlapInvariant : Prop where
  fresh : run.storage stateKey = none → (∀ topic key, run.destination topic key = none) ∧
    run.queue = [] ∧ ∀ topic, run.committed topic ≤ (run.logs topic).length
  stored : ∀ stored, run.storage stateKey = some stored → Stored config run stored.payload
  process : ∀ process, run.process = some process → ProcessRuns config run process

end
end

/-! ## Logs only grow -/

section
variable {config : OverlapConfig} {table : OverlapTable} {events more : List (DecodedYdbCdcEvent V)}
  {arrived : Row V → ℕ → Prop} {first last : ℤ} {logs logs' : String → List (DecodedYdbCdcEvent V)}
  {run run' : OverlapRun V} {exe : OverlapExecution}
omit [LinearOrder V] in
theorem ChangesArrived.imp {arrived' : Row V → ℕ → Prop}
    (h : ChangesArrived table events arrived first last)
    (himp : ∀ key ver, arrived key ver → arrived' key ver) :
    ChangesArrived table events arrived' first last :=
  ⟨h.1, fun place hfst hlast event hev => himp _ _ (h.2 place hfst hlast event hev)⟩

theorem RowsArrived.imp {arrived arrived' : Row V → Prop} {start : ℤ}
    (h : RowsArrived table events arrived start) (himp : ∀ key, arrived key → arrived' key) :
    RowsArrived table events arrived' start := by
  obtain ⟨point, hstart, hp, hrows⟩ := h
  exact ⟨point, hstart, hp, fun key row hrow => himp key (hrows key row hrow)⟩

omit [LinearOrder V] in
theorem ChangesArrived.append (h : ChangesArrived table events arrived first last) :
    ChangesArrived table (events ++ more) arrived first last := by
  have hlen := h.1
  refine ⟨by rw [length_append]; omega, ?_⟩
  intro place hfst hlast event hev
  rw [getElem?_append_left (by omega)] at hev
  exact h.2 place hfst hlast event hev

theorem RowsArrived.append {arrived : Row V → Prop} {start : ℤ}
    (h : RowsArrived table events arrived start) :
    RowsArrived table (events ++ more) arrived start := by
  obtain ⟨point, hstart, hp, hrows⟩ := h
  refine ⟨point, hstart, by rw [length_append]; omega, ?_⟩
  rwa [take_append_of_le_length hp]

def Grows (logs logs' : String → List (DecodedYdbCdcEvent V)) : Prop :=
  ∀ topic, ∃ more, logs' topic = logs topic ++ more

omit [LinearOrder V] in
theorem Grows.refl (logs : String → List (DecodedYdbCdcEvent V)) : Grows logs logs :=
  fun _ => ⟨[], (append_nil _).symm⟩

omit [LinearOrder V] in
theorem Grows.changes (h : Grows logs logs') {topic : String}
    (harrived : ChangesArrived table (logs topic) arrived first last) :
    ChangesArrived table (logs' topic) arrived first last := by
  obtain ⟨more, hmore⟩ := h topic
  rw [hmore]
  exact harrived.append

theorem Grows.rows (h : Grows logs logs') {arrived : Row V → Prop} {start : ℤ}
    {topic : String} (harrived : RowsArrived table (logs topic) arrived start) :
    RowsArrived table (logs' topic) arrived start := by
  obtain ⟨more, hmore⟩ := h topic
  rw [hmore]
  exact harrived.append

omit [LinearOrder V] in
theorem Grows.length_le (h : Grows logs logs') (topic : String) :
    (logs topic).length ≤ (logs' topic).length := by
  obtain ⟨more, hmore⟩ := h topic
  rw [hmore, length_append]
  omega

theorem Grows.genuine (h : Grows logs logs') {startOffsets : OrderedMap String ℤ}
    {row : OverlapWrite V} (hgenuine : Genuine config logs startOffsets row) :
    Genuine config logs' startOffsets row := by
  obtain ⟨table, htable, htop, start, hstart, hsourced⟩ := hgenuine
  obtain ⟨more, hmore⟩ := h row.topic
  refine ⟨table, htable, htop, start, hstart, ?_⟩
  rw [hmore, OverlapTable.changes, map_append]
  exact hsourced.append _

theorem Stored.keep {state : OverlapState} (h : Stored config run state)
    (hlogs : Grows run.logs run'.logs)
    (hlanded : ∀ topic key version,
      Landed (run.destination topic) key version → Landed (run'.destination topic) key version)
    (hheld : ∀ topic key held, run'.destination topic key = some held →
      Genuine config run.logs state.startOffsets
        { topic, key, version := held.1, image := held.2 })
    (hqueue : ∀ row ∈ run'.queue, Genuine config run.logs state.startOffsets row)
    (hcommitted : run'.committed = run.committed) : Stored config run' state where
  known := h.known
  bounds := fun topic start hstart => by
    obtain ⟨htop, hnonneg, hle⟩ := h.bounds topic start hstart
    have hgrown := hlogs.length_le topic
    exact ⟨htop, hnonneg, by omega⟩
  held := fun topic key held hget => hlogs.genuine (hheld topic key held hget)
  queued := fun row hrow => hlogs.genuine (hqueue row hrow)
  committed := fun table htable start hstart => by
    rw [hcommitted]
    exact hlogs.changes ((h.committed table htable start hstart).imp (hlanded table.topic))
  rows := fun hstream table htable start hstart =>
    hlogs.rows ((h.rows hstream table htable start hstart).imp (hlanded table.topic · 0))

theorem ActivityRead.keep {activity : OverlapActivity V} (h : ActivityRead config run exe activity)
    (hlogs : Grows run.logs run'.logs)
    (hsent : ∀ topic key ver, Sent run topic key ver → Sent run' topic key ver) :
    ActivityRead config run' exe activity := by
  cases activity with
  | idle => trivial
  | snapshot snapshot =>
    refine ⟨h.claimed, h.finished, ?_, ?_⟩
    · intro index table start hidx htable hstart
      exact hlogs.rows ((h.before index table start hidx htable hstart).imp (hsent table.topic · 0))
    intro table start rows htable hstart hreader
    obtain ⟨hrows, hg⟩ := h.reading table start rows htable hstart hreader
    refine
      ⟨hlogs.rows (hrows.imp fun key hkey => ?_), fun row hrow => hlogs.genuine (hg row hrow)⟩
    exact hkey.imp_left (hsent table.topic key 0)
  | stream startOffsets positions =>
    refine ⟨h.streaming, h.offsets, ?_⟩
    intro table htable start hstart off hoff
    obtain ⟨hle, hread⟩ := h.read table htable start hstart off hoff
    exact ⟨hle, hlogs.changes (hread.imp (hsent table.topic))⟩

end

/-! ## Steps -/

section
variable {config : OverlapConfig} {run run' : OverlapRun V} {topic : String}
  {storage : DurableStorage OverlapState} {process : Option (OverlapProcess V)}
  {partitions : List PartitionInfo} {storage' : DurableStorage OverlapState}
  {stored : DurableValue OverlapState}

theorem Stored.withQueue {state : OverlapState} (h : Stored config run state)
    {queue : List (OverlapWrite V)}
    (hqueue : ∀ row ∈ queue, Genuine config run.logs state.startOffsets row) :
    Stored config { run with process, queue } state :=
  h.keep (.refl _) (fun _ _ _ h => h) h.held hqueue rfl

section
variable (h : OverlapInvariant config run)
include h

theorem OverlapInvariant.stop : OverlapInvariant config run.stop where
  fresh := fun hfresh => ⟨(h.fresh hfresh).1, rfl, (h.fresh hfresh).2.2⟩
  stored := fun stored hstore => (h.stored stored hstore).withQueue fun row hrow => by cases hrow
  process := fun process hproc => by cases hproc

theorem OverlapInvariant.withProcess {process : OverlapProcess V}
    (hproc : ProcessRuns config run process) :
    OverlapInvariant config { run with process := some process } where
  fresh := h.fresh
  stored := fun stored hs => (h.stored stored hs).withQueue (h.stored stored hs).queued
  process := fun other hother => by
    cases hother
    cases process with
    | preparing captured remaining => exact { hproc with }
    | running execution activity fenceLost =>
      exact { hproc with activity := hproc.activity.keep (.refl _) fun _ _ _ h => h }

theorem OverlapInvariant.change {event : DecodedYdbCdcEvent V}
    (hstep : run.change topic event = some run') : OverlapInvariant config run' := by
  unfold OverlapRun.change at hstep
  split at hstep
  · cases hstep
    have hgrows : Grows run.logs (update run.logs topic (run.logs topic ++ [event])) := by
      intro other
      by_cases hother : other = topic
      · subst hother
        exact ⟨[event], update_self ..⟩
      exact ⟨[], by rw [update_of_ne hother, append_nil]⟩
    refine ⟨fun hfresh => ?_, fun stored hstore => ?_, fun process hproc => ?_⟩
    · obtain ⟨hempty, hqueue, hc⟩ := h.fresh hfresh
      refine ⟨hempty, hqueue, fun other => ?_⟩
      have hgrown := hgrows.length_le other
      have hold := hc other
      dsimp only
      omega
    · have hold := h.stored stored hstore
      exact hold.keep hgrows (fun _ _ _ h => h) hold.held hold.queued rfl
    have hold := h.process process hproc
    cases process with
    | preparing captured rem =>
      refine { hold with bounds := ?_ }
      intro other start hstart
      obtain ⟨htop, hnonneg, hle, hc⟩ := hold.bounds other start hstart
      have hgrown := hgrows.length_le other
      exact ⟨htop, hnonneg, by dsimp only; omega, hc⟩
    | running exe activity fenceLost =>
      exact { hold with activity := hold.activity.keep hgrows fun _ _ _ h => h }
  · cases hstep

theorem OverlapInvariant.start (hstep : run.start config = some run') :
    OverlapInvariant config run' := by
  unfold OverlapRun.start at hstep
  split at hstep
  · cases hstep
  split at hstep
  next hfresh =>
    cases hstep
    refine h.withProcess ⟨hfresh, fun table htable => .inr ?_, ?_, ?_⟩
    · exact mem_map.mpr ⟨_, mem_map_of_mem htable, rfl⟩
    · intro entry hentry
      obtain ⟨table, htable, rfl⟩ := mem_map.mp hentry
      exact mem_map_of_mem htable
    rintro topic start ⟨⟩
  rename_i stored hstore
  split at hstep
  · cases hstep
    exact h
  cases hstep
  exact h.withProcess ⟨hstore, rfl, fun h => h, trivial⟩

end

theorem captureOffset_ok {part offset : ℤ} (h : captureOffset part partitions = .ok offset) :
    ∃ info ∈ partitions, ∃ range, info.partitionOffsets = some range ∧ range.stop = offset := by
  replace h := after_check h
  obtain ⟨info, hinfo, h⟩ := of_bind h
  replace h := after_check h
  obtain ⟨range, hr, h⟩ := of_bind h
  replace h := after_check h
  cases h
  exact ⟨info, mem_of_head? (okOr_ok.mp hinfo), range, okOr_ok.mp hr, rfl⟩

theorem OverlapInvariant.capture (h : OverlapInvariant config run)
    (hstep : run.capture partitions = some run') : OverlapInvariant config run' := by
  unfold OverlapRun.capture at hstep
  split at hstep
  next captured topic part rem hproc =>
    have hcapt := h.process _ hproc
    split at hstep
    next hend =>
      split at hstep
      · cases hstep
        exact h.stop
      rename_i off hoff
      cases hstep
      obtain ⟨info, hinfo, range, hr, hstop⟩ := captureOffset_ok hoff
      have hlen : off = (run.logs topic).length := by
        have hall := all_eq_true.mp hend info hinfo
        rw [hr, Option.all_some, decide_eq_true_eq, hstop] at hall
        exact hall
      have hcommitted := (h.fresh hcapt.fresh).2.2 topic
      have htop := hcapt.remaining _ mem_cons_self
      refine h.withProcess ⟨hcapt.fresh, fun table htable => ?_, fun entry hentry =>
        hcapt.remaining entry (mem_cons_of_mem _ hentry), fun other start hstart => ?_⟩
      · by_cases hother : table.topic = topic
        · exact .inl ⟨off, by rw [hother, find?_insert_self]⟩
        rw [find?_insert_ne _ _ hother]
        refine (hcapt.known table htable).imp_right fun hmem => ?_
        exact (mem_cons.mp hmem).resolve_left hother
      by_cases hother : other = topic
      · subst hother
        rw [find?_insert_self] at hstart
        cases hstart
        exact ⟨htop, by omega, by omega, by omega⟩
      rw [find?_insert_ne _ _ hother] at hstart
      exact hcapt.bounds other start hstart
    · cases hstep
  · cases hstep

theorem persistOffsets_ok {offs : OrderedMap String ℤ}
    (h : persistOffsets config offs storage = .ok (stored, storage')) : storage' stateKey =
    some stored ∧ stored.payload.startOffsets = offs ∧ stored.payload.streaming = false := by
  obtain ⟨written, hw, hreturn⟩ := of_bind h
  rcases DurableStorage.compareExchange_ok (mapError_eq_ok.mp hw) with
    ⟨current, hres, -⟩ | ⟨revision, -, -, hres, hnext⟩
  · obtain ⟨res, next⟩ := written
    cases hres
    cases hreturn
  obtain ⟨res, next⟩ := written
  cases hres
  cases hreturn
  exact ⟨(congrFun hnext stateKey).trans (update_self ..), rfl, rfl⟩

section
variable (h : OverlapInvariant config run)
include h

theorem OverlapInvariant.persist (hstep : run.persist config = some run') :
    OverlapInvariant config run' := by
  unfold OverlapRun.persist at hstep
  split at hstep
  next captured hproc =>
    have hcapt := h.process _ hproc
    obtain ⟨hempty, hqueue, -⟩ := h.fresh hcapt.fresh
    split at hstep
    · cases hstep
      exact h.stop
    rename_i stored storage hpersist
    cases hstep
    obtain ⟨hs, ho, hstream⟩ := persistOffsets_ok hpersist
    refine ⟨fun hfresh => ?_, fun other hother => ?_, fun process hrun => ?_⟩
    · cases hfresh.symm.trans hs
    · cases hs.symm.trans hother
      refine ⟨fun table htable => ?_, fun topic start hstart => ?_, fun topic key held hheld => ?_,
        fun row hrow => ?_, fun table _ start hstart => ?_, fun hstreams => ?_⟩
      · rw [ho]
        exact (hcapt.known table htable).resolve_right (by simp)
      · rw [ho] at hstart
        obtain ⟨htop, hnonneg, hle, -⟩ := hcapt.bounds topic start hstart
        exact ⟨htop, hnonneg, hle⟩
      · cases (hempty topic key).symm.trans hheld
      · rw [hqueue] at hrow
        cases hrow
      · rw [ho] at hstart
        obtain ⟨-, -, hle, hc⟩ := hcapt.bounds _ start hstart
        refine ⟨hc.trans hle, fun place hplace hlast => ?_⟩
        dsimp only at hlast
        omega
      · cases hstream.symm.trans hstreams
    cases hrun
    exact ⟨hs, rfl, fun h => h, trivial⟩
  · cases hstep

theorem OverlapInvariant.loseFence (hstep : run.loseFence = some run') :
    OverlapInvariant config run' := by
  unfold OverlapRun.loseFence at hstep
  split at hstep
  next exe activity fenceLost hproc =>
    cases hstep
    have hold := h.process _ hproc
    have hlost : ProcessRuns config run (.running exe activity true) := hold
    exact h.withProcess hlost
  · cases hstep

theorem OverlapInvariant.abandon (hstep : run.abandon = some run') :
    OverlapInvariant config run' := by
  unfold OverlapRun.abandon at hstep
  split at hstep
  next exe activity fenceLost hproc =>
    cases hstep
    have hold := h.process _ hproc
    have hstop := h.stop
    refine ⟨hstop.fresh, fun stored hstore => ?_, fun process hrun => ?_⟩
    · exact (hstop.stored stored hstore).withQueue fun row hrow => by cases hrow
    cases hrun
    exact { hold with activity := trivial }
  · cases hstep

theorem OverlapInvariant.beginSnapshot (hstep : run.beginSnapshot = some run') :
    OverlapInvariant config run' := by
  unfold OverlapRun.beginSnapshot at hstep
  split at hstep
  next exe fenceLost hproc =>
    have hold := h.process _ hproc
    split at hstep
    · cases hstep
      exact h.stop
    rename_i claimed hclaim
    cases hstep
    obtain ⟨hunclaimed, hclaim⟩ := check_bind_eq_ok.mp hclaim
    replace hclaim := after_check hclaim
    cases hclaim
    have hf := hold.unclaimed (by simpa using ensure_ok.mp hunclaimed)
    refine h.withProcess ⟨hold.stored, hold.offsets, fun _ => hf, ?_⟩
    refine
      ⟨rfl, fun htrue => ?_, fun index table start hidx => ?_, fun table start rows _ _ hreader =>
          ?_⟩
    · cases hf.symm.trans htrue
    · cases hidx
    · cases hreader
  · cases hstep

end

/-! ### The snapshot -/

variable {key : Row V} {version : ℕ} {fenceLost : Bool} {point : ℕ}
omit [LinearOrder V] in
theorem sent_append {rows : List (OverlapWrite V)} (h : Sent run topic key version) :
    Sent { run with process, queue := run.queue ++ rows } topic key version := by
  rcases h with hlanded | ⟨row, hrow, hfields⟩
  · exact .inl hlanded
  · exact .inr ⟨row, mem_append_left _ hrow, hfields⟩

variable {exe : OverlapExecution}

theorem OverlapInvariant.enqueue (h : OverlapInvariant config run)
    {activity activity' : OverlapActivity V}
    {fenceLost' : Bool} {rows : List (OverlapWrite V)}
    (hproc : run.process = some (.running exe activity fenceLost))
    (hrows : ∀ row ∈ rows, Genuine config run.logs exe.startOffsets row)
    (hactivity : ActivityRead config { run with
        process := some (.running exe activity' fenceLost')
        queue := run.queue ++ rows } exe activity') :
    OverlapInvariant config
      { run with
        process := some (.running exe activity' fenceLost'), queue := run.queue ++ rows } := by
  have hold := h.process _ hproc
  refine ⟨fun hfresh => ?_, fun stored hs => ?_, fun process hrun => ?_⟩
  · cases hfresh.symm.trans hold.stored
  · cases hold.stored.symm.trans hs
    refine (h.stored _ hs).withQueue fun row hrow => ?_
    rcases mem_append.mp hrow with hrow | hrow
    · exact (h.stored _ hs).queued row hrow
    · exact hold.offsets ▸ hrows row hrow
  cases hrun
  exact { hold with activity := hactivity }

theorem opened_rows {table : OverlapTable} {start : ℤ} (htable : table ∈ config.tables)
    (hstart : exe.startOffsets.find? table.topic = some start) (hnonneg : 0 ≤ start)
    (hle : start ≤ point) (hp : point ≤ (run.logs table.topic).length) {row : Row V}
    (hrow : row ∈ (table.contents ((run.logs table.topic).take point)).entries.map Prod.snd) :
    Genuine config run.logs exe.startOffsets
      { topic := table.topic, key := table.key row, version := 0, image := some row } := by
  obtain ⟨⟨key, found⟩, hentry, rfl⟩ := mem_map.mp hrow
  have hfind := (mem_entries_iff _).mp hentry
  have hkey := key_of_contents hfind
  refine ⟨table, htable, rfl, start, hstart, .inl ⟨rfl, point, ?_, ?_, ?_⟩⟩
  · omega
  · simpa [OverlapTable.changes] using hp
  rw [contents_find?] at hfind
  rw [hkey, OverlapTable.changes, ← map_take]
  exact hfind

section
variable {execution : OverlapExecution} {snapshot : OverlapSnapshot V}
  {table : OverlapTable} {start : ℤ}
section
variable (h : SnapshotRead config run execution snapshot)
  (htable : config.tables[snapshot.tableIndex]? = some table)
include h htable

theorem SnapshotRead.openTable (hstart : execution.startOffsets.find? table.topic = some start)
    (hnonneg : 0 ≤ start) (hle : start ≤ point)
    (hp : point ≤ (run.logs table.topic).length) :
    SnapshotRead config run execution
      { snapshot with
        reader := some ((table.contents
          ((run.logs table.topic).take point)).entries.map Prod.snd) } := by
  refine ⟨h.claimed, h.finished, h.before, ?_⟩
  intro other start' rows hother hstart' hrows
  cases htable.symm.trans hother
  cases hstart.symm.trans hstart'
  cases hrows
  refine ⟨⟨point, hle, hp, fun key row hrow => ?_⟩,
    fun row hrow => opened_rows (mem_of_getElem? htable) hstart hnonneg hle hp hrow⟩
  refine .inr ⟨row, ?_, key_of_contents hrow⟩
  exact mem_map.mpr ⟨(key, row), (mem_entries_iff _).mpr hrow, rfl⟩

theorem SnapshotRead.endTable (hreader : snapshot.reader = some []) :
    SnapshotRead config run execution
      { tableIndex := snapshot.tableIndex + 1, reader := none, previousKey := none } := by
  refine ⟨h.claimed, fun hf => ?_, ?_, ?_⟩
  · have hlen := h.finished hf
    dsimp only
    omega
  · intro index other start hidx hother hstart
    by_cases hlast : index = snapshot.tableIndex
    · subst hlast
      cases htable.symm.trans hother
      apply (h.reading table start [] htable hstart hreader).1.imp
      intro key hkey
      exact hkey.resolve_right (by simp)
    dsimp only at hidx
    exact h.before index other start (by omega) hother hstart
  rintro other start rows _ _ ⟨⟩

theorem SnapshotRead.readRows (hstart : execution.startOffsets.find? table.topic = some start)
    {read rest : List (Row V)} (hreader : snapshot.reader = some (read ++ rest))
    {previousKey : Option (Row V)} :
    SnapshotRead config { run with process, queue := run.queue ++ materializeSnapshot table read }
      execution { snapshot with reader := some rest, previousKey } := by
  obtain ⟨hrows, hg⟩ := h.reading table start _ htable hstart hreader
  refine ⟨h.claimed, h.finished, ?_, ?_⟩
  · intro index other start' hidx hother hstart'
    exact (h.before index other start' hidx hother hstart').imp fun key hkey => sent_append hkey
  intro other start' rows hother hstart' hr
  cases htable.symm.trans hother
  cases hstart.symm.trans hstart'
  cases hr
  refine ⟨hrows.imp fun key hkey => ?_, fun row hrow => hg row (mem_append_right _ hrow)⟩
  rcases hkey with hsent | ⟨row, hrow, rfl⟩
  · exact .inl (sent_append hsent)
  rcases mem_append.mp hrow with hread | hlater
  · exact .inl (.inr ⟨_, mem_append_right _ (mem_map_of_mem hread), rfl, rfl, rfl⟩)
  · exact .inr ⟨row, hlater, rfl⟩

end
end

theorem OverlapInvariant.readSnapshot {count : ℕ} (h : OverlapInvariant config run)
    (hstep : run.readSnapshot config point count = some run') : OverlapInvariant config run' := by
  unfold OverlapRun.readSnapshot at hstep
  split at hstep
  next exe snapshot fenceLost hproc =>
    have hold := h.process _ hproc
    have hread : SnapshotRead config run exe snapshot := hold.activity
    split at hstep
    · cases hstep
      exact h.stop
    split at hstep
    next htables =>
      cases hstep
      refine h.withProcess ⟨hold.stored, hold.offsets, fun hunclaimed => ?_,
        hread.claimed, fun _ => getElem?_eq_none_iff.mp htables, hread.before, hread.reading⟩
      cases hread.claimed.symm.trans hunclaimed
    rename_i table htable
    split at hstep
    · split at hstep
      next hp =>
        cases hstep
        obtain ⟨start, hstart, hle⟩ := (Option.any_eq_true _ _).mp hp.1
        have hbounds := (h.stored _ hold.stored).bounds table.topic start (hold.offsets ▸ hstart)
        exact h.withProcess ⟨hold.stored, hold.offsets, hold.unclaimed,
          hread.openTable htable hstart hbounds.2.1 (of_decide_eq_true hle) hp.2⟩
      · cases hstep
    next hreader =>
      cases hstep
      exact h.withProcess { hold with activity := hread.endTable htable hreader }
    rename_i row rest hreader
    dsimp only at hstep
    split at hstep
    · cases hstep
      exact h.stop
    cases hstep
    obtain ⟨start, hstart⟩ := (h.stored _ hold.stored).known table (mem_of_getElem? htable)
    rw [← hold.offsets] at hstart
    have hsplit : snapshot.reader = some ((row :: rest.take count) ++ rest.drop count) := by
      rw [hreader, cons_append, take_append_drop]
    have hg := (hread.reading table start _ htable hstart hsplit).2
    refine h.enqueue hproc (fun write hw => ?_) (hread.readRows htable hstart hsplit)
    obtain ⟨found, hget, rfl⟩ := mem_map.mp hw
    exact hg found (mem_append_left _ hget)
  · cases hstep

/-! ### Writing -/

variable {place : ℕ}

theorem landed_update {row : OverlapWrite V} (h : Landed (run.destination topic) key version) :
    Landed
      (update run.destination row.topic
          (put (run.destination row.topic) row.key row.version row.image) topic) key version := by
  by_cases htop : topic = row.topic
  · subst htop
    rw [update_self]
    exact h.put _ _ _
  rw [update_of_ne htop]
  exact h

theorem sent_write (hstep : run.write place = some run') (h : Sent run topic key version) :
    Sent run' topic key version := by
  unfold OverlapRun.write at hstep
  split at hstep
  · cases hstep
  rename_i row hrow
  cases hstep
  rcases h with hlanded | ⟨other, hother, rfl, rfl, rfl⟩
  · exact .inl (landed_update hlanded)
  obtain ⟨index, hidx⟩ := mem_iff_getElem?.mp hother
  by_cases hplace : index = place
  · subst hplace
    cases hrow.symm.trans hidx
    refine .inl ?_
    dsimp only
    rw [update_self]
    exact landed_put _ _ _ _
  exact .inr ⟨other, mem_eraseIdx_iff_getElem?.mpr ⟨index, hplace, hidx⟩, rfl, rfl, rfl⟩

theorem OverlapInvariant.write (h : OverlapInvariant config run)
    (hstep : run.write place = some run') : OverlapInvariant config run' := by
  have hsent : ∀ topic key version, Sent run topic key version → Sent run' topic key version :=
    fun topic key version => sent_write hstep
  unfold OverlapRun.write at hstep
  split at hstep
  · cases hstep
  rename_i row hrow
  have hmem := mem_of_getElem? hrow
  cases hstep
  refine ⟨fun hfresh => ?_, fun stored hstore => ?_, fun process hproc => ?_⟩
  · rw [(h.fresh hfresh).2.1] at hmem
    cases hmem
  · have hold := h.stored stored hstore
    refine hold.keep (.refl _) (fun _ _ _ => landed_update) (fun topic key held hheld => ?_)
      (fun other hother => hold.queued other (mem_of_mem_eraseIdx hother)) rfl
    dsimp only at hheld
    by_cases htop : topic = row.topic
    · subst htop
      rw [update_self] at hheld
      rcases put_eq_some hheld with hkept | ⟨rfl, rfl⟩
      · exact hold.held _ key held hkept
      · exact hold.queued row hmem
    rw [update_of_ne htop] at hheld
    exact hold.held topic key held hheld
  have hold := h.process process hproc
  cases process with
  | preparing captured rem => exact { hold with }
  | running exe activity fenceLost =>
    exact { hold with activity := hold.activity.keep (.refl _) hsent }

/-! ### The end of the snapshot -/

theorem completeSnapshot_ok
    {exe' : OverlapExecution} (h : completeSnapshot exe fenceLost storage = .ok (exe', storage')) :
    (exe' = exe ∧ storage' = storage) ∨ ∃ stored, exe' = { exe with stored } ∧ storage' stateKey =
    some stored ∧ stored.payload = { exe.stored.payload with streaming := true } := by
  replace h := after_check h
  split at h
  · cases h
    exact .inl ⟨rfl, rfl⟩
  obtain ⟨next, hnext, he⟩ := of_bind h
  replace hnext := after_check hnext
  cases hnext
  obtain ⟨⟨res, final⟩, hw, hreturn⟩ := of_bind he
  rcases DurableStorage.compareExchange_ok (mapError_eq_ok.mp hw) with
    ⟨current, hres, -⟩ | ⟨revision, -, -, hres, hfinal⟩
  · cases hres
    cases hreturn
  cases hres
  cases hreturn
  exact .inr ⟨_, rfl, (congrFun hfinal stateKey).trans (update_self ..), rfl⟩

theorem OverlapInvariant.complete (h : OverlapInvariant config run) {snapshot : OverlapSnapshot V}
    (hproc : run.process = some (.running exe (.snapshot snapshot) fenceLost))
    (hf : exe.snapshotFinished) (hqueue : run.queue = []) (hstor : storage stateKey = some stored)
    (hstore : stored.payload = { exe.stored.payload with streaming := true }) (lost : Bool) :
    OverlapInvariant config
      { run with storage, process := some (.running { exe with stored } .idle lost) } := by
  have hold := h.process _ hproc
  have hread : SnapshotRead config run exe snapshot := hold.activity
  have hs := h.stored _ hold.stored
  have ho : stored.payload.startOffsets = exe.stored.payload.startOffsets := by rw [hstore]
  refine ⟨fun hfresh => ?_, fun other hother => ?_, fun process hrun => ?_⟩
  · cases hfresh.symm.trans hstor
  · cases hstor.symm.trans hother
    refine ⟨?_, ?_, ?_, ?_, ?_, fun _ table htable start hstart => ?_⟩
    · exact ho ▸ hs.known
    · exact ho ▸ hs.bounds
    · exact ho ▸ hs.held
    · exact ho ▸ hs.queued
    · exact ho ▸ hs.committed
    obtain ⟨index, hidx⟩ := mem_iff_getElem?.mp htable
    have hlen := (List.getElem?_eq_some_iff.mp hidx).1
    have hall := hread.finished hf
    rw [ho, ← hold.offsets] at hstart
    apply (hread.before index table start (by omega) hidx hstart).imp
    rintro key (hlanded | ⟨row, hrow, -⟩)
    · exact hlanded
    rw [hqueue] at hrow
    cases hrow
  cases hrun
  exact ⟨hstor, hold.offsets.trans ho.symm, hold.unclaimed, trivial⟩

theorem OverlapInvariant.finishSnapshot {fenceLostAfter : Bool} (h : OverlapInvariant config run)
    (hstep : run.finishSnapshot fenceLostAfter = some run') : OverlapInvariant config run' := by
  unfold OverlapRun.finishSnapshot at hstep
  split at hstep
  next exe snap fenceLost hproc =>
    have hold := h.process _ hproc
    split at hstep
    next hdone =>
      have hqueue := isEmpty_iff.mp hdone.2
      split at hstep
      · cases hstep
        exact h.stop
      rename_i execution' storage hc
      have hnext : OverlapInvariant config
          { run with storage, process := some (.running execution' .idle fenceLost) } := by
        rcases completeSnapshot_ok hc with ⟨rfl, rfl⟩ | ⟨stored, rfl, hstorage, hstore⟩
        · exact h.withProcess { hold with activity := trivial }
        · exact h.complete hproc hdone.1 hqueue hstorage hstore fenceLost
      split at hstep
      · cases hstep
        exact hnext.stop
      cases hstep
      exact hnext
    · cases hstep
  · cases hstep

end
end Transferia.Ydb
