import Transferia.Ydb.OverlapInvariant
import Transferia.Ydb.SessionLaws

/-!
# An overlapping delivery converges

Everything before the committed offset is written.  Once the stream has caught
up, every change since the capture is written with its version, and the rows of
the snapshot below them.
-/

namespace Transferia.Ydb
open List Function Transferia.Core Support Registry OrderedMap Bool Int Option OverlapRun
open OverlapTable
open Logbroker (okOr_ok ensure_ok OffsetsRange)

theorem configureTopics_nodup {topics : List (String × ℤ)} {map map' : OrderedMap String ℤ}
    (h : topics.foldlM configureTopic map = .ok map') :
    (topics.map (canonicalTopicPath ·.1)).Nodup ∧ ∀ topic ∈ topics,
    map.contains (canonicalTopicPath topic.1) = false := by
  induction topics generalizing map with
  | nil => exact ⟨nodup_nil, fun topic htop => by cases htop⟩
  | cons topic rest ih =>
    obtain ⟨next, hnext, hrest⟩ := of_bind h
    replace hnext := after_check hnext
    obtain ⟨hnew, hnext⟩ := check_bind_eq_ok.mp hnext
    cases hnext
    obtain ⟨hnodup, hother⟩ := ih hrest
    have hne : ∀ later ∈ rest, canonicalTopicPath later.1 ≠ canonicalTopicPath topic.1 := by
      intro later hl hsame
      have hget := hother later hl
      rw [hsame, OrderedMap.contains, find?_insert_self] at hget
      cases hget
    constructor
    · rw [map_cons, nodup_cons]
      refine ⟨fun hmem => ?_, hnodup⟩
      obtain ⟨later, hl, hsame⟩ := mem_map.mp hmem
      exact hne later hl hsame
    intro found hget
    rcases mem_cons.mp hget with rfl | hget
    · simpa using ensure_ok.mp hnew
    have hl := hother found hget
    rwa [OrderedMap.contains, find?_insert_ne _ _ (hne found hget)] at hl

theorem connect_startOffsets {cfg : SessionConfig} {sess : TopicSession}
    (h : connect cfg = .ok sess)
    (hkeys :
      ∀ topic start, cfg.startOffsets.find? topic = some start → topic ∈ cfg.topics.map Prod.fst)
    {topic : String} {start : ℤ} (hstart : cfg.startOffsets.find? topic = some start) :
    sess.startOffsets.find? (canonicalTopicPath topic) = some start := by
  replace h := after_check h
  obtain ⟨configured, hconfigured, h⟩ := of_bind h
  replace h := after_check h
  cases h
  have hnodup := (configureTopics_nodup hconfigured).1
  have hmem : ∀ entry ∈ cfg.startOffsets.entries, ∃ topic ∈ cfg.topics, topic.1 = entry.1 := by
    intro entry he
    obtain ⟨found, hget, hsame⟩ := mem_map.mp (hkeys entry.1 entry.2 ((mem_entries_iff _).mp he))
    exact ⟨found, hget, hsame⟩
  have hinj : ∀ first ∈ cfg.startOffsets.entries, ∀ snd ∈ cfg.startOffsets.entries,
      canonicalTopicPath first.1 = canonicalTopicPath snd.1 → first.1 = snd.1 := by
    intro first hfst snd hsnd hsame
    obtain ⟨one, hone, hfst⟩ := hmem first hfst
    obtain ⟨two, htwo, hsnd⟩ := hmem snd hsnd
    rw [← hfst, ← hsnd] at hsame ⊢
    rw [inj_on_of_nodup_map hnodup hone htwo hsame]
  exact find?_foldl_insert canonicalTopicPath cfg.startOffsets.sorted hinj
    ((mem_entries_iff _).mpr hstart) _

variable {V : Type} [LinearOrder V]
section
variable {config : OverlapConfig} {run run' : OverlapRun V} {offset : ℤ} {topic : String}
  {execution : OverlapExecution} {startOffsets : OrderedMap String ℤ}
  {positions : String → Option ℤ} {table : OverlapTable}

theorem topics_fst (cfg : OverlapConfig) :
    cfg.topics.map Prod.fst = cfg.tables.map OverlapTable.topic := by
  simp [OverlapConfig.topics]

variable (h : OverlapInvariant config run)
include h in
theorem OverlapInvariant.buildStream (hstep : run.buildStream config = some run') :
    OverlapInvariant config run' := by
  unfold OverlapRun.buildStream at hstep
  split at hstep
  next exe fenceLost hproc =>
    have hold := h.process _ hproc
    have hs := h.stored _ hold.stored
    split at hstep
    · cases hstep
      exact h.stop
    rename_i startOffsets hopen
    cases hstep
    obtain ⟨hstream, hopen⟩ := check_bind_eq_ok.mp hopen
    replace hopen := after_check hopen
    obtain ⟨sess, hc, hopen⟩ := of_bind hopen
    cases hopen
    refine h.withProcess ⟨hold.stored, hold.offsets, hold.unclaimed,
      ensure_ok.mp hstream, fun table htable => ?_, fun table _ start _ off hoff => ?_⟩
    · obtain ⟨start, hstart⟩ := hs.known table htable
      rw [← hold.offsets] at hstart
      rw [hstart]
      refine connect_startOffsets hc (fun topic found hget => ?_) hstart
      rw [hold.offsets] at hget
      rw [topics_fst]
      exact (hs.bounds topic found hget).1
    · cases hoff
  · cases hstep

theorem readPosition_ok {comm start : ℤ} {retained : OffsetsRange}
    (h : readPosition table comm (some start) retained = .ok offset) :
    offset = max comm start ∧ offset ≤ retained.stop := by
  obtain ⟨found, hget, h⟩ := of_bind h
  replace h := after_check h
  replace hget := after_check hget
  obtain ⟨hr, hget⟩ := check_bind_eq_ok.mp hget
  cases hget
  cases h
  obtain ⟨hfst, hlast⟩ := ensure_ok.mp hr
  rw [max_eq_left hfst]
  exact ⟨rfl, hlast⟩

theorem mem_of_find_topic (h : config.tables.find? (·.topic = topic) = some table) :
    table ∈ config.tables ∧ table.topic = topic :=
  ⟨mem_of_find?_eq_some h, by simpa using find?_some h⟩

theorem table_of_topic {first second : OverlapTable} (hfst : first ∈ config.tables)
    (hsnd : second ∈ config.tables) (h : first.topic = second.topic) : first = second :=
  inj_on_of_nodup_map config.nodup hfst hsnd h

include h in
theorem OverlapInvariant.startSession {retainedStart : ℤ}
    (hstep : run.startSession config topic retainedStart = some run') :
    OverlapInvariant config run' := by
  unfold OverlapRun.startSession at hstep
  split at hstep
  next exe startOffsets positions fenceLost hproc =>
    have hold := h.process _ hproc
    have hs := h.stored _ hold.stored
    have hread : StreamRead config run exe startOffsets positions := hold.activity
    split at hstep
    · cases hstep
    rename_i table hfind
    obtain ⟨htable, rfl⟩ := mem_of_find_topic hfind
    split at hstep
    · cases hstep
      exact h.stop
    rename_i off hoff
    cases hstep
    refine h.withProcess
      ⟨hold.stored, hold.offsets, hold.unclaimed, hread.streaming, hread.offsets, ?_⟩
    intro other hother start hstart pos hpos
    by_cases hsame : other.topic = table.topic
    · cases table_of_topic hother htable hsame
      rw [update_self] at hpos
      cases hpos
      rw [hread.offsets table htable, hstart] at hoff
      obtain ⟨rfl, hlast⟩ := readPosition_ok hoff
      rw [hold.offsets] at hstart
      have hcommitted := hs.committed table htable start hstart
      refine ⟨le_max_right ..,
        hlast, fun place hfst hplace event hev => .inl (hcommitted.2 place hfst ?_ event hev)⟩
      omega
    rw [update_of_ne hsame] at hpos
    exact hread.read other hother start hstart pos hpos
  · cases hstep

theorem decodeRecord_ok {overlap : Bool}
    {event : DecodedYdbCdcEvent V} {row : OverlapWrite V}
    (h : decodeRecord table offset overlap event = .ok row) :
    0 ≤ offset ∧ row =
      { topic := table.topic
        key := table.key event.current, version := offset.toNat + overlap.toNat
        image := event.image } := by
  replace h := after_check h
  obtain ⟨version, hv, h⟩ := of_bind h
  obtain ⟨hnonneg, hv⟩ := check_bind_eq_ok.mp hv
  cases hv
  cases h
  exact ⟨ensure_ok.mp hnonneg, rfl⟩

omit [LinearOrder V] in
theorem StreamRead.overlap (h : StreamRead config run execution startOffsets positions)
    (htable : table ∈ config.tables) {start : ℤ}
    (hstart : execution.startOffsets.find? table.topic = some start) :
    decide (startOffsets.entries ≠ []) := by
  have hget := (h.offsets table htable).trans hstart
  rw [← mem_entries_iff] at hget
  exact decide_eq_true (ne_nil_of_mem hget)

omit [LinearOrder V] in
theorem StreamRead.readRecord (h : StreamRead config run execution startOffsets positions)
    (htable : table ∈ config.tables) {off : ℕ} (hpos : positions table.topic = some (off : ℤ))
    {event : DecodedYdbCdcEvent V} (hev : (run.logs table.topic)[off]? = some event)
    {process : Option (OverlapProcess V)} {row : OverlapWrite V}
    (hrow : row.topic = table.topic ∧ row.key = table.key event.current ∧ row.version = off + 1) :
    StreamRead config { run with process, queue := run.queue ++ [row] } execution startOffsets
      (update positions table.topic (some ((off : ℤ) + 1))) := by
  refine ⟨h.streaming, h.offsets, ?_⟩
  intro other hother start hstart pos hread
  by_cases hsame : other.topic = table.topic
  · cases table_of_topic hother htable hsame
    rw [update_self] at hread
    cases hread
    obtain ⟨hle, -, hb⟩ := h.read table htable start hstart off hpos
    have hlen := (List.getElem?_eq_some_iff.mp hev).1
    refine ⟨by omega, by dsimp only; omega, ?_⟩
    intro place hfst hplace found hget
    by_cases hlast : place = off
    · subst hlast
      cases hev.symm.trans hget
      exact .inr ⟨row, mem_append_right _ mem_cons_self, hrow⟩
    exact sent_append (hb place hfst (by omega) found hget)
  rw [update_of_ne hsame] at hread
  obtain ⟨hle, hb⟩ := h.read other hother start hstart pos hread
  exact ⟨hle, hb.imp fun _ _ => sent_append⟩

include h in
theorem OverlapInvariant.readRecord (hstep : run.readRecord config topic = some run') :
    OverlapInvariant config run' := by
  unfold OverlapRun.readRecord at hstep
  split at hstep
  next exe startOffsets positions fenceLost hproc =>
    have hold := h.process _ hproc
    have hread : StreamRead config run exe startOffsets positions := hold.activity
    split at hstep
    next off table hpos hfind =>
      obtain ⟨htable, rfl⟩ := mem_of_find_topic hfind
      split at hstep
      · cases hstep
      rename_i event hev
      split at hstep
      · cases hstep
        exact h.stop
      rename_i row hdecode
      cases hstep
      obtain ⟨hnonneg, rfl⟩ := decodeRecord_ok hdecode
      obtain ⟨place, rfl⟩ := eq_ofNat_of_zero_le hnonneg
      rw [toNat_natCast] at hev
      obtain ⟨start, hstart⟩ := (h.stored _ hold.stored).known table htable
      rw [← hold.offsets] at hstart
      rw [hread.overlap htable hstart, toNat_natCast]
      refine h.enqueue hproc (fun row hrow => ?_) (hread.readRecord htable hpos hev ⟨rfl, rfl, rfl⟩)
      cases mem_singleton.mp hrow
      have hle := (hread.read table htable start hstart _ hpos).1
      refine ⟨table, htable, rfl, start, hstart, .inr ⟨place, by omega, rfl, ?_⟩⟩
      simp [OverlapTable.changes, hev]
    · cases hstep
  · cases hstep

include h in
theorem OverlapInvariant.commit (hstep : run.commit topic offset = some run') :
    OverlapInvariant config run' := by
  unfold OverlapRun.commit at hstep
  split at hstep
  next exe startOffsets positions fenceLost hproc =>
    have hold := h.process _ hproc
    have hread : StreamRead config run exe startOffsets positions := hold.activity
    split at hstep
    next hcommit =>
      cases hstep
      refine ⟨fun hfresh => ?_, fun stored hstore => ?_, fun process hr => ?_⟩
      · cases hfresh.symm.trans hold.stored
      · have hs := h.stored stored hstore
        refine { hs with committed := ?_ }
        intro table htable start hstart
        by_cases htop : table.topic = topic
        · -- What is committed has been read, and does not wait.
          subst htop
          dsimp only
          rw [update_self]
          obtain ⟨pos, hpos, hle⟩ := (any_eq_true _ _).mp hcommit.1
          rw [decide_eq_true_eq] at hle
          cases hold.stored.symm.trans hstore
          rw [← hold.offsets] at hstart
          obtain ⟨-, hlen, hbefore⟩ := hread.read table htable start hstart pos hpos
          refine ⟨hle.trans hlen, fun place hfst hplace event hev => ?_⟩
          rcases hbefore place hfst (by omega) event hev with hlanded | ⟨row, hrow, hsame, -, hv⟩
          · exact hlanded
          have hwaits := all_eq_true.mp hcommit.2 row hrow
          simp only [hsame, ne_eq, not_true_eq_false, decide_false,
            Bool.false_or, decide_eq_true_eq] at hwaits
          omega
        dsimp only
        rw [update_of_ne htop]
        exact hs.committed table htable start hstart
      cases hproc.symm.trans hr
      exact { hold with activity := hold.activity.keep (.refl _) fun _ _ _ h => h }
    · cases hstep
  · cases hstep

theorem overlapInvariant_step (label : OverlapLabel V) (h : OverlapInvariant config run)
    (hstep : run.step config label = some run') : OverlapInvariant config run' := by
  cases label with
  | change topic event => exact h.change hstep
  | start => exact h.start hstep
  | capture parts => exact h.capture hstep
  | persist => exact h.persist hstep
  | loseFence => exact h.loseFence hstep
  | crash =>
    cases hstep
    exact h.stop
  | abandon => exact h.abandon hstep
  | claimSnapshot => exact h.beginSnapshot hstep
  | readSnapshot point count => exact h.readSnapshot hstep
  | write place => exact h.write hstep
  | completeSnapshot fenceLostAfter => exact h.finishSnapshot hstep
  | buildStream => exact h.buildStream hstep
  | startSession topic retainedStart => exact h.startSession hstep
  | readRecord topic => exact h.readRecord hstep
  | commit topic off => exact h.commit hstep

theorem overlapInvariant_reachable {logs : String → List (DecodedYdbCdcEvent V)}
    {comm : String → ℤ} (hcommitted : ∀ topic, comm topic ≤ (logs topic).length)
    (hreach : Reachable (step config) (.initial logs comm) run) : OverlapInvariant config run := by
  refine hreach.invariant (fun _ label _ h hstep => overlapInvariant_step label h hstep)
    ⟨fun _ => ⟨fun _ _ => rfl, rfl, hcommitted⟩, fun stored hstore => ?_, fun process hproc => ?_⟩
  · cases hstore
  · cases hproc

include h in
theorem OverlapInvariant.converged {fenceLost : Bool}
    (hproc : run.process = some (.running execution (.stream startOffsets positions) fenceLost))
    (hqueue : run.queue = []) (htable : table ∈ config.tables)
    (hpos : positions table.topic = some ((run.logs table.topic).length : ℤ)) (key : Row V) :
    visible (run.destination table.topic) key =
      (table.contents (run.logs table.topic)).find? key := by
  have hold := h.process _ hproc
  have hread : StreamRead config run execution startOffsets positions := hold.activity
  have hs := h.stored _ hold.stored
  obtain ⟨start, hstart⟩ := hs.known table htable
  rw [contents_find?]
  refine visible_eq_replay start.toNat ?_ ?_ ?_
  · intro held hheld
    obtain ⟨found, hget, htop, start', hstart', hsourced⟩ := hs.held table.topic key held hheld
    cases table_of_topic hget htable htop
    cases hstart.symm.trans hstart'
    exact hsourced
  · intro place image hplace hc
    rw [OverlapTable.changes, getElem?_map, map_eq_some_iff] at hc
    obtain ⟨event, hev, ⟨⟩⟩ := hc
    have hlen := (List.getElem?_eq_some_iff.mp hev).1
    rw [← hold.offsets] at hstart
    obtain ⟨-, -, hbefore⟩ := hread.read table htable start hstart _ hpos
    rcases hbefore place (by omega) (by omega) event hev with hlanded | ⟨row, hrow, -⟩
    · exact hlanded
    rw [hqueue] at hrow
    cases hrow
  obtain ⟨point, hle, hp, hrows⟩ := hs.rows hread.streaming table htable start hstart
  refine ⟨point, by omega, by simpa [OverlapTable.changes] using hp, fun row hrow =>
    hrows key row ?_⟩
  rw [contents_find?, OverlapTable.changes, map_take]
  exact hrow

end

structure OverlapLaws (config : OverlapConfig) (run : OverlapRun V) : Prop where
  converges : run.delivered config → ∀ table ∈ config.tables, ∀ key,
      visible (run.destination table.topic) key = (table.contents (run.logs table.topic)).find? key
  versions : ∀ execution startOffsets positions fenceLost, run.process =
      some (.running execution (.stream startOffsets positions) fenceLost) →
    ∀ table ∈ config.tables, ∀ offset (event : DecodedYdbCdcEvent V) row,
      OverlapRun.decodeRecord table offset (startOffsets.entries ≠ []) event = .ok row →
      (∀ rows : List (Row V), ∀ copied ∈ materializeSnapshot table rows,
        copied.version < row.version) ∧
      ∀ later (event' : DecodedYdbCdcEvent V) row', offset < later →
        OverlapRun.decodeRecord table later (startOffsets.entries ≠ []) event' = .ok row' →
        row.version < row'.version

theorem overlap_converges (config : OverlapConfig)
    (logs : String → List (DecodedYdbCdcEvent V)) (committed : String → ℤ)
    (hcommitted : ∀ topic, committed topic ≤ (logs topic).length) (run : OverlapRun V)
    (hreach : Reachable (OverlapRun.step config) (.initial logs committed) run) :
    OverlapLaws config run := by
  have h := overlapInvariant_reachable hcommitted hreach
  refine ⟨fun hdelivered table htable key => ?_, ?_⟩
  · unfold OverlapRun.delivered at hdelivered
    split at hdelivered
    next hproc =>
      obtain ⟨hqueue, hpositions⟩ := and_eq_true_iff.mp hdelivered
      have hpos := all_eq_true.mp hpositions table htable
      rw [decide_eq_true_eq] at hpos
      exact h.converged hproc (isEmpty_iff.mp hqueue) htable hpos key
    · cases hdelivered
  intro exe startOffsets positions fenceLost hproc table htable off event row hrow
  have hold := h.process _ hproc
  have hread : StreamRead config run exe startOffsets positions := hold.activity
  obtain ⟨start, hstart⟩ := (h.stored _ hold.stored).known table htable
  rw [← hold.offsets] at hstart
  have hoverlap := hread.overlap htable hstart
  obtain ⟨hnonneg, rfl⟩ := decodeRecord_ok hrow
  refine ⟨fun rows copied hcopied => ?_, fun later event' row' hlater hrow' => ?_⟩
  · obtain ⟨found, -, rfl⟩ := mem_map.mp hcopied
    simp [hoverlap]
  obtain ⟨-, rfl⟩ := decodeRecord_ok hrow'
  dsimp only
  omega

namespace SampleOverlap

def table : OverlapTable where
  path := "/local/users"
  topic := "/local/users/feed"
  partitionId := 0
  primaryKeyIndexes := [0]

def config : OverlapConfig where
  deliveryId := "delivery"
  replayIdentity := "config"
  tables := [table]
  nodup := by decide
  session := SampleSession.config

def event (operation : Changelog.ChangeOperation) (id name : ℕ) : DecodedYdbCdcEvent ℕ where
  operation := operation
  current := if operation = .delete then [.present id, .absent]
    else [.present id, .present name]
  changedColumns := if operation = .delete then [1] else [3]

def logs (topic : String) : List (DecodedYdbCdcEvent ℕ) :=
  if topic = table.topic then [event .create 1 10] else []

def describe (length : ℤ) : List PartitionInfo :=
  [{ partitionId := 0
     active := true, parentPartitionIds := [], childPartitionIds := []
     partitionOffsets := some { start := 0, stop := length } }]

/-- The snapshot contains the first update, which the stream repeats.  After a
crash the second update is read again. -/
def labels : List (OverlapLabel ℕ) :=
  [.start, .capture (describe 1), .persist, .change table.topic (event .update 1 20),
    .claimSnapshot, .readSnapshot 2 0, .readSnapshot 0 0, .readSnapshot 0 0, .readSnapshot 0 0,
    .write 0, .completeSnapshot false, .buildStream, .startSession table.topic 0,
    .readRecord table.topic, .write 0, .commit table.topic 2, .change table.topic
    (event .create 2 5), .change table.topic (event .delete 1 0), .readRecord table.topic, .write 0,
    .crash, .start, .buildStream, .startSession table.topic 0, .readRecord table.topic,
    .readRecord table.topic, .write 1, .write 0]

end SampleOverlap
open SampleOverlap

theorem overlap_converges_of_sample : ∃ run, exec (OverlapRun.step config) (.initial logs fun _ =>
      0) labels = some run ∧ visible (run.destination table.topic) [.present 2] = some [.present 2,
      .present 5] ∧ visible (run.destination table.topic) [.present 1] = none ∧
      run.delivered config ∧ OverlapLaws config run := by
  have hrun : (exec (OverlapRun.step config) (.initial logs fun _ => 0) labels).any (fun run =>
          visible (run.destination table.topic) [.present 2] = some [.present 2, .present 5] &&
          visible (run.destination table.topic) [.present 1] = none && run.delivered config) := by
    decide +kernel
  obtain ⟨run, hexec, hview⟩ := (any_eq_true _ _).mp hrun
  simp only [and_eq_true, decide_eq_true_eq] at hview
  exact ⟨run, hexec, hview.1.1, hview.1.2, hview.2,
    overlap_converges _ _ _ (fun topic => natCast_nonneg _) run ⟨_, hexec⟩⟩

end Transferia.Ydb
