import Transferia.Core.Failure
import Transferia.Support.Checked
import Transferia.Kafka.Sink

/-!
# Batches of the Kafka source

A batch takes the records that arrive within a millisecond of each other, up to its
limits.  A record that arrives in time and no longer fits fails the source, while a late
one begins the next batch.
-/

namespace Transferia.Kafka
open List Support Transferia.Core

structure KafkaRecord where
  topic : String
  (partition offset : ℤ)
  (payload key : Option Bytes)
  headers : List (String × Option Bytes)

structure KafkaSourceConfig where
  (batchMaxMessages batchMaxBytes : ℕ)
  messages_pos : 0 < batchMaxMessages
  bytes_lt : batchMaxBytes < 2 ^ 64

abbrev Offsets := String × ℤ → Option ℤ

structure KafkaBatch where
  records : List KafkaRecord
  offsets : Offsets

def fatal (message : String) : DataPlaneFailure := { severity := .fatal, message }

def recordBytes (record : KafkaRecord) : ℕ :=
  record.payload.elim 0 length + record.key.elim 0 length +
    (record.headers.map fun header => header.1.utf8ByteSize + header.2.elim 0 length).sum

def recordRetainedBytes (record : KafkaRecord) : Except DataPlaneFailure ℕ :=
  if recordBytes record < 2 ^ 64 then .ok (recordBytes record)
  else .error (fatal "Kafka record size overflow")

def mergeOffsets (offsets other : Offsets) : Offsets :=
  fun key => (offsets key).merge max (other key)

/-- Raises the offset of a record's partition past the record. -/
def noteOffset (offsets : Offsets) (record : KafkaRecord) : Except DataPlaneFailure Offsets :=
  if record.offset + 1 < 2 ^ 63 then
    .ok (mergeOffsets offsets fun key =>
      if key = (record.topic, record.partition) then some (record.offset + 1) else none)
  else .error (fatal "Kafka offset overflow")

section
variable (config : KafkaSourceConfig)

/-- The records that join a batch.  The flag of a record says whether it arrives within
a millisecond of the wait for it. -/
def fill (count bytes : ℕ) : List (KafkaRecord × Bool) →
    Except DataPlaneFailure (List KafkaRecord × List (KafkaRecord × Bool))
  | [] => .ok ([], [])
  | (record, early) :: rest =>
    if count < config.batchMaxMessages ∧ bytes < config.batchMaxBytes ∧ early then do
      let size ← recordRetainedBytes record
      if config.batchMaxBytes < min (bytes + size) (2 ^ 64 - 1) then
        let limit := config.batchMaxBytes
        throw (fatal s!"Kafka buffered record would exceed explicit kafka.batch_max_bytes {limit}; lower broker fetch size or raise the configured batch limit")
      else if 2 ^ 64 ≤ bytes + size then throw (fatal "Kafka batch byte count overflow")
      else
        let (records, left) ← fill (count + 1) (bytes + size) rest
        return (record :: records, left)
    else .ok ([], (record, early) :: rest)

def read (first : KafkaRecord) (rest : List (KafkaRecord × Bool)) :
    Except DataPlaneFailure (KafkaBatch × List (KafkaRecord × Bool)) := do
  let bytes ← recordRetainedBytes first
  if config.batchMaxBytes < bytes then
    let limit := config.batchMaxBytes
    throw (fatal s!"Kafka record retained size {bytes} exceeds explicit kafka.batch_max_bytes {limit}")
  else
    let (records, left) ← fill config 1 bytes rest
    let offsets ← (first :: records).foldlM noteOffset fun _ => none
    return ({ records := first :: records, offsets }, left)

/-- The batches of a sequence of records, and the failure that ended it; every batch takes at
least one record. -/
def readAll : ℕ → List (KafkaRecord × Bool) → List KafkaBatch × Option DataPlaneFailure
  | fuel + 1, (first, _) :: rest =>
    match read config first rest with
    | .error failure => ([], some failure)
    | .ok (batch, left) =>
      let (batches, failure) := readAll fuel left
      (batch :: batches, failure)
  | _, _ => ([], none)

def commit (batches : List KafkaBatch) : Offsets :=
  (batches.map KafkaBatch.offsets).foldl mergeOffsets fun _ => none

def Fits (records : List KafkaRecord) : Prop := (records.map recordBytes).sum ≤ config.batchMaxBytes

end

def nextOffsets (records : List KafkaRecord) (key : String × ℤ) : Set ℤ :=
  {next | ∃ record ∈ records, (record.topic, record.partition) = key ∧ record.offset + 1 = next}

/-- The offsets are one more than the largest of each partition. -/
def Stores (offsets : Offsets) (records : List KafkaRecord) : Prop :=
  ∀ key, match offsets key with
    | none => nextOffsets records key = ∅
    | some next => IsGreatest (nextOffsets records key) next

/-- A run reads its records in order, and all of them unless it fails. -/
structure Batched (config : KafkaSourceConfig) (records : List KafkaRecord)
    (run : List KafkaBatch × Option DataPlaneFailure) : Prop where
  started : run.1.flatMap KafkaBatch.records <+: records
  whole : run.2 = none → run.1.flatMap KafkaBatch.records = records
  limits : ∀ batch ∈ run.1, batch.records.length ≤ config.batchMaxMessages ∧
    Fits config batch.records
  committed : ∀ count, Stores (commit (run.1.take count))
    ((run.1.take count).flatMap KafkaBatch.records)

variable {config : KafkaSourceConfig} {offsets other : Offsets} {records more : List KafkaRecord}
  {count bytes : ℕ} {first : KafkaRecord} {input left : List (KafkaRecord × Bool)}
  {batches : List KafkaBatch} {fuel : ℕ}

theorem Stores.merge (h : Stores offsets records) (hother : Stores other more) :
    Stores (mergeOffsets offsets other) (records ++ more) := by
  intro key
  have hunion :
      nextOffsets (records ++ more) key = nextOffsets records key ∪ nextOffsets more key := by
    ext next
    grind [nextOffsets]
  have hfirst := h key
  have hsecond := hother key
  rw [mergeOffsets, hunion]
  cases hoff : offsets key <;> cases hnext : other key <;>
    simp only [hoff, hnext] at hfirst hsecond <;> simp only [Option.merge]
  · rw [hfirst, hsecond, Set.union_empty]
  · rwa [hfirst, Set.empty_union]
  · rwa [hsecond, Set.union_empty]
  · exact hfirst.union hsecond

theorem stores_nil : Stores (fun _ => none) [] := by
  intro key
  simp [nextOffsets]

theorem stores_of_noteOffset {next : Offsets} (h : Stores offsets records)
    (hok : more.foldlM noteOffset offsets = .ok next) : Stores next (records ++ more) := by
  induction more generalizing offsets records with
  | nil =>
    cases hok
    simpa using h
  | cons record rest ih =>
    obtain ⟨next, hnext, hok⟩ := of_bind hok
    rw [noteOffset] at hnext
    split at hnext
    · cases hnext
      rw [append_cons]
      refine ih (h.merge fun key => ?_) hok
      by_cases hkey : key = (record.topic, record.partition)
      · simp [hkey, nextOffsets]
      · simp [hkey, nextOffsets, Ne.symm hkey]
    · cases hnext

theorem recordRetainedBytes_ok (h : recordRetainedBytes first = .ok bytes) :
    recordBytes first = bytes := by
  rw [recordRetainedBytes] at h
  split at h <;> cases h
  rfl

theorem fill_ok
    (hcount : count ≤ config.batchMaxMessages)
    (hbytes : bytes ≤ config.batchMaxBytes)
    (h : fill config count bytes input = .ok (records, left)) :
    input.map Prod.fst = records ++ left.map Prod.fst ∧
    count + records.length ≤ config.batchMaxMessages ∧
    bytes + (records.map recordBytes).sum ≤ config.batchMaxBytes := by
  induction input generalizing count bytes records with
  | nil =>
    cases h
    simpa using ⟨hcount, hbytes⟩
  | cons entry rest ih =>
    rw [fill] at h
    split at h
    next hopen =>
      obtain ⟨size, hsize, h⟩ := of_bind h
      cases recordRetainedBytes_ok hsize
      split at h
      · cases h
      split at h
      · cases h
      obtain ⟨⟨taken, after⟩, hfill, h⟩ := of_bind h
      cases h
      obtain ⟨hwhole, hlen, hsum⟩ := ih (by omega) (by omega) hfill
      simp only [map_cons, cons_append, hwhole, length_cons, sum_cons, true_and]
      omega
    · cases h
      simpa using ⟨hcount, hbytes⟩

theorem read_ok {batch : KafkaBatch} (h : read config first input = .ok (batch, left)) :
    ∃ taken, batch.records = first :: taken ∧
    input.map Prod.fst = taken ++ left.map Prod.fst ∧
    (batch.records.length ≤ config.batchMaxMessages ∧ Fits config batch.records) ∧
    Stores batch.offsets batch.records := by
  obtain ⟨bytes, hbytes, h⟩ := of_bind h
  cases recordRetainedBytes_ok hbytes
  split at h
  · cases h
  obtain ⟨⟨taken, after⟩, hfill, h⟩ := of_bind h
  obtain ⟨offsets, hoffsets, h⟩ := of_bind h
  cases h
  obtain ⟨hwhole, hlen, hsum⟩ := fill_ok config.messages_pos (by omega) hfill
  refine ⟨taken, rfl, hwhole, ⟨?_, ?_⟩, stores_of_noteOffset stores_nil hoffsets⟩
  · rw [length_cons]
    omega
  rwa [Fits, map_cons, sum_cons]

theorem stores_foldl (hstores : Stores offsets records)
    (h : ∀ batch ∈ batches, Stores batch.offsets batch.records) :
    Stores ((batches.map KafkaBatch.offsets).foldl mergeOffsets offsets)
      (records ++ batches.flatMap KafkaBatch.records) := by
  induction batches generalizing offsets records with
  | nil => simpa using hstores
  | cons batch rest ih =>
    obtain ⟨hbatch, hrest⟩ := forall_mem_cons.mp h
    rw [flatMap_cons, ← append_assoc]
    exact ih (hstores.merge hbatch) hrest

theorem readAll_spec (hfuel : input.length ≤ fuel) :
    (readAll config fuel input).1.flatMap KafkaBatch.records <+: input.map Prod.fst ∧
    ((readAll config fuel input).2 = none →
      (readAll config fuel input).1.flatMap KafkaBatch.records = input.map Prod.fst) ∧
    ∀ batch ∈ (readAll config fuel input).1,
      (batch.records.length ≤ config.batchMaxMessages ∧ Fits config batch.records) ∧
      Stores batch.offsets batch.records := by
  induction fuel generalizing input with
  | zero =>
    cases length_eq_zero_iff.mp (Nat.le_zero.mp hfuel)
    simp [readAll]
  | succ fuel ih =>
    cases input with
    | nil => simp [readAll]
    | cons entry rest =>
      rw [readAll]
      cases hread : read config entry.1 rest with
      | error failure => simp
      | ok result =>
        obtain ⟨batch, left⟩ := result
        obtain ⟨taken, hrecords, hwhole, hbatch⟩ := read_ok hread
        have hlen := congrArg length hwhole
        simp only [length_map, length_append, length_cons] at hlen hfuel
        obtain ⟨hstarted, hall, hbatches⟩ := @ih left (by omega)
        simp only [flatMap_cons, hrecords, map_cons, hwhole, cons_append]
        refine ⟨?_, fun hnone => by rw [hall hnone], forall_mem_cons.mpr ⟨hbatch, hbatches⟩⟩
        exact (prefix_cons_inj _).mpr ((prefix_append_right_inj _).mpr hstarted)

theorem readAll_late
    (h : ∀ entry ∈ input, entry.2 = false ∧ Fits config [entry.1] ∧ entry.1.offset + 1 < 2 ^ 63) :
    (readAll config fuel input).2 = none := by
  induction fuel generalizing input with
  | zero => rfl
  | succ fuel ih =>
    cases input with
    | nil => rfl
    | cons entry rest =>
      obtain ⟨⟨-, hfits, hoffset⟩, hrest⟩ := forall_mem_cons.mp h
      rw [Fits, map_singleton, sum_singleton] at hfits
      have hfill (bytes) : fill config 1 bytes rest = .ok ([], rest) := by
        cases rest with
        | nil => rfl
        | cons next => rw [fill, if_neg (by simp [(hrest next mem_cons_self).1])]
      have hnote : noteOffset (fun _ => none) entry.1 = _ := if_pos hoffset
      rw [readAll, read, recordRetainedBytes, if_pos (hfits.trans_lt config.bytes_lt)]
      simp [bind, Except.bind, hfits.not_gt, hfill, hnote, ih hrest, pure, Except.pure]

/-- Whenever the records arrive, the batches of a run are records in order, and all of them if
it does not fail.  A record above the byte limit fails every run; late records within it fail
none. -/
theorem batching_at_any_timing (config : KafkaSourceConfig) (input : List (KafkaRecord × Bool)) :
    Batched config (input.map Prod.fst) (readAll config input.length input) ∧
    ((∃ record ∈ input.map Prod.fst, ¬Fits config [record]) →
      (readAll config input.length input).2 ≠ none) ∧
    ((∀ entry ∈ input, entry.2 = false ∧ Fits config [entry.1] ∧ entry.1.offset + 1 < 2 ^ 63) →
      (readAll config input.length input).2 = none) := by
  obtain ⟨hstarted, hwhole, hbatches⟩ := @readAll_spec config input _ le_rfl
  refine ⟨⟨hstarted, hwhole, fun batch hmem => (hbatches batch hmem).1, ?_⟩, ?_, readAll_late⟩
  · intro count
    exact stores_foldl stores_nil fun batch hmem => (hbatches batch (mem_of_mem_take hmem)).2
  rintro ⟨record, hmem, hlarge⟩ hnone
  rw [← hwhole hnone] at hmem
  obtain ⟨batch, hbatch, hmem⟩ := mem_flatMap.mp hmem
  have hfits := (hbatches batch hbatch).1.2
  obtain ⟨front, back, hsplit⟩ := append_of_mem hmem
  rw [Fits, hsplit, map_append, sum_append, map_cons, sum_cons] at hfits
  rw [Fits, map_singleton, sum_singleton] at hlarge
  omega

/-- Two records that fit alone are two batches when the second is late, and fail the source
when it is not. -/
theorem early_record_fails_source :
    let config : KafkaSourceConfig := ⟨2, 3, by decide, by decide⟩
    let record : KafkaRecord := ⟨"t", 0, 0, some [1, 2], none, []⟩
    (readAll config 2 [(record, true), (record, false)]).2 = none ∧
      (readAll config 2 [(record, true), (record, true)]).2 ≠ none :=
  ⟨rfl, nofun⟩

end Transferia.Kafka
