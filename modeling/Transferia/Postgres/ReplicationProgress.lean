import Transferia.Postgres.ReplicationReader

/-!
# Progress with both plugins

With `wal2json` every transaction of a page is queued, so that committing the
page moves the slot past it.  With `pgoutput` the reader queues nothing for a
transaction without row changes: the plugins make the same progress exactly when
every transaction of the page has a row change.
-/

namespace Transferia.Postgres
open List Support SlotTransaction QueuedBatch
variable {T D : Type} {catalog : ReplicationCatalog T D}

theorem foldl_max_of_increasing {es : List ℕ} {least : ℕ} (h : (least :: es).Pairwise (· ≤ ·)) :
    es.foldl max least = es.getLast?.getD least := by
  induction es generalizing least with
  | nil => rfl
  | cons first rest ih =>
    obtain ⟨hleast, hrest⟩ := pairwise_cons.mp h
    rw [foldl_cons, max_eq_right (hleast first mem_cons_self),
      ih hrest, getLast?_cons, Option.getD_some]

theorem max?_of_increasing {es : List ℕ} (h : es.Pairwise (· ≤ ·)) : es.max? = es.getLast? := by
  cases es with
  | nil => rfl
  | cons first rest => rw [max?_cons', foldl_max_of_increasing h, getLast?_cons]

/-- Both readers queued the same end LSNs, peeked up to the last transaction of
the page, and would move the slot past it by committing what they queued. -/
structure SameProgress (page : List (SlotTransaction catalog))
    (pgoutput wal2json : ReplicationReader D) : Prop where
  lsns : pgoutput.pending.map lsn = wal2json.pending.map lsn
  peeked : ∀ last, page.getLast? = some last →
    pgoutput.lastPeekLsn = last.endLsn ∧ wal2json.lastPeekLsn = last.endLsn
  moved : ∀ last, page.getLast? = some last → pgoutput.commitTarget (pgoutput.pending.map lsn) =
    .ok last.endLsn ∧ wal2json.commitTarget (wal2json.pending.map lsn) = .ok last.endLsn

namespace ReplicationReader
variable {reader next : ReplicationReader D} {page : List (SlotTransaction catalog)}

theorem commitTarget_eq {lsns : List ℕ} {lsn : ℕ} (hmax : lsns.max? = some lsn)
    (hle : reader.committedLsn ≤ lsn) : reader.commitTarget lsns = .ok lsn := by
  simp [commitTarget, hmax, okOr, ensure, hle, bind, Except.bind, pure, Except.pure]

/-- A reader that queued every transaction of a page has peeked up to the last
one and commits up to it. -/
theorem Queues.reach_last {bs : List (QueuedBatch D)} (hqueue : Queues reader next bs)
    (hlsns : bs.map lsn = page.map endLsn) (hpending : reader.pending = [])
    (hpeek : reader.lastPeekLsn ≤ reader.committedLsn)
    (hahead : ∀ txn ∈ page, reader.committedLsn < txn.endLsn)
    (horder : page.Pairwise (·.endLsn < ·.endLsn)) {last : SlotTransaction catalog}
    (hlast : page.getLast? = some last) :
    next.lastPeekLsn = last.endLsn ∧
    next.commitTarget (next.pending.map lsn) = .ok last.endLsn := by
  have hi : (page.map endLsn).Pairwise (· ≤ ·) := pairwise_map.mpr (horder.imp fun hlt => hlt.le)
  have hlastLsn : (page.map endLsn).getLast? = some last.endLsn := by
    rw [getLast?_map, hlast]
    rfl
  have hc := hahead last (mem_of_getLast? hlast)
  constructor
  · rw [hqueue.lastPeek_eq, hlsns, foldl_max_of_increasing, hlastLsn]
    · rfl
    refine pairwise_cons.mpr ⟨?_, hi⟩
    intro lsn hlsn
    obtain ⟨txn, hmem, rfl⟩ := mem_map.mp hlsn
    exact hpeek.trans (hahead txn hmem).le
  rw [hqueue.pending_eq, hpending, nil_append, hlsns]
  apply commitTarget_eq
  · rw [max?_of_increasing hi, hlastLsn]
  rw [hqueue.committed_eq]
  exact hc.le

/-- When both plugins process a page of the slot, they make the same progress
if and only if every transaction of the page has a row change. -/
theorem sameProgress_iff {pgoutput wal2json : ReplicationReader D}
    (hclosed : reader.pgoutput.transaction = none) (hpending : reader.pending = [])
    (hpeek : reader.lastPeekLsn ≤ reader.committedLsn)
    (hahead : ∀ transaction ∈ page, reader.committedLsn < transaction.endLsn)
    (horder : page.Pairwise (·.endLsn < ·.endLsn))
    (hpgoutput : reader.processRows catalog .pgoutput (page.flatMap (·.rows .pgoutput)) =
      .ok pgoutput)
    (hwal2json : reader.processRows catalog .wal2json (page.flatMap (·.rows .wal2json)) =
      .ok wal2json) :
    SameProgress page pgoutput wal2json ↔ ∀ transaction ∈ page, 0 < transaction.rowChanges := by
  obtain ⟨_, binary, hbinary, hbinaryLsns⟩ := process_page hclosed hpgoutput
  obtain ⟨_, json, hjson, hjsonLsns⟩ := process_page hclosed hwal2json
  have hall : json.map lsn = page.map endLsn := by simpa [queued] using hjsonLsns
  constructor
  · intro hsame
    have hlsns := hsame.lsns
    rw [hbinary.pending_eq, hjson.pending_eq, hpending, nil_append,
      nil_append, hall, hbinaryLsns] at hlsns
    have hlen := congrArg List.length hlsns
    rw [length_map, length_map, length_filter_eq_length_iff] at hlen
    intro transaction hmem
    simpa [queued] using hlen transaction hmem
  intro hchanges
  have hkept : (page.filter fun transaction =>
      transaction.queued .pgoutput) = page := by
    rw [filter_eq_self]
    intro transaction hmem
    simpa [queued] using hchanges transaction hmem
  rw [hkept] at hbinaryLsns
  refine ⟨?_, ?_, ?_⟩
  · rw [hbinary.pending_eq, hjson.pending_eq, map_append, map_append, hall, hbinaryLsns]
  · intro last hlast
    exact ⟨(hbinary.reach_last hbinaryLsns hpending hpeek hahead horder hlast).1,
        (hjson.reach_last hall hpending hpeek hahead horder hlast).1⟩
  intro last hlast
  exact ⟨(hbinary.reach_last hbinaryLsns hpending hpeek hahead horder hlast).2,
      (hjson.reach_last hall hpending hpeek hahead horder hlast).2⟩

end ReplicationReader
section Example

/-- The JSON text of a transaction whose end LSN has two digits. -/
def wal2jsonRow (nextlsn change : String) : List UInt8 :=
  ("\x7b\"xid\":7,\"nextlsn\":\"0/" ++ nextlsn ++
    "\",\"timestamp\":\"2024-01-01 00:00:00+00\",\"change\":[" ++ change ++ "]\x7d").toUTF8.data.toList

/-- One table without columns; of a JSON row the two digits of its end LSN are
read. -/
def emptyTableCatalog : ReplicationCatalog Unit ℕ where
  tables := AList.singleton ("s", "t") ()
  normalizePgoutputEvent _ decoded := .ok
    { values := decoded.event.values
      oldValues := decoded.event.oldValues, oldValuesKind := decoded.event.oldValuesKind }
  normalizeWal2jsonEvent _ decoded := .ok
    { values := decoded.event.values
      oldValues := decoded.event.oldValues, oldValuesKind := decoded.event.oldValuesKind }
  eventsToTableData _ events := .ok events.length
  decodeWal2json row := .ok
    { events := []
      endLsn := ((row.drop 22).take 2).foldl (fun lsn digit => 16 * lsn + (digit.toNat - 48)) 0 }

def zeros (count : ℕ) : List UInt8 := replicate count 0

set_option maxRecDepth 4000 in
def exampleTransaction (change : String) (body : List (List UInt8))
    (body_tags : ∀ message ∈ body, message.head? ≠ some 0x42 ∧ message.head? ≠ some 0x43) :
    SlotTransaction emptyTableCatalog where
  endLsn := 40
  begin := zeros 20
  body
  commit := zeros 16 ++ [40] ++ zeros 8
  row := wal2jsonRow "28" change
  body_tags
  commit_endLsn := ⟨0, [], rfl⟩
  row_endLsn := ⟨[], rfl⟩

def emptyTransaction : SlotTransaction emptyTableCatalog :=
  exampleTransaction "" [] (by simp)

/-- The relation `s.t` without columns, and one row inserted into it. -/
def insertTransaction : SlotTransaction emptyTableCatalog := exampleTransaction
    "\x7b\"kind\":\"insert\",\"schema\":\"s\",\"table\":\"t\"\x7d"
    [[0x52, 0, 0, 0, 7, 0x73, 0, 0x74, 0, 0x64, 0, 0], [0x49, 0, 0, 0, 7, 0x4E, 0, 0]] (by decide)

def startReader : ReplicationReader ℕ :=
  { pgoutput := .new, pending := [], lastPeekLsn := 10, committedLsn := 10 }

/-- A page with one empty transaction: `wal2json` moves past it and `pgoutput`
does not. -/
theorem not_sameProgress_emptyTransaction :
    ∃ pgoutput wal2json : ReplicationReader ℕ,
      startReader.processRows emptyTableCatalog .pgoutput
        (emptyTransaction.rows .pgoutput) = .ok pgoutput ∧
      startReader.processRows emptyTableCatalog .wal2json
        (emptyTransaction.rows .wal2json) = .ok wal2json ∧
      pgoutput.pending = [] ∧ pgoutput.lastPeekLsn = 10 ∧
      wal2json.pending.map lsn = [40] ∧
      wal2json.lastPeekLsn = 40 ∧
      ¬ SameProgress [emptyTransaction] pgoutput wal2json := by
  refine ⟨_, _, rfl, rfl, rfl, rfl, rfl, rfl, ?_⟩
  intro hsame
  exact absurd hsame.lsns (by decide)

theorem sameProgress_iff_insertTransaction :
    ∃ pgoutput wal2json : ReplicationReader ℕ,
      startReader.processRows emptyTableCatalog .pgoutput
        (insertTransaction.rows .pgoutput) = .ok pgoutput ∧
      startReader.processRows emptyTableCatalog .wal2json
        (insertTransaction.rows .wal2json) = .ok wal2json ∧
      SameProgress [insertTransaction] pgoutput wal2json := by
  have hruns : ∃ pgoutput wal2json : ReplicationReader ℕ,
      startReader.processRows emptyTableCatalog .pgoutput
        (insertTransaction.rows .pgoutput) = .ok pgoutput ∧
      startReader.processRows emptyTableCatalog .wal2json
        (insertTransaction.rows .wal2json) = .ok wal2json := ⟨_, _, rfl, rfl⟩
  obtain ⟨pgoutput, wal2json, hpgoutput, hwal2json⟩ := hruns
  refine ⟨pgoutput, wal2json, hpgoutput, hwal2json, ?_⟩
  have hclosed : startReader.pgoutput.transaction = none := rfl
  have hpeek : startReader.lastPeekLsn ≤ startReader.committedLsn := le_refl 10
  refine (ReplicationReader.sameProgress_iff hclosed rfl hpeek ?_
    (pairwise_singleton _ _) ?_ ?_).mpr ?_
  · simp [startReader, insertTransaction, exampleTransaction]
  · simpa using hpgoutput
  · simpa using hwal2json
  · simpa using (by decide : 0 < insertTransaction.rowChanges)

end Example
end Transferia.Postgres
