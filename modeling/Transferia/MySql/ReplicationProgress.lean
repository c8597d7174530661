import Transferia.MySql.SourceSteps

/-!
# The state of the source after a prefix of the log

`origin` is the first record that a delivery stores.  The transactions that its
GTID set lacks are the ones that the delivery has to emit, and `After origin n`
describes the position, the GTID set and the tables after the first `n` of
them.
-/

namespace Transferia.MySql
open List Support Nat LoggedTransaction ReplicationSetting
variable {Raw Value : Type}
namespace ReplicationSetting
variable (setting : ReplicationSetting Raw Value)

abbrev binlog : BinlogLibrary := setting.library.toBinlogLibrary

/-- The committed transactions that a set lacks, in the order of the log. -/
def missing (gtids : GtidSet) : List (LoggedTransaction Raw) :=
  setting.history.filter fun transaction =>
    transaction.commits setting.binlog && !gtids.contains transaction.gtid

abbrev admitted (transaction : LoggedTransaction Raw) : Option TableName :=
  transaction.admittedTable setting.binlog setting.admission

def includeAll (gtids : GtidSet) : List (LoggedTransaction Raw) → Except PositionError GtidSet
  | [] => .ok gtids
  | transaction :: rest => do
    let gtids ← gtids.includeTransaction setting.parser transaction.gtid.sid
      transaction.gtid.tag transaction.gtid.gno
    includeAll gtids rest

end ReplicationSetting
section
variable {setting : ReplicationSetting Raw Value}

theorem includeAll_append {gtids : GtidSet} {first second : List (LoggedTransaction Raw)} :
    setting.includeAll gtids (first ++ second) = (do
      let gtids ← setting.includeAll gtids first
      setting.includeAll gtids second) := by
  induction first generalizing gtids with
  | nil => rfl
  | cons txn rest ih =>
    simp only [cons_append, includeAll]
    cases gtids.includeTransaction setting.parser txn.gtid.sid txn.gtid.tag txn.gtid.gno with
    | error => rfl
    | ok next => exact ih

theorem includeAll_ok {gtids gtids' : GtidSet} {txns : List (LoggedTransaction Raw)}
    (hcanon : gtids.Canonical) (h : setting.includeAll gtids txns = .ok gtids') :
    gtids'.Canonical ∧ ∀ gtid, gtids'.contains gtid ↔ gtids.contains gtid ∨
    gtid ∈ txns.map LoggedTransaction.gtid := by
  induction txns generalizing gtids with
  | nil =>
    cases h
    exact ⟨hcanon, by simp⟩
  | cons txn rest ih =>
    obtain ⟨next, hnext, h⟩ := of_bind h
    obtain ⟨hcanon, -, hcont⟩ := GtidSet.includeTransaction_ok hcanon hnext
    obtain ⟨hres, hall⟩ := ih hcanon h
    refine ⟨hres, fun gtid => ?_⟩
    rw [hall, hcont, map_cons, mem_cons]
    tauto

end

/-- The state of the source after the first `index` transactions. -/
structure After (setting : ReplicationSetting Raw Value)
    (origin : ReplicationOffsetState) (index : ℕ) (position : MySqlBinlogPosition) (gtids : GtidSet)
    (tables : List TableName) : Prop where
  le : index ≤ (setting.missing origin.committedGtids).length
  position : position = (((setting.missing origin.committedGtids).take index).getLast?.map
      LoggedTransaction.endPosition).getD origin.committedPosition
  gtids : setting.includeAll origin.committedGtids
    ((setting.missing origin.committedGtids).take index) = .ok gtids
  tables : tables = origin.authoritativeTables.map AuthoritativeTableIdentity.name ++
      ((setting.missing origin.committedGtids).take index).filterMap setting.admitted

namespace After
variable {setting : ReplicationSetting Raw Value}
  {origin : ReplicationOffsetState} {index other : ℕ}
  {position position' : MySqlBinlogPosition} {gtids gtids' : GtidSet}
  {tables tables' : List TableName} {txn : LoggedTransaction Raw}

theorem zero :
    After setting origin 0 origin.committedPosition origin.committedGtids
      (origin.authoritativeTables.map AuthoritativeTableIdentity.name) where
  le := zero_le _
  position := by simp
  gtids := by simp [includeAll]
  tables := by simp

theorem succ (h : After setting origin index position gtids tables)
    (hnext : (setting.missing origin.committedGtids)[index]? = some txn)
    (hinclude :
      gtids.includeTransaction setting.parser txn.gtid.sid txn.gtid.tag txn.gtid.gno = .ok gtids') :
    After setting origin (index + 1) txn.endPosition gtids'
      (tables ++ (setting.admitted txn).toList) := by
  have htake : (setting.missing origin.committedGtids).take (index + 1) =
      (setting.missing origin.committedGtids).take index ++ [txn] := by
    rw [take_add_one, hnext]
    rfl
  obtain ⟨hlt, -⟩ := List.getElem?_eq_some_iff.mp hnext
  refine ⟨hlt, ?_, ?_, ?_⟩
  · rw [htake]
    simp
  · rw [htake, includeAll_append, h.gtids]
    simp [bind, Except.bind, includeAll, hinclude]
  rw [htake, filterMap_append, ← append_assoc, ← h.tables]
  cases ha : setting.admitted txn with
  | none => simp [filterMap_cons_none, ha]
  | some table => simp [ha]

section
variable (hcanon : origin.committedGtids.Canonical)
  (h : After setting origin index position gtids tables)
include hcanon h

theorem canonical : gtids.Canonical := (includeAll_ok hcanon h.gtids).1

theorem contains (gtid : Gtid) : gtids.contains gtid ↔ origin.committedGtids.contains gtid ∨
    gtid ∈ ((setting.missing origin.committedGtids).take index).map LoggedTransaction.gtid :=
  (includeAll_ok hcanon h.gtids).2 gtid

theorem subset (h' : After setting origin other position' gtids' tables') (hle : index ≤ other)
    {gtid : Gtid} (hmem : gtids.contains gtid) : gtids'.contains gtid := by
  refine (h'.contains hcanon gtid).mpr (((h.contains hcanon gtid).mp hmem).imp_right fun htaken =>
      ?_)
  exact (take_sublist_take_left hle).map _ |>.subset htaken

end
section
variable (hlog : WellFormedLog setting.history) (hcanon : origin.committedGtids.Canonical)
include hlog in
theorem nodup_gtids : ((setting.missing origin.committedGtids).map gtid).Nodup :=
  hlog.gtids.sublist (filter_sublist.map _)

include hlog in
theorem nodup_positions : ((setting.missing origin.committedGtids).map endPosition).Nodup :=
  hlog.positions.sublist (filter_sublist.map _)

theorem place_inj {A B : Type} {f : A → B} {entries : List A} (hdistinct : (entries.map f).Nodup)
    {place other : ℕ} {first second : A} (hfirst : entries[place]? = some first)
    (hsecond : entries[other]? = some second) (heq : f first = f second) : place = other := by
  obtain ⟨hlt, -⟩ := List.getElem?_eq_some_iff.mp hfirst
  refine (getElem?_inj (by rwa [length_map]) hdistinct).mp ?_
  rw [getElem?_map, getElem?_map, hfirst, hsecond, Option.map_some, heq, Option.map_some]

variable (h : After setting origin index position gtids tables)
include hlog hcanon h in
theorem contains_iff {place : ℕ}
    (hplace : (setting.missing origin.committedGtids)[place]? = some txn) :
    gtids.contains txn.gtid ↔ place < index := by
  have hfresh : origin.committedGtids.contains txn.gtid = false := by
    have hmem := mem_filter.mp (mem_of_getElem? hplace)
    simpa using (Bool.and_eq_true_iff.mp hmem.2).2
  rw [h.contains hcanon, hfresh]
  simp only [Bool.false_eq_true, false_or]
  constructor
  · intro hmem
    obtain ⟨other, hother, heq⟩ := mem_map.mp hmem
    obtain ⟨j, hj⟩ := mem_iff_getElem?.mp hother
    rw [getElem?_take] at hj
    split at hj
    · rwa [← place_inj (nodup_gtids hlog) hj hplace heq]
    · cases hj
  intro hlt
  refine mem_map.mpr ⟨txn, mem_iff_getElem?.mpr ⟨place, ?_⟩, rfl⟩
  rw [getElem?_take_of_lt hlt, hplace]

include hlog hcanon h in
theorem index_inj (h' : After setting origin other position' gtids tables') : index = other := by
  by_contra hne
  rcases lt_or_gt_of_ne hne with hlt | hlt
  · have hget := getElem?_eq_getElem (lt_of_lt_of_le hlt h'.le)
    have hin := (h'.contains_iff hlog hcanon hget).mpr hlt
    exact absurd ((h.contains_iff hlog hcanon hget).mp hin) (by omega)
  have hget := getElem?_eq_getElem (lt_of_lt_of_le hlt h.le)
  have hin := (h.contains_iff hlog hcanon hget).mpr hlt
  exact absurd ((h'.contains_iff hlog hcanon hget).mp hin) (by omega)

include hlog hcanon h in
theorem missing_eq_drop :
    (setting.history.filter fun transaction => !gtids.contains transaction.gtid).filter
      (fun transaction => transaction.commits setting.binlog) =
      (setting.missing origin.committedGtids).drop index := by
  have hfilter : (setting.history.filter fun transaction => !gtids.contains transaction.gtid).filter
      (·.commits setting.binlog) = (setting.missing origin.committedGtids).filter
      fun transaction => !gtids.contains transaction.gtid := by
    rw [missing, filter_filter, filter_filter]
    refine filter_congr fun transaction _ => ?_
    by_cases hin : gtids.contains transaction.gtid
    · simp [hin]
    have hold : origin.committedGtids.contains transaction.gtid = false := by
      refine Bool.eq_false_iff.mpr fun hmem => hin ?_
      exact (h.contains hcanon _).mpr (.inl hmem)
    simp [hold, hin]
  rw [hfilter]
  have hsplit := take_append_drop index (setting.missing origin.committedGtids)
  have htaken : ((setting.missing origin.committedGtids).take index).filter
      (!gtids.contains ·.gtid) = [] := by
    refine filter_eq_nil_iff.mpr fun transaction hmem => ?_
    have hin :
      gtids.contains transaction.gtid := (h.contains hcanon _).mpr (.inr (mem_map_of_mem hmem))
    simp [hin]
  have hd : ((setting.missing origin.committedGtids).drop index).filter (!gtids.contains ·.gtid)
      =
      (setting.missing origin.committedGtids).drop index := by
    refine filter_eq_self.mpr fun transaction hmem => ?_
    obtain ⟨i, hplace⟩ := mem_iff_getElem?.mp hmem
    rw [getElem?_drop] at hplace
    have hout : gtids.contains transaction.gtid ≠ true := fun hin =>
      absurd ((h.contains_iff hlog hcanon hplace).mp hin) (by omega)
    simpa using hout
  conv_lhs => rw [← hsplit]
  rw [filter_append, htaken, hd, nil_append]

end

theorem position_eq (h : After setting origin (index + 1) position gtids tables)
    (hplace : (setting.missing origin.committedGtids)[index]? = some txn) :
    position = txn.endPosition := by
  rw [h.position, take_add_one, hplace]
  simp

end After
end Transferia.MySql
