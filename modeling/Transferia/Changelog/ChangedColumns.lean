import Transferia.Postgres.PgOutput
import Transferia.MySql.ReplicationSource

/-!
# Masks of changed columns

A changelog row names its changed columns by a bit mask.  Two sources write it and
the changelog reads it.  Tests and shifts of a byte's bits are those of its number.
-/

namespace Transferia.Changelog
open List Support

def bitAt (mask : List UInt8) (column : ℕ) : Bool :=
  (mask.getD (column / 8) 0).toNat.testBit (column % 8)

def decodeChangedColumns (mask : List UInt8) (columns : ℕ) (dataset : String) (row : ℕ) :
    Except String (List Bool) :=
  let expectedBytes := (columns + 7) / 8
  let bytes := mask.length
  let used := columns % 8
  let place := s!"changelog dataset '{dataset}' row {row} changed-columns mask"
  if bytes ≠ expectedBytes then .error s!"{place} has {bytes} bytes, expected {expectedBytes}"
  else if used ≠ 0 ∧ (mask.getLastD 0).toNat >>> used ≠ 0 then .error s!"{place} sets unused bits"
  else .ok ((range columns).map (bitAt mask))

def setBit (mask : List UInt8) (index : ℕ) : List UInt8 :=
  mask.modify (index / 8) (· ||| .ofNat (2 ^ (index % 8)))

/-- The bits that the sources set, given the flags of the columns. -/
def maskOf (flags : List Bool) : List UInt8 :=
  ((range flags.length).filter (flags.getD · false)).foldl setBit
    (replicate ((flags.length + 7) / 8) 0)

structure MaskedColumn where
  name : String
  primaryKey : Bool

def postgresChanged (replicaIdentityFull : Bool) (event : Postgres.ChangeEvent) :
    MaskedColumn × ℕ → Except String Bool
  | (⟨name, primaryKey⟩, index) =>
    let unchanged : Bool := event.values[index]? = some .unchangedToast
    match event.operation with
    | .create | .snapshotRead =>
      if unchanged then .error s!"PostgreSQL insert marks column '{name}' as unchanged TOAST"
      else .ok true
    | .update => .ok (replicaIdentityFull || !unchanged)
    | .delete => .ok primaryKey

section
variable {Value : Type}

def imageValue (image : Option (List (Option Value))) (index : ℕ) (text : String) :
    Except String Value :=
  ((image.bind (·[index]?)).bind id).elim (.error text) .ok

def mysqlChanged (mysqlValuesEqual : Value → Value → Bool)
    (change : MySql.BufferedRowChange (Option Value)) : MaskedColumn × ℕ → Except String Bool
  | (⟨name, primaryKey⟩, index) =>
    match change.operation with
    | .create | .snapshotRead => .ok true
    | .delete => .ok primaryKey
    | .update => do
      let before ← imageValue change.before index
        s!"MySQL update before-image omits column '{name}'"
      let after ← imageValue change.after index s!"MySQL update after-image omits column '{name}'"
      .ok (primaryKey || !mysqlValuesEqual before after)

end

/-- The function of both sources: a column that fails leaves no mask. -/
def changedColumnsMask (changed : MaskedColumn × ℕ → Except String Bool)
    (columns : List MaskedColumn) : Except String (List UInt8) :=
  maskOf <$> columns.zipIdx.mapM changed

variable {mask mask' : List UInt8} {index columns : ℕ} {indexes : List ℕ} {flags : List Bool}

theorem testBit_toNat_of_le {j : ℕ} (hj : 8 ≤ j) (byte : UInt8) : byte.toNat.testBit j = false :=
  Nat.testBit_lt_two_pow (byte.toNat_lt.trans_le (Nat.pow_le_pow_right (by omega) hj))

theorem bitAt_setBit (hindex : index / 8 < mask.length) (k : ℕ) :
    bitAt (setBit mask index) k = (bitAt mask k || decide (k = index)) := by
  have hpow : 2 ^ (index % 8) % 256 = 2 ^ (index % 8) :=
    Nat.mod_eq_of_lt (Nat.pow_lt_pow_right (n := 8) (by omega) (by omega))
  by_cases hbyte : index / 8 = k / 8
  · have hbit : index % 8 = k % 8 ↔ k = index := by omega
    simp [bitAt, setBit, ← hbyte, hindex, hpow, Nat.testBit_two_pow, hbit]
  · have hne : k ≠ index := fun h => hbyte (by rw [h])
    simp [bitAt, setBit, hbyte, hne]

theorem bitAt_foldl_setBit (hroom : ∀ index ∈ indexes, index / 8 < mask.length) :
    (indexes.foldl setBit mask).length = mask.length ∧
    ∀ k, bitAt (indexes.foldl setBit mask) k = (bitAt mask k || decide (k ∈ indexes)) := by
  induction indexes generalizing mask with
  | nil => simp
  | cons index indexes ih =>
    obtain ⟨hindex, hrest⟩ := forall_mem_cons.mp hroom
    have hlength : (setBit mask index).length = mask.length := by simp [setBit]
    obtain ⟨hlen, hbits⟩ := ih (by rwa [hlength])
    refine ⟨hlen.trans hlength, fun k => ?_⟩
    rw [foldl_cons, hbits, bitAt_setBit hindex]
    simp [Bool.or_assoc]

theorem maskOf_spec (flags : List Bool) : (maskOf flags).length = (flags.length + 7) / 8 ∧
    ∀ k, bitAt (maskOf flags) k = flags.getD k false := by
  have hroom : ∀ index ∈ (range flags.length).filter (flags.getD · false),
      index / 8 < (replicate ((flags.length + 7) / 8) (0 : UInt8)).length := by
    intro index hindex
    have hlt := mem_range.mp (mem_filter.mp hindex).1
    rw [length_replicate]
    omega
  obtain ⟨hlength, hbits⟩ := bitAt_foldl_setBit hroom
  refine ⟨hlength.trans length_replicate, fun k => ?_⟩
  have hzero : bitAt (replicate ((flags.length + 7) / 8) 0) k = false := by
    simp [bitAt, getElem?_replicate]
    split <;> simp
  rw [maskOf, hbits, hzero]
  by_cases hk : k < flags.length <;> simp [hk]

theorem mask_ext (hlength : mask.length = mask'.length)
    (hbits : ∀ k, bitAt mask k = bitAt mask' k) : mask = mask' := by
  refine ext_getElem hlength fun i hi hi' => ?_
  rw [← UInt8.toNat_inj]
  refine Nat.eq_of_testBit_eq fun j => ?_
  by_cases hj : j < 8
  · have hbyte : (8 * i + j) / 8 = i := by omega
    have hbit : (8 * i + j) % 8 = j := by omega
    simpa [bitAt, hbyte, hbit, hi, hi'] using hbits (8 * i + j)
  · rw [testBit_toNat_of_le (by omega), testBit_toNat_of_le (by omega)]

theorem unused_iff (hlength : mask.length = (columns + 7) / 8) : (columns % 8 ≠ 0 ∧
    (mask.getLastD 0).toNat >>> (columns % 8) ≠ 0) ↔ ∃ k, columns ≤ k ∧ bitAt mask k := by
  have hlast : mask.getLastD 0 = mask.getD (mask.length - 1) 0 := by
    rw [getLastD_eq_getLast?, getLast?_eq_getElem?, getD_eq_getElem?_getD]
  constructor
  · -- A set bit of the shifted byte stands behind the last column.
    rintro ⟨hused, hshift⟩
    obtain ⟨j, hj⟩ := Nat.exists_testBit_of_ne_zero hshift
    rw [Nat.testBit_shiftRight] at hj
    have hlt : columns % 8 + j < 8 := by
      by_contra hge
      simp [testBit_toNat_of_le (not_lt.mp hge)] at hj
    have hbyte : (columns + j) / 8 = mask.length - 1 := by omega
    have hplace : (columns + j) % 8 = columns % 8 + j := by omega
    exact ⟨columns + j, Nat.le_add_right .., by rwa [bitAt, hbyte, hplace, ← hlast]⟩
  · rintro ⟨k, hk, hbit⟩
    have hin : k / 8 < mask.length := by
      by_contra hout
      simp [bitAt, hout] at hbit
    have hbyte : mask.getLastD 0 = mask.getD (k / 8) 0 := by
      rw [hlast]
      congr 1
      omega
    refine ⟨by omega, fun hshift => ?_⟩
    have hzero :=
      Nat.testBit_shiftRight (i := columns % 8) (j := k % 8 - columns % 8) (mask.getLastD 0).toNat
    rw [hshift, Nat.zero_testBit, Nat.add_sub_of_le (by omega), hbyte] at hzero
    exact Bool.false_ne_true (hzero.trans hbit)

theorem decodeChangedColumns_eq_ok {dataset : String} {row : ℕ} :
    decodeChangedColumns mask columns dataset row = .ok flags ↔ flags.length = columns ∧
    maskOf flags = mask := by
  simp only [decodeChangedColumns]
  constructor
  · intro h
    split at h
    · cases h
    rename_i hlength
    have hlength := not_not.mp hlength
    split at h
    · cases h
    rename_i hunused
    rw [unused_iff hlength] at hunused
    cases h
    refine ⟨by simp, mask_ext (by simp [(maskOf_spec _).1, hlength]) fun k => ?_⟩
    rw [(maskOf_spec _).2]
    by_cases hk : k < columns
    · simp [hk]
    · have hbit : bitAt mask k = false := by simpa using fun h => hunused ⟨k, not_lt.mp hk, h⟩
      simp [hk, hbit]
  · rintro ⟨rfl, rfl⟩
    obtain ⟨hlength, hbits⟩ := maskOf_spec flags
    have hunused : ¬ ∃ k, flags.length ≤ k ∧ bitAt (maskOf flags) k := by
      rintro ⟨k, hk, hbit⟩
      rw [hbits, getD_eq_default _ _ hk] at hbit
      cases hbit
    rw [if_neg (not_not.mpr hlength), if_neg (mt (unused_iff hlength).mp hunused)]
    congr 1
    exact ext_getElem (by simp) fun k _ hk => by simp [hbits, hk]

section
variable (dataset : String) (row : ℕ)

def ReadsBack (changed : MaskedColumn × ℕ → Except String Bool) : Prop :=
  ∀ columns mask, changedColumnsMask changed columns = .ok mask →
    ∃ flags, columns.zipIdx.mapM changed = .ok flags ∧
      decodeChangedColumns mask columns.length dataset row = .ok flags

theorem readsBack (changed : MaskedColumn × ℕ → Except String Bool) :
    ReadsBack dataset row changed := by
  intro columns mask h
  obtain ⟨flags, hflags, hmask⟩ := map_eq_ok.mp h
  refine ⟨flags, hflags, decodeChangedColumns_eq_ok.mpr ⟨?_, hmask⟩⟩
  rw [← (mapM_eq_ok.mp hflags).length_eq, length_zipIdx]

/-- The mask of the flags is written for the columns and read as these flags. -/
def Codes (changed : MaskedColumn × ℕ → Except String Bool) (columns : List MaskedColumn)
    (flags : List Bool) : Prop :=
  changedColumnsMask changed columns = .ok (maskOf flags) ∧
  decodeChangedColumns (maskOf flags) columns.length dataset row = .ok flags

theorem codes_of_changed {changed : MaskedColumn × ℕ → Except String Bool}
    {columns : List MaskedColumn} (hlength : columns.length = flags.length)
    (h : ∀ (index : ℕ) column flag, columns[index]? = some column → flags[index]? = some flag →
      changed (column, index) = .ok flag) :
    Codes dataset row changed columns flags := by
  refine ⟨?_, decodeChangedColumns_eq_ok.mpr ⟨hlength.symm, rfl⟩⟩
  have hflags : columns.zipIdx.mapM changed = .ok flags := by
    refine mapM_eq_ok.mpr (forall₂_iff_get.mpr ⟨by simpa using hlength, ?_⟩)
    intro index hcolumn hflag
    simpa using h index _ _ (getElem?_eq_getElem (by simpa using hcolumn))
      (getElem?_eq_getElem hflag)
  rw [changedColumnsMask, hflags]
  rfl

/-- An update whose unchanged columns are omitted TOAST values. -/
def toastUpdate (flags : List Bool) : Postgres.ChangeEvent where
  schema := "s"
  table := "t"
  operation := .update
  values := flags.map fun flag => if flag then .null else .unchangedToast
  oldValues := none
  oldValuesKind := none
  lsn := 0
  transactionId := 0
  commitTimestampMicros := 0

theorem codes_toastUpdate {columns : List MaskedColumn} (hlength : columns.length = flags.length) :
    Codes dataset row (postgresChanged false (toastUpdate flags)) columns flags := by
  apply codes_of_changed dataset row hlength
  intro index column flag _ hflag
  cases flag <;> simp [postgresChanged, toastUpdate, hflag]

def valueUpdate {Value : Type} (same other : Value) (flags : List Bool) :
    MySql.BufferedRowChange (Option Value) where
  tableIndex := 0
  operation := .update
  before := some (flags.map fun _ => some same)
  after := some (flags.map fun flag => some (if flag then other else same))
  messageIndex := 0
  sourceTimestampSeconds := 0
  sourceServerId := 0
  sourceBinlogPosition := 0
  sourceRowInEvent := 0

theorem codes_valueUpdate {Value : Type} {equal : Value → Value → Bool} {same other : Value}
    (hsame : equal same same) (hother : equal same other = false) {columns : List MaskedColumn}
    (hlength : columns.length = flags.length)
    (hkeys : ∀ entry ∈ columns.zip flags, entry.1.primaryKey → entry.2) :
    Codes dataset row (mysqlChanged equal (valueUpdate same other flags)) columns flags := by
  apply codes_of_changed dataset row hlength
  intro index column flag hcolumn hflag
  have hkey : column.primaryKey → flag :=
    hkeys (column, flag) (mem_of_getElem? (getElem?_zip_eq_some.mpr ⟨hcolumn, hflag⟩))
  simp only [mysqlChanged, valueUpdate, imageValue, Option.bind_some, getElem?_map, hflag,
    Option.map_some, id, Option.elim_some, bind, Except.bind]
  cases flag <;> simp_all

/-- A byte string is read as the flags whose mask it is, the masks of both sources are read as
the flags of their columns, and each source writes the mask of all flags that an update can
have: MySQL marks the key columns of every update. -/
theorem changed_columns_codec {Value : Type} (equal : Value → Value → Bool) :
    (∀ mask columns flags, decodeChangedColumns mask columns dataset row = .ok flags ↔
      flags.length = columns ∧ maskOf flags = mask) ∧
    (∀ full event, ReadsBack dataset row (postgresChanged full event)) ∧
    (∀ change, ReadsBack dataset row (mysqlChanged equal change)) ∧
    (∀ (columns : List MaskedColumn) (flags : List Bool), columns.length = flags.length →
      ∃ event, Codes dataset row (postgresChanged false event) columns flags) ∧
    ∀ same other, equal same same → equal same other = false →
      ∀ (columns : List MaskedColumn) (flags : List Bool), columns.length = flags.length →
        (∀ entry ∈ columns.zip flags, entry.1.primaryKey → entry.2) →
        ∃ change, Codes dataset row (mysqlChanged equal change) columns flags := by
  refine ⟨fun _ _ _ => decodeChangedColumns_eq_ok, fun _ _ => readsBack dataset row _,
    fun _ => readsBack dataset row _, fun _ flags hlength => ?_, ?_⟩
  · exact ⟨toastUpdate flags, codes_toastUpdate dataset row hlength⟩
  intro same other hsame hother columns flags hlength hkeys
  exact ⟨_, codes_valueUpdate dataset row hsame hother hlength hkeys⟩

end

/-- Nine columns, of which both sources mark the key and the last one. -/
theorem changed_columns_codec_nine :
    let columns : List MaskedColumn := ⟨"id", true⟩ :: replicate 8 ⟨"c", false⟩
    let flags := true :: replicate 7 false ++ [true]
    maskOf flags = [1, 1] ∧
    (∃ event, Codes "t" 0 (postgresChanged false event) columns flags) ∧
    ∃ change, Codes "t" 0 (mysqlChanged ((· == ·) : ℕ → ℕ → Bool) change) columns flags := by
  obtain ⟨-, -, -, hpostgres, hmysql⟩ := changed_columns_codec "t" 0 ((· == ·) : ℕ → ℕ → Bool)
  refine ⟨rfl, hpostgres _ _ rfl, hmysql 0 1 rfl rfl _ _ rfl (by decide)⟩

end Transferia.Changelog
