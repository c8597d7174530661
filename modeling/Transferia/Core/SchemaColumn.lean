import Transferia.MySql.GtidText

/-!
# Columns as Arrow fields

The semantic entries of a column travel in the metadata of its Arrow field.
`arrowMetadata` writes them, `fromArrow` reads them back, and `checkField` is
the comparison that a batch has to pass for each of its fields.
-/

namespace Transferia.Core
open List

inductive ValuePresence
  | mayBeAbsent
  | guaranteed

def ValuePresence.metadataValue : ValuePresence → Option String
  | .mayBeAbsent => none
  | .guaranteed => some "guaranteed"

/-- A column without its native declaration; `T` are the Arrow types. -/
structure SchemaColumn (T : Type) where
  name : String
  dataType : T
  (nullable alwaysPresentOnUpdate : Bool)
  (updateValuePresence deleteValuePresence : ValuePresence)
  (primaryKey lowCardinality : Bool)
  maxLength : Option ℕ
  (arrowExtensionName arrowExtensionMetadata systemRole oldValueOf oldKeyOf : Option String)

/-- The keys of the semantic entries.  `changeOperation` marks a field, and a column does
not have it. -/
inductive MetaKey
  | primaryKey | lowCardinality | maxLength | alwaysPresentOnUpdate
  | updateValuePresence | deleteValuePresence | arrowExtensionName | arrowExtensionMetadata
  | systemRole | oldValueOf | oldKeyOf | changeOperation

/-- An Arrow field with the semantic entries of its metadata. -/
structure Field (T : Type) where
  name : String
  dataType : T
  nullable : Bool
  metadata : MetaKey → Option String

variable {T : Type}
namespace SchemaColumn

def flagValue (flag : Bool) : Option String := if flag then some "true" else none

def lengthValue (length : ℕ) : String := String.ofList (Nat.toDigits 10 length)

def arrowMetadata (self : SchemaColumn T) : MetaKey → Option String
  | .updateValuePresence => self.updateValuePresence.metadataValue
  | .deleteValuePresence => self.deleteValuePresence.metadataValue
  | .alwaysPresentOnUpdate => flagValue self.alwaysPresentOnUpdate
  | .primaryKey => flagValue self.primaryKey
  | .lowCardinality => flagValue self.lowCardinality
  | .maxLength => self.maxLength.map lengthValue
  | .arrowExtensionName => self.arrowExtensionName
  | .arrowExtensionMetadata => self.arrowExtensionMetadata
  | .systemRole => self.systemRole
  | .oldValueOf => self.oldValueOf
  | .oldKeyOf => self.oldKeyOf
  | .changeOperation => none

def arrowField (self : SchemaColumn T) : Field T :=
  { name := self.name, dataType := self.dataType, nullable := self.nullable
    metadata := self.arrowMetadata }

end SchemaColumn

inductive SchemaError
  | invalidMetadata (column : String) (key : MetaKey)
  | invalidLength (text : String)
  | extensionMetadataWithoutName (column : String)
  | columnMismatch (position : ℕ) (column : String)
  | metadataMismatch (column : String)

namespace Field

def readEntry {V : Type} (field : Field T) (key : MetaKey) (word : String) (absent present : V) :
    Except SchemaError V :=
  match field.metadata key with
  | none => .ok absent
  | some value => if value = word then .ok present else .error (.invalidMetadata field.name key)

def flag (field : Field T) (key : MetaKey) : Except SchemaError Bool :=
  field.readEntry key "true" false true

def presence (field : Field T) (key : MetaKey) : Except SchemaError ValuePresence :=
  field.readEntry key "guaranteed" .mayBeAbsent .guaranteed

def parsedLength (field : Field T) : Except SchemaError (Option ℕ) :=
  match field.metadata .maxLength with
  | none => .ok none
  | some value =>
    match MySql.parseU64 value.toList with
    | none => .error (.invalidLength value)
    | some length => .ok (some length)

def fromArrow (field : Field T) : Except SchemaError (SchemaColumn T) := do
  let primaryKey ← field.flag .primaryKey
  let lowCardinality ← field.flag .lowCardinality
  let alwaysPresentOnUpdate ← field.flag .alwaysPresentOnUpdate
  let updateValuePresence ← field.presence .updateValuePresence
  let deleteValuePresence ← field.presence .deleteValuePresence
  let maxLength ← field.parsedLength
  let arrowExtensionName := field.metadata .arrowExtensionName
  let arrowExtensionMetadata := field.metadata .arrowExtensionMetadata
  if arrowExtensionMetadata.isSome ∧ arrowExtensionName = none then
    throw (.extensionMetadataWithoutName field.name)
  else
    return { name := field.name, dataType := field.dataType, nullable := field.nullable
             primaryKey, lowCardinality, alwaysPresentOnUpdate, updateValuePresence
             deleteValuePresence, maxLength, arrowExtensionName, arrowExtensionMetadata
             systemRole := field.metadata .systemRole, oldValueOf := field.metadata .oldValueOf
             oldKeyOf := field.metadata .oldKeyOf }

/-- Two flags are only compared with `true`; the other entries have to be the same. -/
def metadataMatches (actual : Field T) (expected : SchemaColumn T) : Bool :=
  let same := fun key => actual.metadata key = expected.arrowMetadata key
  decide (actual.metadata .primaryKey = some "true") = expected.primaryKey ∧
    same .alwaysPresentOnUpdate ∧ same .updateValuePresence ∧ same .deleteValuePresence ∧
    decide (actual.metadata .lowCardinality = some "true") = expected.lowCardinality ∧
    same .maxLength ∧ same .oldValueOf ∧ same .oldKeyOf ∧ same .systemRole ∧
    same .arrowExtensionName ∧ same .arrowExtensionMetadata

/-- The checks that a batch makes for the field at `position`. -/
def checkField [DecidableEq T] (actual : Field T) (expected : SchemaColumn T) (position : ℕ) :
    Except SchemaError Unit :=
  if actual.name ≠ expected.name ∨ actual.dataType ≠ expected.dataType ∨
      actual.nullable ≠ expected.nullable then .error (.columnMismatch position actual.name)
  else if actual.metadataMatches expected then .ok ()
  else .error (.metadataMismatch actual.name)

open SchemaColumn
variable {field : Field T} {column read : SchemaColumn T} {key : MetaKey}

theorem flag_eq_ok {set : Bool} :
    field.flag key = .ok set ↔ field.metadata key = flagValue set := by
  unfold flag readEntry flagValue
  cases set <;> grind

theorem presence_ok {value : ValuePresence} (h : field.metadata key = value.metadataValue) :
    field.presence key = .ok value := by
  cases value <;> simp [presence, readEntry, h, ValuePresence.metadataValue]

theorem parsedLength_ok {length : Option ℕ}
    (hlength : ∀ n ∈ length, n < 2 ^ 64)
    (h : field.metadata .maxLength = length.map lengthValue) :
    field.parsedLength = .ok length := by
  cases length with
  | none => simp [parsedLength, h]
  | some n =>
    have hparse := MySql.parseU64_toDigits (hlength n rfl)
    simp only [parsedLength, h, Option.map_some, lengthValue, String.toList_ofList, hparse]

theorem decide_flagValue (set : Bool) : decide (flagValue set = some "true") = set := by
  cases set <;> rfl

theorem metadata_eq (hread : field.fromArrow = .ok read) (h : field.metadataMatches column)
    (hkey : key ≠ .changeOperation) : field.metadata key = column.arrowMetadata key := by
  obtain ⟨isKey, hflag, hread⟩ := Support.of_bind hread
  obtain ⟨isLow, hlowFlag, -⟩ := Support.of_bind hread
  rw [flag_eq_ok] at hflag hlowFlag
  simp only [metadataMatches, decide_eq_true_eq, hflag, hlowFlag, decide_flagValue] at h
  obtain ⟨rfl, halways, hupdate, hdelete, rfl, hmax, hvalue, hold, hrole, hname, hextends⟩ := h
  cases key with
  | changeOperation => contradiction
  | _ => assumption

theorem checkField_ok [DecidableEq T] {position : ℕ} :
    field.checkField column position = .ok () ↔
      field.name = column.name ∧ field.dataType = column.dataType ∧
      field.nullable = column.nullable ∧ field.metadataMatches column := by
  unfold checkField
  split
  next hshape => exact ⟨nofun, fun h => by simp [h] at hshape⟩
  rename_i hshape
  simp only [not_or, not_not] at hshape
  split
  next hmeta => simp [hshape, hmeta]
  next hmeta => simp [hmeta]

end Field
/-- A column is read back and accepted, and a field that can be read is accepted only with the
entries of the column. -/
theorem schemaColumn_roundTrip [DecidableEq T] (column : SchemaColumn T) :
    ((column.arrowExtensionMetadata.isSome → column.arrowExtensionName ≠ none) →
      (∀ length ∈ column.maxLength, length < 2 ^ 64) →
      column.arrowField.fromArrow = .ok column) ∧
    (∀ position, column.arrowField.checkField column position = .ok ()) ∧
    ∀ (field : Field T) (read : SchemaColumn T) (position : ℕ),
      field.fromArrow = .ok read → field.checkField column position = .ok () →
      ∀ key ≠ .changeOperation, field.metadata key = column.arrowMetadata key := by
  refine ⟨fun hrule hlength => ?_, fun _ => Field.checkField_ok.mpr ⟨rfl, rfl, rfl, ?_⟩, ?_⟩
  · have hthrow : ¬(column.arrowExtensionMetadata.isSome ∧ column.arrowExtensionName = none) :=
      fun h => hrule h.1 h.2
    have hflag {key set} := (@Field.flag_eq_ok T column.arrowField key set).mpr
    simp only [Field.fromArrow, @hflag .primaryKey _ rfl, @hflag .lowCardinality _ rfl,
      @hflag .alwaysPresentOnUpdate _ rfl,
      @Field.presence_ok T column.arrowField .updateValuePresence _ rfl,
      @Field.presence_ok T column.arrowField .deleteValuePresence _ rfl,
      @Field.parsedLength_ok T column.arrowField _ hlength rfl]
    exact if_neg hthrow
  · exact decide_eq_true ⟨Field.decide_flagValue _, rfl, rfl, rfl, Field.decide_flagValue _,
      rfl, rfl, rfl, rfl, rfl, rfl⟩
  intro field read position hread hok key hkey
  exact Field.metadata_eq hread (Field.checkField_ok.mp hok).2.2.2 hkey

end Transferia.Core
