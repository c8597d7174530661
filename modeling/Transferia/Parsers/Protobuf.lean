import Transferia.Delivery.AdmissionCoordinator
import Transferia.Parsers.Protoseq
import Transferia.Support.Checked

/-!
# Rows and rejected rows of the protobuf parser

A record of a message becomes a row of the main batch or of the dead-letter
batch.  Nulls are checked when the main batch is complete, so a null that passed
the check of its row fails the whole batch.  The dead-letter batch is marked as a
main one, so the delivery finds no dataset for it.
-/

namespace Transferia.Protobuf
open List Support

/-- The kind of a field, without the descriptor of an enumeration or a message. -/
inductive Kind
  | bool | int32 | sint32 | sfixed32 | enum | int64 | sint64 | sfixed64 | uint32 | fixed32
  | uint64 | fixed64 | float | double | string | bytes | message
  deriving DecidableEq

/-- A reflected value.  A message has its present fields by name. -/
inductive Value
  | bool (value : Bool) | i32 (value : Int32) | i64 (value : Int64) | u32 (value : UInt32)
  | u64 (value : UInt64) | f32 (value : Float32) | f64 (value : Float) | string (value : String)
  | bytes (value : Bytes) | enumNumber (value : Int32)
  | message (fields : List (String × Value))
  | list (values : List Value)
  | map (values : List Value)

def Kind.admits : Kind → Value → Bool
  | .bool, .bool _ | .enum, .enumNumber _ => true
  | .int32, .i32 _ | .sint32, .i32 _ | .sfixed32, .i32 _ => true
  | .int64, .i64 _ | .sint64, .i64 _ | .sfixed64, .i64 _ => true
  | .uint32, .u32 _ | .fixed32, .u32 _ | .uint64, .u64 _ | .fixed64, .u64 _ => true
  | .float, .f32 _ | .double, .f64 _ | .string, .string _ | .bytes, .bytes _ => true
  | _, _ => false

structure FieldDescriptor where
  name : String
  kind : Kind
  (isList isMap supportsPresence : Bool)
  /-- The value of an absent field. -/
  default : Value
  default_admitted : isList || isMap || kind = .message || kind.admits default

def isJsonField (field : FieldDescriptor) : Bool :=
  field.isList || field.isMap || field.kind = .message

/-- The Arrow types of compiled columns. -/
inductive DataType
  | boolean | int32 | int64 | uInt32 | uInt64 | float32 | float64 | utf8 | binary

def arrowType (field : FieldDescriptor) : DataType :=
  if isJsonField field then .utf8
  else
    match field.kind with
    | .bool => .boolean
    | .int32 | .sint32 | .sfixed32 | .enum => .int32
    | .int64 | .sint64 | .sfixed64 => .int64
    | .uint32 | .fixed32 => .uInt32
    | .uint64 | .fixed64 => .uInt64
    | .float => .float32
    | .double => .float64
    | .string | .message => .utf8
    | .bytes => .binary

structure MessageDescriptor where
  fullName : String
  fields : List FieldDescriptor

structure CompiledColumn where
  field : FieldDescriptor
  dataType : DataType
  nullable : Bool
  dataType_eq : dataType = arrowType field

structure ProtobufColumn where
  name : String
  required : Bool

inductive UnknownFieldPolicy
  | fail | discard
  deriving DecidableEq

inductive PackageType
  | singleMessage | repeatedMessage | protoseq

structure ProtobufParserConfig where
  includeColumns : List ProtobufColumn
  primaryKey : List String
  (nullKeysAllowed notFillEmptyFields : Bool)
  unknownFields : UnknownFieldPolicy
  packageType : PackageType

def ensure (condition : Bool) (text : String) : Except String Unit :=
  if condition then .ok () else .error text

section
variable (config : ProtobufParserConfig) (descriptor : MessageDescriptor)

def checkKey (entry : String × ℕ) : Except String Unit := do
  let key := entry.1
  ensure (key ≠ "") "protobuf primary-key names must not be empty"
  ensure (key ∉ config.primaryKey.take entry.2) s!"protobuf.primary_key repeats field '{key}'"
  ensure (descriptor.fields.any (·.name = key))
    s!"protobuf primary-key field '{key}' is absent from message '{descriptor.fullName}'"

def compiledColumn (nullable : Bool) (field : FieldDescriptor) : CompiledColumn :=
  ⟨field, _, nullable, rfl⟩

/-- A listed column, or nothing for a key, which is selected already. -/
def includeColumn (entry : ProtobufColumn × ℕ) : Except String (Option CompiledColumn) := do
  let name := entry.1.name
  ensure (name ≠ "") "protobuf column names must not be empty"
  ensure (name ∉ (config.includeColumns.take entry.2).map (·.name))
    s!"protobuf.include_columns repeats field '{name}'"
  match descriptor.fields.find? (·.name = name) with
  | none =>
    .error s!"protobuf included field '{name}' is absent from message '{descriptor.fullName}'"
  | some field =>
    if name ∈ config.primaryKey then
      (ensure (config.nullKeysAllowed || entry.1.required) (s!"protobuf primary-key field '{name}'"
        ++ " must be required unless null_keys_allowed=true")).map fun _ => none
    else .ok (some (compiledColumn (!entry.1.required) field))

def otherColumns : Except String (List CompiledColumn) :=
  if config.includeColumns.isEmpty then
    .ok ((descriptor.fields.filter (·.name ∉ config.primaryKey)).map (compiledColumn true))
  else (config.includeColumns.zipIdx.mapM (includeColumn config descriptor)).map (·.filterMap id)

def compileColumns : Except String (List CompiledColumn) := do
  config.primaryKey.zipIdx.forM (checkKey config descriptor)
  let keys := config.primaryKey.filterMap fun key => descriptor.fields.find? (·.name = key)
  let others ← otherColumns config descriptor
  let selected := keys.map (compiledColumn config.nullKeysAllowed) ++ others
  ensure (!selected.isEmpty) "protobuf output schema must not be empty"
  return selected

end

abbrev DynamicMessage := List (String × Value)

namespace DynamicMessage
variable (message : DynamicMessage) (field : FieldDescriptor)

def hasField : Bool := message.any (·.1 = field.name)

def getField : Value := ((message.find? (·.1 = field.name)).map (·.2)).getD field.default

end DynamicMessage

/-- The decoder with the descriptors of the rows and of their wrapper, and what is read of
a message beyond its own fields. -/
structure Library where
  (decode decodeWrapper : Bytes → Except String DynamicMessage)
  encodeToVec : DynamicMessage → Bytes
  hasUnknownFields : DynamicMessage → Bool
  /-- The text of `reflect_json`. -/
  jsonText : Value → Except String String

inductive PreparedValue
  | null | bool (value : Bool) | i32 (value : Int32) | i64 (value : Int64) | u32 (value : UInt32)
  | u64 (value : UInt64) | f32 (value : Float32) | f64 (value : Float) | string (value : String)
  | bytes (value : Bytes)

def PreparedValue.fromReflect (library : Library) (value : Value) (field : FieldDescriptor) :
    Except String PreparedValue :=
  if isJsonField field then (library.jsonText value).map .string
  else
    match value with
    | .bool value => .ok (.bool value)
    | .i32 value | .enumNumber value => .ok (.i32 value)
    | .i64 value => .ok (.i64 value)
    | .u32 value => .ok (.u32 value)
    | .u64 value => .ok (.u64 value)
    | .f32 value => .ok (.f32 value)
    | .f64 value => .ok (.f64 value)
    | .string value => .ok (.string value)
    | .bytes value => .ok (.bytes value)
    | .message _ | .list _ | .map _ =>
      .error s!"protobuf field '{field.name}' has an unexpected value kind"

def DataType.takes : DataType → PreparedValue → Bool
  | _, .null | .boolean, .bool _ | .int32, .i32 _ | .int64, .i64 _ | .uInt32, .u32 _ => true
  | .uInt64, .u64 _ | .float32, .f32 _ | .float64, .f64 _ | .utf8, .string _ => true
  | .binary, .bytes _ => true
  | _, _ => false

def DataType.append (dataType : DataType) (value : PreparedValue) : Except String Unit :=
  ensure (dataType.takes value) "protobuf value type does not match its compiled Arrow column"

structure Message where
  value : Bytes
  topic : Option String
  (partition offset writeTimestampMs : Option ℤ)

inductive SystemColumnKind
  | topic | partition | offset | messageIndex | writeTimestampMs | changeOperation | changedColumns

def Message.has (message : Message) : SystemColumnKind → Bool
  | .topic => message.topic.isSome
  | .partition => message.partition.isSome
  | .offset => message.offset.isSome
  | .writeTimestampMs => message.writeTimestampMs.isSome
  | .messageIndex | .changeOperation | .changedColumns => true

abbrev DecodeResult := Except (Bytes × String) (DynamicMessage × Bytes)

structure ProtobufParser where
  library : Library
  config : ProtobufParserConfig
  (rootDescriptor rowDescriptor : MessageDescriptor)
  table : String
  /-- The enabled system columns with their names. -/
  systemColumns : List (SystemColumnKind × String)
  columns : List CompiledColumn
  compiled : compileColumns config rowDescriptor = .ok columns

/-- The source message of a record, and the index of the record in it. -/
structure Position where
  (sourceIndex messageIndex : ℕ)

structure Record where
  row : DecodeResult
  position : Position

structure ParsedRow where
  values : List PreparedValue
  position : Position

structure RejectedRow where
  raw : Bytes
  error : String
  position : Position

/-- A batch for a table.  `R` are its rows. -/
structure TableData (R : Type) where
  table : String
  isDlq : Bool
  rows : List R

def dlqName (table : String) : String := table ++ "_dlq"

namespace ProtobufParser

variable (parser : ProtobufParser)

def repeatedItem : Value → DecodeResult
  | .message message => .ok (message, parser.library.encodeToVec message)
  | _ => .error ([], "protobuf wrapper contains a non-message item")

def decodeRepeated (raw : Bytes) : List DecodeResult :=
  match parser.library.decodeWrapper raw, parser.rootDescriptor.fields.head? with
  | .error error, _ => [.error (raw, s!"invalid protobuf wrapper: {error}")]
  | .ok _, none => [.error (raw, "protobuf repeated wrapper descriptor has no fields")]
  | .ok wrapper, some field =>
    match wrapper.getField field with
    | .list items => items.map parser.repeatedItem
    | _ => [.error (raw, "protobuf wrapper field is not a repeated list")]

def decodeSource (raw : Bytes) : List DecodeResult :=
  let text := Except.mapError fun failed : Bytes × FrameError => (failed.1, failed.2.text)
  match parser.config.packageType with
  | .singleMessage => [text (decodeOne parser.library.decode raw)]
  | .repeatedMessage => parser.decodeRepeated raw
  | .protoseq => (decodeProtoseq parser.library.decode raw).map text

def prepareValue (message : DynamicMessage) (column : CompiledColumn) :
    Except String PreparedValue :=
  let present := message.hasField column.field
  if column.field.supportsPresence && !present && !column.nullable then
    .error s!"required protobuf field '{column.field.name}' is absent"
  else if !present && parser.config.notFillEmptyFields then .ok .null
  else PreparedValue.fromReflect parser.library (message.getField column.field) column.field

def prepareRow (message : DynamicMessage) : Except String (List PreparedValue) := do
  ensure (parser.config.unknownFields ≠ .fail || !parser.library.hasUnknownFields message)
    "protobuf message contains fields absent from the configured descriptor"
  parser.columns.mapM (parser.prepareValue message)

def records (messages : List Message) : List Record :=
  messages.zipIdx.flatMap fun (source, sourceIndex) =>
    (parser.decodeSource source.value).zipIdx.map fun (row, messageIndex) =>
      ⟨row, sourceIndex, messageIndex⟩

def collect (rows : List ParsedRow × List RejectedRow) (record : Record) :
    List ParsedRow × List RejectedRow :=
  match record.row with
  | .error (raw, error) => (rows.1, rows.2 ++ [⟨raw, error, record.position⟩])
  | .ok (message, raw) =>
    match parser.prepareRow message with
    | .ok values => (rows.1 ++ [⟨values, record.position⟩], rows.2)
    | .error error => (rows.1, rows.2 ++ [⟨raw, error, record.position⟩])

/-- The system columns of a row, from the metadata of its message. -/
def appendSystems (messages : List Message) (position : Position) : Except String Unit :=
  forM parser.systemColumns fun (kind, name) =>
    ensure (messages[position.sourceIndex]?.any (·.has kind))
      s!"source message is missing metadata required for system column '{name}'"

def appendRow (messages : List Message) (row : ParsedRow) : Except String Unit := do
  forM (parser.columns.zip row.values) fun (column, value) => column.dataType.append value
  parser.appendSystems messages row.position

def tryNew (rows : List ParsedRow) : Except String Unit :=
  forM parser.columns.zipIdx fun (column, index) =>
    ensure (column.nullable || rows.all fun row => !(row.values[index]? matches some .null))
      (s!"Invalid argument error: Column '{column.field.name}' is declared as " ++
        "non-nullable but contains null values")

def buildDlq (messages : List Message) (rows : List RejectedRow) :
    Except String (TableData RejectedRow) := do
  forM rows (parser.appendSystems messages ·.position)
  return ⟨dlqName parser.table, false, rows⟩

def parseMessages (messages : List Message) :
    Except String (TableData ParsedRow × Option (TableData RejectedRow)) := do
  let rows := (parser.records messages).foldl parser.collect ([], [])
  forM rows.1 (parser.appendRow messages)
  parser.tryNew rows.1
  let main := ⟨parser.table, false, rows.1⟩
  if rows.2.isEmpty then return (main, none)
  let dlq ← parser.buildDlq messages rows.2
  return (main, some dlq)

/-- The lookup of `validate_batch_against_discovery` among the datasets of the parser. -/
def known {R : Type} (batch : TableData R) : Bool :=
  (Delivery.DatasetRole.fromIsDlq batch.isDlq, batch.table) ∈
    [(.main, parser.table), (.deadLetterQueue, dlqName parser.table)]

/-- Every record is one row or one rejected row, in order and at its position. -/
inductive Settled : List Record → List ParsedRow → List RejectedRow → Prop
  | nil : Settled [] [] []
  | accepted {done main dlq record message raw values} : Settled done main dlq →
      record.row = .ok (message, raw) → parser.prepareRow message = .ok values →
      Settled (done ++ [record]) (main ++ [⟨values, record.position⟩]) dlq
  | refused {done main dlq record message raw error} : Settled done main dlq →
      record.row = .ok (message, raw) → parser.prepareRow message = .error error →
      Settled (done ++ [record]) main (dlq ++ [⟨raw, error, record.position⟩])
  | undecoded {done main dlq record raw error} : Settled done main dlq →
      record.row = .error (raw, error) →
      Settled (done ++ [record]) main (dlq ++ [⟨raw, error, record.position⟩])

section
variable (messages : List Message)

/-- Decoded messages have values of the kinds of their fields, and the source messages have
the metadata that the system columns need. -/
structure Lawful : Prop where
  typed : ∀ record ∈ parser.records messages, ∀ message raw, record.row = .ok (message, raw) →
    ∀ column ∈ parser.columns, ∀ value, (column.field.name, value) ∈ message →
      isJsonField column.field || column.field.kind.admits value
  systems : ∀ record ∈ parser.records messages,
    parser.appendSystems messages record.position = .ok ()

/-- The messages are parsed into batches of known datasets, with one row for each record and
no null in a required column. -/
def RejectsRowsOnly : Prop :=
  ∃ main dlq, parser.parseMessages messages = .ok (main, dlq) ∧
    parser.Settled (parser.records messages) main.rows (dlq.elim [] TableData.rows) ∧
    parser.known main ∧ dlq.all parser.known ∧
    ∀ row ∈ main.rows, ∀ column, (column, .null) ∈ parser.columns.zip row.values → column.nullable

/-- An accepted record has every required field that does not track presence. -/
def RequiredFilled : Prop :=
  ∀ record ∈ parser.records messages, ∀ message raw values, record.row = .ok (message, raw) →
    parser.prepareRow message = .ok values → ∀ column ∈ parser.columns, column.nullable = false →
      column.field.supportsPresence = false → message.hasField column.field

def AllAccepted : Prop :=
  ∀ record ∈ parser.records messages, ∃ message raw values,
    record.row = .ok (message, raw) ∧ parser.prepareRow message = .ok values

end
variable {parser} {message : DynamicMessage} {column : CompiledColumn}
  {values : List PreparedValue} {messages : List Message} {done : List Record}
  {main : List ParsedRow} {dlq : List RejectedRow}

theorem ensure_eq_ok {condition : Bool} {text : String} :
    ensure condition text = .ok () ↔ condition := by
  unfold ensure
  split <;> simp_all

theorem settled_foldl (rest : List Record) (rows : List ParsedRow × List RejectedRow)
    (h : parser.Settled done rows.1 rows.2) :
    parser.Settled (done ++ rest) (rest.foldl parser.collect rows).1
      (rest.foldl parser.collect rows).2 := by
  induction rest generalizing done rows with
  | nil => simpa using h
  | cons record rest ih =>
    rw [append_cons, foldl_cons]
    apply ih
    unfold collect
    split
    next hrow => exact .undecoded h hrow
    rename_i hrow
    split
    next hvalues => exact .accepted h hrow hvalues
    next herror => exact .refused h hrow herror

theorem Settled.mem_main (h : parser.Settled done main dlq) (row : ParsedRow) :
    row ∈ main ↔ ∃ record ∈ done, ∃ message raw, record.row = .ok (message, raw) ∧
      parser.prepareRow message = .ok row.values ∧ record.position = row.position := by
  induction h with
  | nil => simp
  | accepted _ hrow | refused _ hrow | undecoded _ hrow =>
    cases row
    grind

theorem Settled.dlq_eq_nil (h : parser.Settled done main dlq) :
    dlq = [] ↔ ∀ record ∈ done, ∃ message raw values,
      record.row = .ok (message, raw) ∧ parser.prepareRow message = .ok values := by
  induction h with
  | nil => simp
  | accepted _ hrow hvalues ih => simp [ih, or_imp, forall_and, hrow, hvalues]
  | refused _ hrow herror => simp [or_imp, forall_and, hrow, herror]
  | undecoded _ hrow => simp [or_imp, forall_and, hrow]

theorem mem_zip_iff {value : PreparedValue} :
    (column, value) ∈ parser.columns.zip values ↔
      ∃ index : ℕ, parser.columns[index]? = some column ∧ values[index]? = some value := by
  simp only [mem_iff_getElem?, getElem?_zip_eq_some]

theorem tryNew_eq_ok :
    parser.tryNew main = .ok () ↔ ∀ row ∈ main, ∀ column,
      (column, .null) ∈ parser.columns.zip row.values → column.nullable := by
  simp only [tryNew, forM_eq_ok, ensure_eq_ok, mem_zip_iff, Prod.forall, mem_zipIdx_iff_getElem?]
  grind

theorem zip_of_prepareRow (h : parser.prepareRow message = .ok values) :
    parser.columns.length = values.length ∧
    ∀ {column value}, (column, value) ∈ parser.columns.zip values →
      parser.prepareValue message column = .ok value :=
  forall₂_iff_zip.mp (mapM_eq_ok.mp (check_bind_eq_ok.mp h).2)

theorem takes_fromReflect {library : Library} {value : Value} {field : FieldDescriptor}
    {prepared : PreparedValue} (hkind : isJsonField field || field.kind.admits value)
    (h : PreparedValue.fromReflect library value field = .ok prepared) :
    (arrowType field).takes prepared ∧ ¬prepared matches .null := by
  unfold PreparedValue.fromReflect at h
  unfold arrowType
  split at h
  next hjson =>
    obtain ⟨text, -, rfl⟩ := map_eq_ok.mp h
    simp [hjson, DataType.takes]
  next hjson =>
    simp only [hjson, Bool.false_eq_true, Bool.false_or, if_false] at hkind ⊢
    cases hfield : field.kind <;> rw [hfield] at hkind <;> cases value <;> cases hkind <;>
      cases h <;> exact ⟨rfl, nofun⟩

section
variable (hlawful : parser.Lawful messages) {record : Record} {raw : Bytes}
  (hrecord : record ∈ parser.records messages) (hrow : record.row = .ok (message, raw))
  (hcolumn : column ∈ parser.columns)
include hlawful hrecord hrow hcolumn

theorem getField_admitted :
    isJsonField column.field || column.field.kind.admits (message.getField column.field) := by
  unfold DynamicMessage.getField
  cases hfind : message.find? (·.1 = column.field.name) with
  | none => simpa [isJsonField] using column.field.default_admitted
  | some entry =>
    have hname := find?_some hfind
    apply hlawful.typed record hrecord message raw hrow column hcolumn
    simpa [← of_decide_eq_true hname] using mem_of_find?_eq_some hfind

theorem prepareValue_ok {value : PreparedValue}
    (h : parser.prepareValue message column = .ok value) :
    column.dataType.takes value ∧
    (value = .null → message.hasField column.field = false ∧ parser.config.notFillEmptyFields ∧
      (column.field.supportsPresence → column.nullable)) := by
  simp only [prepareValue] at h
  split at h
  · cases h
  split at h
  · cases h
    refine ⟨by cases column.dataType <;> rfl, ?_⟩
    grind
  obtain ⟨htakes, hnull⟩ := takes_fromReflect
    (getField_admitted hlawful hrecord hrow hcolumn) h
  refine ⟨column.dataType_eq ▸ htakes, ?_⟩
  rintro rfl
  exact absurd rfl hnull

end

theorem appendRow_ok (hlawful : parser.Lawful messages) {record : Record} {row : ParsedRow}
    {raw : Bytes} (hrecord : record ∈ parser.records messages)
    (hrow : record.row = .ok (message, raw)) (hposition : record.position = row.position)
    (hvalues : parser.prepareRow message = .ok row.values) :
    parser.appendRow messages row = .ok () := by
  refine check_bind_eq_ok.mpr ⟨forM_eq_ok.mpr ?_, hposition ▸ hlawful.systems record hrecord⟩
  rintro ⟨column, value⟩ hmem
  have hvalue := (zip_of_prepareRow hvalues).2 hmem
  exact ensure_eq_ok.mpr
    (prepareValue_ok hlawful hrecord hrow (of_mem_zip hmem).1 hvalue).1

theorem null_of_absent
    (h : parser.prepareRow message = .ok values)
    (hcolumn : column ∈ parser.columns)
    (hpresence : column.field.supportsPresence = false)
    (habsent : message.hasField column.field = false)
    (hempty : parser.config.notFillEmptyFields) :
    (column, .null) ∈ parser.columns.zip values := by
  obtain ⟨hlen, hzip⟩ := zip_of_prepareRow h
  obtain ⟨index, hindex⟩ := mem_iff_getElem?.mp hcolumn
  have hlt : index < values.length := hlen ▸ (List.getElem?_eq_some_iff.mp hindex).1
  have hmem : (column, values[index]) ∈ parser.columns.zip values :=
    mem_zip_iff.mpr ⟨index, hindex, getElem?_eq_getElem hlt⟩
  have hvalue := hzip hmem
  simp [prepareValue, hpresence, habsent, hempty] at hvalue
  rwa [hvalue]

theorem tryNew_ok (hlawful : parser.Lawful messages)
    (h : parser.Settled (parser.records messages) main dlq)
    (hfilled : parser.config.notFillEmptyFields → parser.RequiredFilled messages) :
    parser.tryNew main = .ok () := by
  refine tryNew_eq_ok.mpr fun row hrow column hnull => ?_
  obtain ⟨record, hrecord, message, raw, hok, hvalues, -⟩ := (h.mem_main row).mp hrow
  have hcolumn := (of_mem_zip hnull).1
  obtain ⟨habsent, hempty, hpresence⟩ := (prepareValue_ok hlawful hrecord hok hcolumn
    ((zip_of_prepareRow hvalues).2 hnull)).2 rfl
  by_contra hrequired
  have hpresent := hfilled hempty record hrecord message raw _ hok hvalues column hcolumn
    (by simpa using hrequired) (by grind)
  simp [habsent] at hpresent

theorem buildDlq_unknown {batch : TableData RejectedRow}
    (h : parser.buildDlq messages dlq = .ok batch) :
    parser.known batch = false := by
  obtain ⟨-, ⟨⟩⟩ := check_bind_eq_ok.mp h
  have hname : dlqName parser.table ≠ parser.table := by
    intro heq
    have hlength := congrArg String.length heq
    simp [dlqName, String.length_append] at hlength
  simp [known, Delivery.DatasetRole.fromIsDlq, hname]

/-- Records are rejected one by one, into a known dataset, exactly when none is rejected and
no record leaves out a required field without presence under `not_fill_empty_fields`. -/
theorem record_rejected_alone (parser : ProtobufParser) (messages : List Message)
    (hlawful : parser.Lawful messages) :
    parser.RejectsRowsOnly messages ↔
      (parser.config.notFillEmptyFields → parser.RequiredFilled messages) ∧
      parser.AllAccepted messages := by
  have hsettled := settled_foldl (parser.records messages) ([], []) (.nil : parser.Settled [] _ _)
  set rows := (parser.records messages).foldl parser.collect ([], []) with hrows
  constructor
  · rintro ⟨main, dlq, hparse, hdone, -, hknown, hnulls⟩
    constructor
    · intro hempty record hrecord message raw values hrow hvalues column hcolumn hrequired hpresence
      by_contra habsent
      have hmain := (hdone.mem_main ⟨values, record.position⟩).mpr
        ⟨record, hrecord, message, raw, hrow, hvalues, rfl⟩
      have hnull := null_of_absent hvalues hcolumn hpresence (by simpa using habsent) hempty
      have hnullable := hnulls _ hmain column hnull
      simp [hrequired] at hnullable
    -- A dead-letter batch would be one that the delivery does not know.
    apply hsettled.dlq_eq_nil.mp
    by_contra hsome
    simp only [parseMessages, ← hrows] at hparse
    obtain ⟨-, hparse⟩ := check_bind_eq_ok.mp hparse
    obtain ⟨-, hparse⟩ := check_bind_eq_ok.mp hparse
    rw [if_neg (by simpa using hsome)] at hparse
    obtain ⟨batch, hbatch, ⟨⟩⟩ := of_bind hparse
    simp [buildDlq_unknown hbatch] at hknown
  rintro ⟨hfilled, haccepted⟩
  have hnone : rows.2 = [] := hsettled.dlq_eq_nil.mpr haccepted
  have htry' := tryNew_ok hlawful hsettled hfilled
  refine ⟨⟨parser.table, false, rows.1⟩, none, ?_, ?_, ?_, rfl, tryNew_eq_ok.mp htry'⟩
  · refine check_bind_eq_ok.mpr ⟨forM_eq_ok.mpr fun row hrow => ?_,
      check_bind_eq_ok.mpr ⟨htry', if_pos (by simp [← hrows, hnone])⟩⟩
    obtain ⟨record, hrecord, message, raw, hok, hvalues, hposition⟩ :=
      (hsettled.mem_main row).mp hrow
    exact appendRow_ok hlawful hrecord hok hposition hvalues
  · simpa [hnone] using hsettled
  · simp [known, Delivery.DatasetRole.fromIsDlq]

/-- Messages of one integer field, which is present when it is not zero. -/
def sampleLibrary : Library where
  decode raw :=
    match raw with
    | [] => .ok []
    | [8, value] => .ok [("id", .i32 value.toNat.toInt32)]
    | _ => .error "buffer underflow"
  decodeWrapper _ := .error "buffer underflow"
  encodeToVec _ := []
  hasUnknownFields _ := false
  jsonText _ := .ok ""

def sampleField : FieldDescriptor := ⟨"id", .int32, false, false, false, .i32 0, rfl⟩

def sampleParser : ProtobufParser where
  library := sampleLibrary
  config := ⟨[], ["id"], false, true, .discard, .singleMessage⟩
  rootDescriptor := ⟨"Event", [sampleField]⟩
  rowDescriptor := ⟨"Event", [sampleField]⟩
  table := "events"
  systemColumns := []
  columns := [compiledColumn false sampleField]
  compiled := rfl

def sampleMessage (value : Bytes) : Message := ⟨value, none, none, none, none⟩

theorem sampleParser_lawful : sampleParser.Lawful messages where
  typed := by
    intro record hrecord message raw hrow column hcolumn value hvalue
    obtain ⟨⟨source, index⟩, -, hrecord⟩ := mem_flatMap.mp hrecord
    obtain rfl := mem_singleton.mp hrecord
    obtain rfl := mem_singleton.mp hcolumn
    simp only [decodeOne, sampleParser, sampleLibrary] at hrow
    split at hrow
    next hdecode =>
      cases hrow
      split at hdecode <;> cases hdecode
      · cases hvalue
      · obtain ⟨⟩ := mem_singleton.mp hvalue
        rfl
    · cases hrow
  systems _ _ := rfl

theorem record_rejected_alone_of_sample :
    sampleParser.RejectsRowsOnly [sampleMessage [8, 1], sampleMessage [8, 2]] := by
  refine (record_rejected_alone _ _ sampleParser_lawful).mpr ⟨fun _ record hrecord => ?_, ?_⟩
  · rintro message raw values hrow - column hcolumn - -
    obtain rfl := mem_singleton.mp hcolumn
    rcases hrecord with _ | ⟨_, _ | ⟨_, ⟨⟩⟩⟩ <;> cases hrow <;> rfl
  intro record hrecord
  rcases hrecord with _ | ⟨_, _ | ⟨_, ⟨⟩⟩⟩ <;> exact ⟨_, _, _, rfl, rfl⟩

/-- A message without its key leaves the message before it unparsed as well, and a damaged one
goes to a batch without a dataset. -/
theorem absent_key_fails_batch :
    sampleParser.Lawful [sampleMessage [8, 1], sampleMessage []] ∧
    sampleParser.parseMessages [sampleMessage [8, 1], sampleMessage []] =
      .error ("Invalid argument error: Column 'id' is declared as " ++
        "non-nullable but contains null values") ∧
    ¬sampleParser.RejectsRowsOnly [sampleMessage [8, 1], sampleMessage []] ∧
    ∃ main dlq, sampleParser.parseMessages [sampleMessage [8, 1], sampleMessage [8]] =
        .ok (main, some dlq) ∧ sampleParser.known dlq = false := by
  refine ⟨sampleParser_lawful, rfl, ?_, _, _, rfl, by decide⟩
  rintro ⟨main, dlq, ⟨⟩, -⟩

end ProtobufParser
end Transferia.Protobuf
