import Transferia.Support.Checked

/-!
# Bulk bodies of the OpenSearch sink

A row becomes an index action: a line that names the document and a line with
its source.  The server splits the body at line feeds and reads the lines in
pairs.  The source of an envelope row is copied as it was read, so it is on one
line only when its author formatted it so.
-/

namespace Transferia.OpenSearch
open List Support

abbrev Text := List Char

variable {V : Type}

/-- The parts of `serde_json` and `base64` that the encoder calls. -/
structure Library (V : Type) where
  fromStr : Text → Except String V
  toVec : V → Text
  /-- `Value::Object` of a map with these members. -/
  object : List (String × V) → V
  urlSafeNoPad : List UInt8 → String

/-- A value is written on one line and read back. -/
structure Library.Lawful (library : Library V) : Prop where
  fromStr_toVec : ∀ value, library.fromStr (library.toVec value) = .ok value
  oneLine : ∀ value, '\n' ∉ library.toVec value

def shortEscape : Char → Option Char
  | '"' => some '"'
  | '\\' => some '\\'
  | '\x08' => some 'b'
  | '\x0c' => some 'f'
  | '\n' => some 'n'
  | '\r' => some 'r'
  | '\t' => some 't'
  | _ => none

def hexDigit (digit : ℕ) : Char :=
  Char.ofNat (if digit < 10 then 48 + digit else 87 + digit)

variable (c : Char)

def escape : Text :=
  match shortEscape c with
  | some short => ['\\', short]
  | none =>
    if c.toNat < 32 then
      ['\\', 'u', '0', '0', hexDigit (c.toNat / 16), hexDigit (c.toNat % 16)]
    else [c]

variable (text : String)

def jsonString : Text := '"' :: (text.toList.flatMap escape ++ ['"'])

def unescape : Char → Option Char
  | '"' => some '"'
  | '\\' => some '\\'
  | 'b' => some '\x08'
  | 'f' => some '\x0c'
  | 'n' => some '\n'
  | 'r' => some '\r'
  | 't' => some '\t'
  | _ => none

def hexValue : ℕ :=
  if c.toNat < 58 then c.toNat - 48 else c.toNat - 87

/-- The characters up to the closing quote, and the text behind it. -/
def readCharacters : Text → Option (Text × Text)
  | '"' :: rest => some ([], rest)
  | '\\' :: 'u' :: a :: b :: c :: d :: rest =>
    (readCharacters rest).map fun (text, rest) =>
      (Char.ofNat (((hexValue a * 16 + hexValue b) * 16 + hexValue c) * 16 +
        hexValue d) :: text, rest)
  | '\\' :: short :: rest => do
    let c ← unescape short
    (readCharacters rest).map fun (text, rest) => (c :: text, rest)
  | c :: rest => (readCharacters rest).map fun (text, rest) => (c :: text, rest)
  | [] => none

def readLiteral : Text → Text → Option Text
  | [], text => some text
  | c :: literal, d :: text => if c = d then readLiteral literal text else none
  | _ :: _, [] => none

def readString (text : Text) : Option (String × Text) := do
  let text ← readLiteral ['"'] text
  (readCharacters text).map fun (text, rest) => (String.ofList text, rest)

theorem readLiteral_append (literal rest : Text) :
    readLiteral literal (literal ++ rest) = some rest := by
  induction literal with
  | nil => cases rest <;> rfl
  | cons c literal ih => simpa [readLiteral] using ih

/-- A control character is one of the first 32; any other is written as it is
or behind a backslash. -/
theorem escape_cases :
    (∃ code < 32, c = Char.ofNat code) ∨
    c = '"' ∨ c = '\\' ∨ c ≠ '"' ∧ c ≠ '\\' ∧ c ≠ '\n' ∧ escape c = [c] := by
  by_cases hcontrol : c.toNat < 32
  · exact .inl ⟨c.toNat, hcontrol, (Char.ofNat_toNat c).symm⟩
  have hplain : c ≠ '"' → c ≠ '\\' → shortEscape c = none := by
    intro hquote hslash
    unfold shortEscape
    split <;> simp_all
  have hfeed : c ≠ '\n' := by
    rintro rfl
    exact hcontrol (by decide)
  grind [escape]

theorem readCharacters_escape (rest : Text) :
    readCharacters (escape c ++ rest) =
      (readCharacters rest).map fun (text, rest) => (c :: text, rest) := by
  obtain ⟨code, hcode, rfl⟩ | rfl | rfl | ⟨hquote, hslash, _, hc⟩ := escape_cases c
  · interval_cases code <;> rfl
  · rfl
  · rfl
  rw [hc, singleton_append, readCharacters.eq_def]
  split <;> simp_all

theorem readString_jsonString (rest : Text) :
    readString (jsonString text ++ rest) = some (text, rest) := by
  have hread : ∀ characters,
      readCharacters (characters.flatMap escape ++ '"' :: rest) = some (characters, rest) := by
    intro characters
    induction characters with
    | nil => rfl
    | cons c characters ih =>
      rw [flatMap_cons, append_assoc, readCharacters_escape, ih]
      rfl
  simp [readString, jsonString, readLiteral, hread]

theorem line_jsonString : '\n' ∉ jsonString text := by
  have hescape : ∀ c, '\n' ∉ escape c := by
    intro c
    obtain ⟨code, hcode, rfl⟩ | rfl | rfl | ⟨_, _, hfeed, hc⟩ := escape_cases c
    · interval_cases code <;> decide
    · decide
    · decide
    · simpa [hc] using Ne.symm hfeed
  simp [jsonString, hescape]

structure BulkAction where
  id : String
  ndjson : Text
  bytes : ℕ

def indexKey : Text := "\x7b\"index\":\x7b\"_index\":".toList

def idKey : Text := ",\"_id\":".toList

def routingKey : Text := ",\"routing\":".toList

def closing : Text := "\x7d\x7d".toList

/-- The members are written in the order of their insertion. -/
def actionLine (index id : String) (routing : Option String) : Text :=
  indexKey ++ (jsonString index ++ (idKey ++ (jsonString id ++ (match routing with
      | some routing => routingKey ++ (jsonString routing ++ closing)
      | none => closing))))

def buildAction (index id : String) (routing : Option String) (source : Text) : BulkAction :=
  let ndjson := actionLine index id routing ++ '\n' :: (source ++ ['\n'])
  { id, ndjson, bytes := (String.ofList ndjson).utf8ByteSize }

def payload (actions : List BulkAction) : Text := actions.flatMap BulkAction.ndjson

inductive RoutedIdentity where
  | fail
  | encodeIdentity

def ensure (condition : Bool) (text : String) : Except String Unit :=
  if condition then .ok () else .error text

def required : Option String → Except String String
  | some value => .ok value
  | none => .error text

def validateDocumentId (id : String) : Except String Unit := do
  ensure (!id.isEmpty) "OpenSearch document _id must not be empty"
  let length := id.utf8ByteSize
  ensure (length ≤ 512) s!"OpenSearch document _id is {length} bytes, exceeding the 512-byte limit"

def appendBytes (output value : List UInt8) : List UInt8 :=
  output ++ (range 8).reverse.map (fun place => UInt8.ofNat (value.length / 256 ^ place)) ++ value

def bytesOf : List UInt8 := text.toUTF8.data.toList

def routedDocumentId (library : Library V) (id routingKey : String) : Except String String := do
  let encoded := appendBytes (appendBytes (appendBytes []
    (bytesOf "transferia:opensearch:routed-identity:v1")) (bytesOf id))
    (bytesOf routingKey)
  let destinationId := library.urlSafeNoPad encoded
  validateDocumentId destinationId
  .ok destinationId

/-- The id at the destination of a document with this id and routing. -/
def destinationId (library : Library V) (mode : RoutedIdentity)
    (kind id : String) (route : Option String) : Except String String :=
  match mode with
  | .fail => do
    ensure route.isNone
      s!"OpenSearch {kind} _id '{id}' uses custom routing; select routed_identity=encode_identity explicitly to preserve its composite identity"
    .ok id
  | .encodeIdentity => routedDocumentId library id (route.getD id)

/-- The nullable columns of an envelope row. -/
structure EnvelopeRow where
  (id routing source routingKey : Option String)

/-- A flat row as its Arrow arrays give it: the `_id` column or the encoded
primary key, the routing, and the JSON values of the columns. -/
structure FlatRow (V : Type) where
  sourceId : Except String String
  route : Except String (Option String)
  columns : List (String × Except String V)

inductive Row (V : Type) where
  | envelope (row : EnvelopeRow)
  | flat (row : FlatRow V)

/-- The arguments of `build_action`, and the value that the source is. -/
structure Prepared (V : Type) where
  id : String
  routing : Option String
  source : Text
  value : V

def asciiWhitespace : Bool := c ∈ [' ', '\t', '\n', '\x0c', '\r']

def prepareEnvelope (library : Library V) (mode : RoutedIdentity)
    (row : EnvelopeRow) : Except String (Prepared V) := do
  let id ← required "OpenSearch _id must not be null" row.id
  let source ← required "OpenSearch _source must not be null" row.source
  let routingKey ← required "OpenSearch _routing_key must not be null" row.routingKey
  validateDocumentId id
  ensure (row.routing.getD id = routingKey)
    s!"OpenSearch _routing_key for _id '{id}' does not match its effective routing key"
  let id' ← destinationId library mode "source document" id row.routing
  let value ← (library.fromStr source.toList).mapError fun error =>
    s!"OpenSearch _source for _id '{id}' is invalid JSON: {error}"
  ensure (source.toList.find? (!asciiWhitespace ·) = some '\x7b')
    s!"OpenSearch _source for _id '{id}' must be a JSON object"
  .ok { id := id', routing := row.routing, source := source.toList, value }

def flatMember (column : String × Except String V) : Except String (Option (String × V)) :=
  let name := column.1
  if name = "_id" ∨ name = "_routing" then .ok none
  else do
    let value ← column.2.mapError fun error => s!"cannot encode OpenSearch field '{name}': {error}"
    .ok (some (name, value))

def prepareFlat (library : Library V) (mode : RoutedIdentity) (row : FlatRow V) :
    Except String (Prepared V) := do
  let sourceId ← row.sourceId
  validateDocumentId sourceId
  let route ← row.route
  let id ← destinationId library mode "row" sourceId route
  let members ← row.columns.mapM flatMember
  let value := library.object members.reduceOption
  .ok { id, routing := route, source := library.toVec value, value }

def prepare (library : Library V) (mode : RoutedIdentity) : Row V → Except String (Prepared V)
  | .envelope row => prepareEnvelope library mode row
  | .flat row => prepareFlat library mode row

def Prepared.action (index : String) (prepared : Prepared V) : BulkAction :=
  buildAction index prepared.id prepared.routing prepared.source

def encodeBatch (library : Library V) (mode : RoutedIdentity)
    (index : String) (rows : List (Row V)) : Except String (List BulkAction) :=
  rows.mapM fun row => (prepare library mode row).map (Prepared.action index)

structure Operation (V : Type) where
  (index id : String)
  routing : Option String
  source : V

def Prepared.operation (index : String) (prepared : Prepared V) : Operation V :=
  ⟨index, prepared.id, prepared.routing, prepared.value⟩

def operations (library : Library V) (mode : RoutedIdentity)
    (index : String) (rows : List (Row V)) : Except String (List (Operation V)) :=
  rows.mapM fun row => (prepare library mode row).map (Prepared.operation index)

def readRouting (text : Text) : Option (Option String × Text) :=
  match readLiteral routingKey text with
  | some text => (readString text).map fun (routing, rest) => (some routing, rest)
  | none => some (none, text)

def readAction (line : Text) : Option (String × String × Option String) := do
  let text ← readLiteral indexKey line
  let (index, text) ← readString text
  let text ← readLiteral idKey text
  let (id, text) ← readString text
  let (routing, text) ← readRouting text
  if text = closing then some (index, id, routing) else none

/-- The lines in pairs; nothing stands behind the last line feed. -/
def readLines (library : Library V) : List Text → Option (List (Operation V))
  | [[]] => some []
  | action :: source :: rest => do
    let (index, id, routing) ← readAction action
    let value ← (library.fromStr source).toOption
    let later ← readLines library rest
    some (⟨index, id, routing, value⟩ :: later)
  | _ => none

def readBulk (library : Library V) (body : Text) : Option (List (Operation V)) :=
  readLines library (body.splitOn '\n')

variable {library : Library V} {mode : RoutedIdentity} {index : String}

theorem readAction_actionLine (index id : String) (routing : Option String) :
    readAction (actionLine index id routing) = some (index, id, routing) := by
  have hnone : readLiteral routingKey closing = none := by decide
  cases routing <;>
    simp [readAction, actionLine, readLiteral_append, readString_jsonString, readRouting, hnone]

theorem line_actionLine (index id : String) (routing : Option String) :
    '\n' ∉ actionLine index id routing := by
  have hkeys : '\n' ∉ idKey ∧ '\n' ∉ indexKey ∧ '\n' ∉ routingKey ∧ '\n' ∉ closing := by decide
  cases routing <;> simp [actionLine, line_jsonString, hkeys]

theorem length_splitOn (text : Text) : (text.splitOn '\n').length = text.count '\n' + 1 := by
  induction text with
  | nil => rfl
  | cons c text ih =>
    simp only [splitOn, splitOnP_cons_eq_if_modifyHead] at ih ⊢
    by_cases hc : c = '\n' <;> simp [hc, ih]

theorem readLines_length {lines : List Text} {found : List (Operation V)}
    (h : readLines library lines = some found) : lines.length = 2 * found.length + 1 := by
  fun_induction readLines library lines generalizing found with
  | case1 =>
    cases h
    rfl
  | case2 action source rest ih =>
    simp only [Option.bind_eq_bind, Option.bind_eq_some_iff] at h
    obtain ⟨_, _, _, _, later, hlater, h⟩ := h
    cases h
    simp [ih hlater]
    omega
  | case3 => cases h

theorem count_payload (entries : List (Prepared V)) :
    (payload (entries.map (Prepared.action index))).count '\n' =
      2 * entries.length + (entries.map (·.source.count '\n')).sum := by
  induction entries with
  | nil => rfl
  | cons entry entries ih =>
    have hline := count_eq_zero.mpr (line_actionLine index entry.id entry.routing)
    simp [payload, Prepared.action, buildAction] at ih ⊢
    omega

theorem readBulk_payload (entries : List (Prepared V))
    (hread : ∀ entry ∈ entries, library.fromStr entry.source = .ok entry.value)
    (hline : ∀ entry ∈ entries, '\n' ∉ entry.source) :
    readBulk library (payload (entries.map (Prepared.action index))) =
      some (entries.map (Prepared.operation index)) := by
  induction entries with
  | nil => rfl
  | cons entry entries ih =>
    have hsplit : ∀ line rest, '\n' ∉ line →
        (line ++ '\n' :: rest).splitOn '\n' = line :: rest.splitOn '\n' := by
      intro line rest h
      exact splitOnP_append_cons_of_forall_mem (by grind) _ (by simp) rest
    rw [forall_mem_cons] at hread hline
    have hrest := ih hread.2 hline.2
    rw [readBulk, payload] at hrest ⊢
    simp only
      [map_cons, flatMap_cons, Prepared.action, buildAction, append_assoc, cons_append] at hrest ⊢
    rw [hsplit _ _ (line_actionLine _ _ _), hsplit _ _ hline.1]
    simp [readLines, readAction_actionLine, hread.1, Except.toOption, hrest, Prepared.operation]

def Row.OneLine : Row V → Prop
  | .envelope row => ∀ source ∈ row.source, '\n' ∉ source.toList
  | .flat _ => True

theorem prepare_ok (hlaws : library.Lawful) {row : Row V} {entry : Prepared V}
    (h : prepare library mode row = .ok entry) :
    library.fromStr entry.source = .ok entry.value ∧ ('\n' ∉ entry.source ↔ row.OneLine) := by
  cases row with
  | envelope row =>
    obtain ⟨id, -, h⟩ := of_bind h
    obtain ⟨source, hsource, h⟩ := of_bind h
    obtain ⟨key, -, h⟩ := of_bind h
    iterate 2 obtain ⟨-, -, h⟩ := of_bind h
    obtain ⟨destination, -, h⟩ := of_bind h
    obtain ⟨value, hval, h⟩ := of_bind h
    obtain ⟨-, -, h⟩ := of_bind h
    cases h
    have hsome : row.source = some source := by
      unfold required at hsource
      grind
    exact ⟨mapError_eq_ok.mp hval, by simp [Row.OneLine, hsome]⟩
  | flat row =>
    obtain ⟨sourceId, -, h⟩ := of_bind h
    obtain ⟨-, -, h⟩ := of_bind h
    obtain ⟨route, -, h⟩ := of_bind h
    obtain ⟨destination, -, h⟩ := of_bind h
    obtain ⟨members, -, h⟩ := of_bind h
    cases h
    exact ⟨hlaws.fromStr_toVec _, by simp [Row.OneLine, hlaws.oneLine]⟩

theorem encodeBatch_ok (hlaws : library.Lawful) {rows : List (Row V)} {actions : List BulkAction}
    (h : encodeBatch library mode index rows = .ok actions) :
    ∃ entries : List (Prepared V),
      entries.map (Prepared.action index) = actions ∧
      operations library mode index rows = .ok (entries.map (Prepared.operation index)) ∧
      (∀ entry ∈ entries, library.fromStr entry.source = .ok entry.value) ∧
      ((∀ entry ∈ entries, '\n' ∉ entry.source) ↔ ∀ row ∈ rows, row.OneLine) := by
  induction rows generalizing actions with
  | nil =>
    cases h
    exact ⟨[], rfl, rfl, by simp, by simp⟩
  | cons row rows ih =>
    rw [encodeBatch, mapM_cons] at h
    obtain ⟨action, haction, h⟩ := of_bind h
    obtain ⟨rest, hrest, h⟩ := of_bind h
    cases h
    obtain ⟨entry, hentry, rfl⟩ := map_eq_ok.mp haction
    obtain ⟨entries, rfl, hasked, hread, hline⟩ := ih hrest
    obtain ⟨hval, hone⟩ := prepare_ok hlaws hentry
    refine ⟨entry :: entries, rfl, ?_, ?_, ?_⟩
    · rw [operations] at hasked ⊢
      rw [mapM_cons, hentry, hasked]
      rfl
    · exact forall_mem_cons.mpr ⟨hval, hread⟩
    · rw [forall_mem_cons, forall_mem_cons, hone, hline]

/-- The server reads from a body the operations that the rows ask for exactly
when no envelope source has a line feed. -/
theorem body_means_its_operations (hlaws : library.Lawful) {rows : List (Row V)}
    {actions : List BulkAction} (h : encodeBatch library mode index rows = .ok actions) :
    ∃ asked, operations library mode index rows = .ok asked ∧
      (readBulk library (payload actions) = some asked ↔ ∀ row ∈ rows, row.OneLine) := by
  obtain ⟨entries, rfl, hasked, hread, hline⟩ := encodeBatch_ok hlaws h
  refine ⟨_, hasked, ?_⟩
  rw [← hline]
  constructor
  · intro hbody
    have hlen := readLines_length hbody
    rw [length_splitOn, count_payload, length_map] at hlen
    have hzero : (entries.map (·.source.count '\n')).sum = 0 := by omega
    simpa [sum_eq_zero_iff, count_eq_zero] using hzero
  exact readBulk_payload entries hread

section Example

def oneLine (text : Text) : { text : Text // '\n' ∉ text } :=
  ⟨text.filter (· ≠ '\n'), by simp⟩

/-- Values are compact texts, in which a line feed was only formatting. -/
def compactLibrary : Library { text : Text // '\n' ∉ text } where
  fromStr text := .ok (oneLine text)
  toVec := Subtype.val
  object members := oneLine
    (members.flatMap fun member => jsonString member.1 ++ ':' :: member.2.val)
  urlSafeNoPad bytes := String.ofList (bytes.map fun byte => hexDigit (byte.toNat % 16))

theorem compactLibrary_lawful : compactLibrary.Lawful where
  fromStr_toVec value := congrArg Except.ok (Subtype.ext (filter_eq_self.mpr (by
    intro c hc
    simpa using ne_of_mem_of_not_mem hc value.2)))
  oneLine value := value.2

def documentRow (source : String) : Row { text : Text // '\n' ∉ text } :=
  .envelope { id := some "1", routing := none, source := some source, routingKey := some "1" }

def mixedRows : List (Row { text : Text // '\n' ∉ text }) :=
  [documentRow "\x7b\x7d",
    .envelope { id := some "2", routing := some "a\nb", source := some "\x7b \x7d"
                routingKey := some "a\nb" },
    .flat { sourceId := .ok "3", route := .ok (some "c")
            columns := [("_id", .ok (oneLine ['3'])), ("price", .ok (oneLine ['7']))] }]

theorem body_means_its_operations_of_mixedRows :
    ∃ actions asked,
      encodeBatch compactLibrary .encodeIdentity "orders" mixedRows = .ok actions ∧
      operations compactLibrary .encodeIdentity "orders" mixedRows = .ok asked ∧
      asked.map Operation.routing = [none, some "a\nb", some "c"] ∧
      readBulk compactLibrary (payload actions) = some asked := by
  obtain ⟨asked, hasked, hread⟩ := body_means_its_operations compactLibrary_lawful
    (rfl : encodeBatch compactLibrary .encodeIdentity "orders" mixedRows = .ok _)
  refine ⟨_, asked, rfl, hasked, ?_, hread.mpr (by simp [mixedRows, documentRow, Row.OneLine])⟩
  cases hasked
  rfl

/-- A source with a line feed is accepted and breaks the body. -/
theorem formatted_source_breaks_body :
    ∃ actions asked,
      encodeBatch compactLibrary .fail "orders" [documentRow "\x7b\n\x7d"] = .ok actions ∧
      operations compactLibrary .fail "orders" [documentRow "\x7b\n\x7d"] = .ok asked ∧
      readBulk compactLibrary (payload actions) ≠ some asked := by
  refine ⟨_, _, rfl, rfl, ?_⟩
  intro hread
  have hlen := readLines_length hread
  revert hlen
  decide

end Example
end Transferia.OpenSearch
