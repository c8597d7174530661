import Transferia.MySql.Position

/-!
# The binlog decoder

`decode` turns one event of the binlog into what the source has to do with it.
It tracks the position, the active transaction with its limits, and the table
maps.  Reading the wire format, the metadata of a table map and the text of a
statement is left to `BinlogLibrary`.
-/

namespace Transferia.MySql

structure TableName where
  database : Bytes
  table : Bytes
  deriving DecidableEq

inductive EventType
  | gtid | anonymousGtid | query | tableMap | rows | xid | rotate
  | formatDescription | previousGtids | heartbeat | rowsQuery | ignorable
  | stop | transactionPayload | unsupported
  deriving DecidableEq

structure EventHeader where
  eventBytes : ℕ
  logPos : ℕ
  timestamp : ℕ
  serverId : ℕ

structure TableMap where
  tableId : ℕ
  name : TableName
  columns : ℕ
  metadata : Bytes

inductive MySqlRowOperation
  | write | update | delete

structure RowsEvent (Raw : Type) where
  tableId : ℕ
  columns : ℕ
  operation : MySqlRowOperation
  partialUpdate : Bool
  beforeColumns : List Bool
  afterColumns : List Bool
  rows : List (Option (List Raw) × Option (List Raw))

inductive EventData (Raw : Type)
  | gtid (gtid : Gtid)
  | anonymousGtid
  | query (schema statement : Bytes)
  | tableMap (table : TableMap)
  | rows (rows : RowsEvent Raw)
  | xid (xid : ℕ)
  | rotate (name : Bytes) (position : ℕ)
  | formatDescription
  | previousGtids
  | heartbeat
  | rowsQuery
  | ignorable
  | stop
  | transactionPayload
  | unsupported

def EventData.eventType {Raw : Type} : EventData Raw → EventType
  | .gtid _ => .gtid
  | .anonymousGtid => .anonymousGtid
  | .query _ _ => .query
  | .tableMap _ => .tableMap
  | .rows _ => .rows
  | .xid _ => .xid
  | .rotate _ _ => .rotate
  | .formatDescription => .formatDescription
  | .previousGtids => .previousGtids
  | .heartbeat => .heartbeat
  | .rowsQuery => .rowsQuery
  | .ignorable => .ignorable
  | .stop => .stop
  | .transactionPayload => .transactionPayload
  | .unsupported => .unsupported

structure BinlogEvent (Raw : Type) where
  header : EventHeader
  data : EventData Raw

inductive MySqlTransactionIdentity
  | gtid (gtid : Gtid)
  | anonymous (beginPosition : MySqlBinlogPosition)
  | filePosition (beginPosition : MySqlBinlogPosition)
  deriving DecidableEq

structure MySqlTransactionMarker where
  identity : MySqlTransactionIdentity
  beginPosition : MySqlBinlogPosition
  deriving DecidableEq

structure MySqlRowChange (Raw : Type) where
  before : Option (List Raw)
  after : Option (List Raw)
  rowInEvent : ℕ

structure DecodedRowsEvent (Raw : Type) where
  transaction : MySqlTransactionMarker
  operation : MySqlRowOperation
  table : TableMap
  rows : List (MySqlRowChange Raw)
  sourceTimestampSeconds : ℕ
  sourceServerId : ℕ
  eventPosition : MySqlBinlogPosition

structure CommittedTransaction where
  transaction : MySqlTransactionMarker
  xid : Option ℕ
  nextPosition : MySqlBinlogPosition
  eventCount : ℕ
  encodedBytes : ℕ

structure RolledBackTransaction where
  transaction : MySqlTransactionMarker
  nextPosition : MySqlBinlogPosition

inductive DecodedBinlogEvent (Raw : Type)
  | transactionStarted (marker : MySqlTransactionMarker)
  | tableMapped (table : TableMap)
  | rows (rows : DecodedRowsEvent Raw)
  | transactionCommitted (committed : CommittedTransaction)
  | tableCreated (table : TableName) (committed : CommittedTransaction)
  | transactionRolledBack (rolledBack : RolledBackTransaction)
  | binlogRotated (previousPosition nextPosition : MySqlBinlogPosition)
  | ignored (eventType : EventType) (nextPosition : MySqlBinlogPosition) (insideTransaction : Bool)

inductive BinlogDecodeError
  | invalidPosition (error : PositionError)
  | unsupportedEvent (eventType : EventType)
  | unsafeRename (text : String)
  | unsupportedStatement (schema : Bytes)
  | eventTooLarge (eventBytes configuredMaxTransactionBytes : ℕ)
  | transactionAlreadyActive (eventType : EventType)
  | transactionNotActive (eventType : EventType)
  | bootstrapEventInsideTransaction (eventType : EventType)
  | duplicateBegin
  | tooManyTransactionEvents (eventCount configuredMaxEvents : ℕ)
  | transactionTooLarge (encodedBytes configuredMaxTransactionBytes : ℕ)
  | rowIndexDoesNotFitI32 (rowIndex : ℕ)
  | transactionCompressionObserved
  | partialJsonUpdateObserved
  | missingTableMap (tableId : ℕ)
  | columnCountMismatch (tableId tableMapColumns rowsEventColumns : ℕ)
  | partialRowImage (tableId : ℕ) (image : String) (columns presentColumns : ℕ)
  | tooManyTransactionRows (rowCount configuredMaxEvents : ℕ)
  | unexpectedRowShape (operation : MySqlRowOperation)
  | decodedColumnCountMismatch (expected decoded : ℕ)
  | tableMetadata (tableId : ℕ) (reason : String)
  | rotateInsideTransaction
  | unexpectedFakeRotate (expectedFilename receivedFilename : Bytes)
  | positionMovedBackwards (filename : Bytes) (previous received : ℕ)

structure MySqlReplicationConfig where
  serverId : ℕ
  maxEvents : ℕ
  maxTransactionBytes : ℕ

/-- What the decoder asks of libraries: whether the metadata of a table map is
complete, which table a statement creates, and whether a statement renames a
table into the selection. -/
structure BinlogLibrary where
  tableIdentity : TableMap → Except BinlogDecodeError Unit
  createdTable : (statement schema : Bytes) → Option TableName
  renameError : (statement schema : Bytes) → Option String

structure ActiveTransaction where
  marker : MySqlTransactionMarker
  eventCount : ℕ
  decodedRows : ℕ
  encodedBytes : ℕ
  sawBeginQuery : Bool

structure MySqlBinlogDecoder where
  currentPosition : MySqlBinlogPosition
  activeTransaction : Option ActiveTransaction
  tableMaps : List (ℕ × TableMap)
  allowGtidAutoPositionRotate : Bool
  selectedTables : Option (List TableName)

/-- `u8::is_ascii_whitespace`: space, tab, line feed, form feed and carriage
return. -/
def isAsciiWhitespace (byte : UInt8) : Bool := byte ∈ [0x20, 0x09, 0x0A, 0x0C, 0x0D]

def trimAscii (value : Bytes) : Bytes := ((value.dropWhile isAsciiWhitespace).reverse.dropWhile
    isAsciiWhitespace).reverse

def toAsciiLowercase (byte : UInt8) : UInt8 :=
  if 0x41 ≤ byte ∧ byte ≤ 0x5A then byte + 0x20 else byte

def eqIgnoreAsciiCase (left right : Bytes) : Bool :=
  left.map toAsciiLowercase = right.map toAsciiLowercase

def beginStatement : Bytes := [0x42, 0x45, 0x47, 0x49, 0x4E]

def commitStatement : Bytes := [0x43, 0x4F, 0x4D, 0x4D, 0x49, 0x54]

def rollbackStatement : Bytes := [0x52, 0x4F, 0x4C, 0x4C, 0x42, 0x41, 0x43, 0x4B]

namespace MySqlBinlogDecoder
variable {Raw : Type} (config : MySqlReplicationConfig) (self : MySqlBinlogDecoder)

def requireTransaction (eventType : EventType) : Except BinlogDecodeError ActiveTransaction :=
  match self.activeTransaction with
  | none => .error (.transactionNotActive eventType)
  | some transaction => .ok transaction

def requireOutsideTransaction (eventType : EventType) : Except BinlogDecodeError Unit :=
  match self.activeTransaction with
  | none => .ok ()
  | some _ => .error (.bootstrapEventInsideTransaction eventType)

def tableIsSelected (table : TableMap) : Bool :=
  match self.selectedTables with
  | none => true
  | some selected => table.name ∈ selected

def checkTransactionLimits (transaction : ActiveTransaction)
    (eventBytes : ℕ) : Except BinlogDecodeError Unit :=
  if config.maxEvents < transaction.eventCount + 1 then
    .error (.tooManyTransactionEvents (transaction.eventCount + 1) config.maxEvents)
  else if config.maxTransactionBytes < transaction.encodedBytes + eventBytes then
    .error (.transactionTooLarge (transaction.encodedBytes + eventBytes) config.maxTransactionBytes)
  else .ok ()

def applyTransactionUsage (transaction : ActiveTransaction) (eventBytes : ℕ) : ActiveTransaction :=
  { transaction with
    eventCount := transaction.eventCount + 1
    encodedBytes := transaction.encodedBytes + eventBytes }

def nextPosition (eventType : EventType)
    (logPos : ℕ) : Except BinlogDecodeError MySqlBinlogPosition :=
  if logPos = 0 then .ok self.currentPosition
  else if logPos < self.currentPosition.position then
    if eventType = .formatDescription ∨ eventType = .previousGtids then
      .ok self.currentPosition
    else .error (.positionMovedBackwards self.currentPosition.filename
      self.currentPosition.position logPos)
  else
    match MySqlBinlogPosition.new self.currentPosition.filename logPos with
    | .ok position => .ok position
    | .error error => .error (.invalidPosition error)

section
variable (header : EventHeader)

def startTransaction (eventType : EventType)
    (identity : MySqlBinlogPosition → MySqlTransactionIdentity) (sawBeginQuery : Bool) : Except
    BinlogDecodeError (DecodedBinlogEvent Raw × MySqlBinlogDecoder) := do
  let next ← self.nextPosition eventType header.logPos
  let marker : MySqlTransactionMarker :=
    { identity := identity self.currentPosition, beginPosition := self.currentPosition }
  return (.transactionStarted marker, { self with
      activeTransaction := some
        { marker, eventCount := 1, decodedRows := 0
          encodedBytes := header.eventBytes, sawBeginQuery }
      currentPosition := next })

def decodeBegin : Except BinlogDecodeError (DecodedBinlogEvent Raw × MySqlBinlogDecoder) :=
  match self.activeTransaction with
  | none => self.startTransaction header .query .filePosition true
  | some transaction => do
    checkTransactionLimits config transaction header.eventBytes
    if transaction.sawBeginQuery then throw .duplicateBegin
    else
      let next ← self.nextPosition .query header.logPos
      let transaction := { transaction with sawBeginQuery := true }
      return (.ignored .query next true, { self with
          activeTransaction := some (applyTransactionUsage transaction header.eventBytes)
          currentPosition := next })

def decodeCommit (eventType : EventType) (xid : Option ℕ) : Except BinlogDecodeError
    (CommittedTransaction × MySqlBinlogDecoder) := do
  let transaction ← self.requireTransaction eventType
  checkTransactionLimits config transaction header.eventBytes
  let next ← self.nextPosition eventType header.logPos
  let transaction := applyTransactionUsage transaction header.eventBytes
  return ({ transaction := transaction.marker, xid, nextPosition := next
            eventCount := transaction.eventCount, encodedBytes := transaction.encodedBytes },
    { self with activeTransaction := none, tableMaps := [], currentPosition := next })

def decodeRollback : Except BinlogDecodeError (DecodedBinlogEvent Raw × MySqlBinlogDecoder) := do
  let transaction ← self.requireTransaction .query
  checkTransactionLimits config transaction header.eventBytes
  let next ← self.nextPosition .query header.logPos
  return (.transactionRolledBack { transaction := transaction.marker, nextPosition := next },
    { self with activeTransaction := none, tableMaps := [], currentPosition := next })

def decodeIgnored (eventType : EventType) : Except BinlogDecodeError
    (DecodedBinlogEvent Raw × MySqlBinlogDecoder) :=
  match self.activeTransaction with
  | none => do
    let next ← self.nextPosition eventType header.logPos
    return (.ignored eventType next false, { self with currentPosition := next })
  | some transaction => do
    checkTransactionLimits config transaction header.eventBytes
    let next ← self.nextPosition eventType header.logPos
    return (.ignored eventType next true, { self with
        activeTransaction := some (applyTransactionUsage transaction header.eventBytes)
        currentPosition := next })

end
variable (library : BinlogLibrary)

def decodeTableMap (self : MySqlBinlogDecoder) (header : EventHeader) (table : TableMap) :
    Except BinlogDecodeError (DecodedBinlogEvent Raw × MySqlBinlogDecoder) := do
  let transaction ← self.requireTransaction .tableMap
  checkTransactionLimits config transaction header.eventBytes
  let next ← self.nextPosition .tableMap header.logPos
  let decoder : MySqlBinlogDecoder := { self with
      tableMaps := (table.tableId, table) :: self.tableMaps
      activeTransaction := some (applyTransactionUsage transaction header.eventBytes)
      currentPosition := next }
  if self.tableIsSelected table then
    library.tableIdentity table
    return (.tableMapped table, decoder)
  else return (.ignored .tableMap next true, decoder)

def requireFullImage (tableId columns : ℕ) (bitmap : List Bool)
    (image : String) : Except BinlogDecodeError Unit :=
  if bitmap = [] then .ok ()
  else if bitmap.length ≠ columns ∨ bitmap.any fun present => !present then
    .error (.partialRowImage tableId image columns (bitmap.countP fun present => present))
  else .ok ()

def validateRowShape (operation : MySqlRowOperation)
    (before after : Option (List Raw)) (columns : ℕ) :
    Except BinlogDecodeError Unit := do
  let valid := match operation with
    | .write => before.isNone && after.isSome
    | .update => before.isSome && after.isSome
    | .delete => before.isSome && after.isNone
  if !valid then throw (.unexpectedRowShape operation)
  else
    match (before.toList ++ after.toList).find? fun row =>
      row.length ≠ columns with
    | some row => throw (.decodedColumnCountMismatch columns row.length)
    | none => return ()

def decodeRowChanges (operation : MySqlRowOperation) (columns : ℕ) (previouslyDecodedRows : ℕ) :
    (rowIndex : ℕ) → List (Option (List Raw) × Option (List Raw)) →
      Except BinlogDecodeError (List (MySqlRowChange Raw))
  | _, [] => .ok []
  | rowIndex, (before, after) :: rest => do
    validateRowShape operation before after columns
    if config.maxEvents < previouslyDecodedRows + rowIndex + 1 then
      throw (.tooManyTransactionRows (previouslyDecodedRows + rowIndex + 1) config.maxEvents)
    else if 2 ^ 31 ≤ rowIndex then throw (.rowIndexDoesNotFitI32 rowIndex)
    else
      let changes ← decodeRowChanges operation columns previouslyDecodedRows (rowIndex + 1) rest
      return { before, after, rowInEvent := rowIndex } :: changes

def decodeRows (self : MySqlBinlogDecoder) (header : EventHeader) (rows : RowsEvent Raw) :
    Except BinlogDecodeError (DecodedBinlogEvent Raw × MySqlBinlogDecoder) := do
  let transaction ← self.requireTransaction .rows
  checkTransactionLimits config transaction header.eventBytes
  if rows.partialUpdate then throw .partialJsonUpdateObserved
  else
    match self.tableMaps.lookup rows.tableId with
    | none => throw (.missingTableMap rows.tableId)
    | some table =>
      if rows.columns ≠ table.columns then
        throw (.columnCountMismatch rows.tableId table.columns rows.columns)
      else if !self.tableIsSelected table then
        let next ← self.nextPosition .rows header.logPos
        return (.ignored .rows next true, { self with
            activeTransaction := some (applyTransactionUsage transaction header.eventBytes)
            currentPosition := next })
      else
        requireFullImage rows.tableId rows.columns rows.beforeColumns "before"
        requireFullImage rows.tableId rows.columns rows.afterColumns "after"
        let changes ← decodeRowChanges config rows.operation rows.columns
          transaction.decodedRows 0 rows.rows
        let next ← self.nextPosition .rows header.logPos
        library.tableIdentity table
        let used := applyTransactionUsage transaction header.eventBytes
        return (.rows
            { transaction := transaction.marker, operation := rows.operation
              table, rows := changes
              sourceTimestampSeconds := header.timestamp, sourceServerId := header.serverId
              eventPosition := self.currentPosition },
          { self with
            activeTransaction := some
              { used with decodedRows := transaction.decodedRows + changes.length }
            currentPosition := next })

/-- Only the header tells a rotation that the server made up for the protocol
from one that the log contains. -/
def decodeRotate (header : EventHeader) (name : Bytes) (position : ℕ) :
    Except BinlogDecodeError (DecodedBinlogEvent Raw × MySqlBinlogDecoder) :=
  let rotated (allow : Bool) :
      Except BinlogDecodeError (DecodedBinlogEvent Raw × MySqlBinlogDecoder) :=
    match MySqlBinlogPosition.new name position with
    | .error error => .error (.invalidPosition error)
    | .ok next =>
      .ok (.binlogRotated self.currentPosition next, { self with
          currentPosition := next, tableMaps := [], allowGtidAutoPositionRotate := allow })
  if self.activeTransaction.isSome then .error .rotateInsideTransaction
  else if header.logPos ≠ 0 then rotated self.allowGtidAutoPositionRotate
  else if self.allowGtidAutoPositionRotate then rotated false
  else if name ≠ self.currentPosition.filename then
    .error (.unexpectedFakeRotate self.currentPosition.filename name)
  else .ok (.ignored .rotate self.currentPosition false, self)

def decodeQuery (self : MySqlBinlogDecoder) (header : EventHeader) (schema query : Bytes) :
    Except BinlogDecodeError (DecodedBinlogEvent Raw × MySqlBinlogDecoder) :=
  let statement := trimAscii query
  if eqIgnoreAsciiCase statement beginStatement then
    self.decodeBegin config header
  else if eqIgnoreAsciiCase statement commitStatement then do
    let (committed, decoder) ← self.decodeCommit config header .query none
    return (.transactionCommitted committed, decoder)
  else if eqIgnoreAsciiCase statement rollbackStatement then
    self.decodeRollback config header
  else
    match library.renameError statement schema with
    | some text => .error (.unsafeRename text)
    | none =>
      match library.createdTable statement schema with
      | none => .error (.unsupportedStatement schema)
      | some table => do
        let (committed, decoder) ← self.decodeCommit config header .query none
        return (.tableCreated table committed, decoder)

def decodeData (self : MySqlBinlogDecoder) (header : EventHeader) : EventData Raw →
      Except BinlogDecodeError (DecodedBinlogEvent Raw × MySqlBinlogDecoder)
  | .gtid gtid =>
    if self.activeTransaction.isSome then
      .error (.transactionAlreadyActive .gtid)
    else self.startTransaction header .gtid (fun _ => .gtid gtid) false
  | .anonymousGtid =>
    if self.activeTransaction.isSome then
      .error (.transactionAlreadyActive .anonymousGtid)
    else self.startTransaction header .anonymousGtid .anonymous false
  | .query schema query => self.decodeQuery config library header schema query
  | .tableMap table => self.decodeTableMap config library header table
  | .rows rows => self.decodeRows config library header rows
  | .xid xid => do
    let (committed, decoder) ← self.decodeCommit config header .xid (some xid)
    return (.transactionCommitted committed, decoder)
  | .rotate name position => self.decodeRotate header name position
  | .formatDescription => do
    self.requireOutsideTransaction .formatDescription
    MySqlBinlogDecoder.decodeIgnored config { self with tableMaps := [] } header .formatDescription
  | .previousGtids => do
    self.requireOutsideTransaction .previousGtids
    self.decodeIgnored config header .previousGtids
  | .heartbeat => self.decodeIgnored config header .heartbeat
  | .rowsQuery => self.decodeIgnored config header .rowsQuery
  | .ignorable => self.decodeIgnored config header .ignorable
  | .stop =>
    if self.activeTransaction.isSome then .error (.unsupportedEvent .stop)
    else self.decodeIgnored config header .stop
  | .transactionPayload => .error (.unsupportedEvent .transactionPayload)
  | .unsupported => .error (.unsupportedEvent .unsupported)

def decode (self : MySqlBinlogDecoder) (event : BinlogEvent Raw) :
    Except BinlogDecodeError (DecodedBinlogEvent Raw × MySqlBinlogDecoder) :=
  if event.data.eventType = .transactionPayload then
    .error .transactionCompressionObserved
  else if config.maxTransactionBytes < event.header.eventBytes then
    .error (.eventTooLarge event.header.eventBytes config.maxTransactionBytes)
  else self.decodeData config library event.header event.data

end MySqlBinlogDecoder
end Transferia.MySql
