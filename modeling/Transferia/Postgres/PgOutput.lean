import Transferia.Changelog.Collapse
import Transferia.Support.Checked

/-!
# Decoding pgoutput messages

The binary format of the `pgoutput` plugin, one message at a time.  The decoder
remembers the relations that were described to it and collects the row changes
between BEGIN and COMMIT; only a COMMIT returns events.
-/

namespace Transferia.Postgres
open Changelog (ChangeOperation)
open Support

inductive LogicalValue
  | null
  /-- PostgreSQL omitted an unchanged TOAST value from an update tuple. -/
  | unchangedToast
  | text (bytes : List UInt8)
  | binary (bytes : List UInt8)
  deriving DecidableEq

inductive OldValuesKind
  | key
  | full

structure ChangeEvent where
  (schema table : String)
  operation : ChangeOperation
  values : List LogicalValue
  oldValues : Option (List LogicalValue)
  oldValuesKind : Option OldValuesKind
  (lsn transactionId : ℕ)
  commitTimestampMicros : ℤ

structure RelationColumn where
  name : String
  typeOid : ℕ
  typeModifier : ℤ
  key : Bool

structure Relation where
  oid : ℕ
  (schema table : String)
  replicaIdentity : UInt8
  columns : List RelationColumn

structure PendingChange where
  relation : Relation
  operation : ChangeOperation
  values : List LogicalValue
  oldValues : Option (List LogicalValue)
  oldValuesKind : Option OldValuesKind

structure PgTransaction where
  xid : ℕ
  commitTimestampMicros : ℤ
  changes : List PendingChange

structure PgOutputEvent where
  event : ChangeEvent
  relation : Relation

structure PgOutputDecoder where
  relations : AList fun _ : ℕ => Relation
  transaction : Option PgTransaction

abbrev Read := StateT (List UInt8) (Except String)

def ensure (condition : Prop) [Decidable condition] (message : String) : Except String Unit :=
  if condition then .ok () else .error message

def okOr {α : Type} (value : Option α) (message : String) : Except String α :=
  value.elim (.error message) .ok

theorem okOr_eq_ok {α : Type} {value : Option α} {msg : String} {found : α} :
    okOr value msg = .ok found ↔ value = some found := by
  cases value <;> simp [okOr]

def truncatedMessage : String := "truncated pgoutput message"

def peekU8 : Read UInt8 := do
  okOr (← get).head? truncatedMessage

def takeU8 : Read UInt8 := do
  let byte ← peekU8
  modify (List.drop 1)
  return byte

def bigEndian (bytes : List UInt8) : ℕ :=
  bytes.foldl (fun value byte => value * 256 + byte.toNat) 0

def splitTo (count : ℕ) (message : String) : Read (List UInt8) := do
  let input ← get
  ensure (count ≤ input.length) message
  set (input.drop count)
  return input.take count

def takeU16 : Read ℕ := bigEndian <$> splitTo 2 truncatedMessage

def takeU32 : Read ℕ := bigEndian <$> splitTo 4 truncatedMessage

def takeU64 : Read ℕ := bigEndian <$> splitTo 8 truncatedMessage

def signed (bits value : ℕ) : ℤ :=
  if value < 2 ^ (bits - 1) then value else value - 2 ^ bits

def takeI32 : Read ℤ := signed 32 <$> takeU32

def takeI64 : Read ℤ := signed 64 <$> takeU64

def invalidUtf8 : String := "invalid utf-8 sequence"

def takeCString : Read String := do
  let stop ← okOr ((← get).idxOf? 0) "unterminated pgoutput string"
  let value ← splitTo stop truncatedMessage
  modify (List.drop 1)
  okOr (String.fromUTF8? ⟨value.toArray⟩) invalidUtf8

def takeSized : Read (List UInt8) := do
  let count ← takeU32
  splitTo count "truncated pgoutput value"

def hexDigit (value : ℕ) : Char :=
  if value < 10 then Char.ofNat (48 + value) else Char.ofNat (87 + value)

def hexByte (byte : UInt8) : String :=
  String.ofList [hexDigit (byte.toNat / 16), hexDigit (byte.toNat % 16)]

def expectTag (expected : UInt8) : Read Unit := do
  let actual ← takeU8
  ensure (actual = expected) ("expected pgoutput tag 0x" ++
    hexByte expected ++ ", received 0x" ++ hexByte actual)

def takeValue : Read LogicalValue := do
  let tag ← takeU8
  if tag = 0x6E then return .null
  else if tag = 0x75 then return .unchangedToast
  else if tag = 0x74 then return .text (← takeSized)
  else if tag = 0x62 then return .binary (← takeSized)
  else throw ("invalid pgoutput tuple value tag 0x" ++ hexByte tag)

def takeMany {α : Type} (take : Read α) : ℕ → Read (List α)
  | 0 => return []
  | count + 1 => do
    let item ← take
    let items ← takeMany take count
    return item :: items

def takeTuple (expectedColumns : ℕ) : Read (List LogicalValue) := do
  let count ← takeU16
  ensure (count = expectedColumns) ("pgoutput tuple has " ++ toString count ++
    " columns, relation declares " ++ toString expectedColumns)
  takeMany takeValue count

def takeColumn : Read RelationColumn := do
  let flags ← takeU8
  let name ← takeCString
  let typeOid ← takeU32
  let typeModifier ← takeI32
  return { name, typeOid, typeModifier, key := flags &&& 1 = 1 }

def postgresEpochUnixMicros : ℤ := 946684800000000

def unixMicros (commitTime : ℤ) : Except String ℤ := do
  let micros := commitTime + postgresEpochUnixMicros
  ensure (-2 ^ 63 ≤ micros ∧ micros < 2 ^ 63) "pgoutput commit timestamp overflow"
  return micros

def takeCommit : Read (ℕ × ℤ) := do
  let _flags ← takeU8
  let _commitLsn ← takeU64
  let endLsn ← takeU64
  let commitTime ← takeI64
  return (endLsn, commitTime)

namespace PgOutputDecoder

def new : PgOutputDecoder := { relations := ∅, transaction := none }

def begin (decoder : PgOutputDecoder) : Read PgOutputDecoder := do
  ensure decoder.transaction.isNone "nested pgoutput transaction"
  let _finalLsn ← takeU64
  let commitTime ← takeI64
  let xid ← takeU32
  let commitTimestampMicros ← unixMicros commitTime
  return { decoder with transaction := some { xid, commitTimestampMicros, changes := [] } }

/-- The event of a change in a transaction that commits at `endLsn`. -/
def commitEvent (transaction : PgTransaction) (endLsn : ℕ)
    (commitTimestampMicros : ℤ) (change : PendingChange) : PgOutputEvent :=
  { event :=
      { schema := change.relation.schema
        table := change.relation.table, operation := change.operation, values := change.values
        oldValues := change.oldValues, oldValuesKind := change.oldValuesKind, lsn := endLsn
        transactionId := transaction.xid
        commitTimestampMicros }
    relation := change.relation }

section
variable (decoder : PgOutputDecoder)

def commit : Read (List PgOutputEvent × PgOutputDecoder) := do
  let (endLsn, commitTime) ← takeCommit
  let transaction ← okOr decoder.transaction "pgoutput COMMIT without BEGIN"
  let commitTimestampMicros ← unixMicros commitTime
  ensure (transaction.commitTimestampMicros = commitTimestampMicros)
    "pgoutput BEGIN/COMMIT timestamp mismatch"
  let events := transaction.changes.map (commitEvent transaction endLsn commitTimestampMicros)
  return (events, { decoder with transaction := none })

def relation : Read PgOutputDecoder := do
  let oid ← takeU32
  let schema ← takeCString
  let table ← takeCString
  let replicaIdentity ← takeU8
  let columnCount ← takeU16
  let columns ← takeMany takeColumn columnCount
  return { decoder with
    relations := decoder.relations.insert oid { oid, schema, table, replicaIdentity, columns } }

def origin : Read PgOutputDecoder := do
  let _originCommitLsn ← takeU64
  let _originName ← takeCString
  return decoder

def typeMessage : Read PgOutputDecoder := do
  let _typeOid ← takeU32
  let _typeSchema ← takeCString
  let _name ← takeCString
  return decoder

def takeRelation : Read Relation := do
  let oid ← takeU32
  okOr (decoder.relations.lookup oid) ("pgoutput references unknown relation " ++ toString oid)

def pushChange (change : PendingChange) : Except String PgOutputDecoder := do
  let transaction ← okOr decoder.transaction "pgoutput row change outside a transaction"
  return { decoder with
    transaction := some { transaction with changes := transaction.changes ++ [change] } }

def insert : Read PgOutputDecoder := do
  let relation ← decoder.takeRelation
  expectTag 0x4E
  let values ← takeTuple relation.columns.length
  decoder.pushChange
    { relation, operation := .create, values, oldValues := none, oldValuesKind := none }

end

def takeOldTuple (columns : ℕ) : Read (Option (List LogicalValue) × Option OldValuesKind) := do
  let tag ← peekU8
  if tag = 0x4B ∨ tag = 0x4F then
    modify (List.drop 1)
    let values ← takeTuple columns
    return (some values, some (if tag = 0x4B then .key else .full))
  else if tag = 0x4E then return (none, none)
  else throw ("invalid pgoutput UPDATE tuple tag 0x" ++ hexByte tag)

def update (decoder : PgOutputDecoder) : Read PgOutputDecoder := do
  let relation ← decoder.takeRelation
  let (oldValues, oldValuesKind) ← takeOldTuple relation.columns.length
  expectTag 0x4E
  let values ← takeTuple relation.columns.length
  decoder.pushChange { relation, operation := .update, values, oldValues, oldValuesKind }

def takeDeleteKind : Read OldValuesKind := do
  let tag ← takeU8
  if tag = 0x4B then return .key
  else if tag = 0x4F then return .full
  else throw ("invalid pgoutput DELETE tuple tag 0x" ++ hexByte tag)

def delete (decoder : PgOutputDecoder) : Read PgOutputDecoder := do
  let relation ← decoder.takeRelation
  let kind ← takeDeleteKind
  let oldValues ← takeTuple relation.columns.length
  decoder.pushChange
    { relation
      operation := .delete, values := List.replicate oldValues.length .null
      oldValues := some oldValues, oldValuesKind := some kind }

/-- The messages of a transaction other than BEGIN and COMMIT. -/
def bodyMessage (decoder : PgOutputDecoder) (tag : UInt8) : Read PgOutputDecoder :=
  if tag = 0x52 then decoder.relation
  else if tag = 0x49 then decoder.insert
  else if tag = 0x55 then decoder.update
  else if tag = 0x44 then decoder.delete
  else if tag = 0x4F then decoder.origin
  else if tag = 0x59 then decoder.typeMessage
  else if tag = 0x54 then
    throw "pgoutput TRUNCATE is not representable as row changes"
  else throw ("unsupported pgoutput message tag 0x" ++ hexByte tag)

/-- Every message but COMMIT is read to its end and returns no event. -/
def readToEnd (message : Read PgOutputDecoder) (payload : List UInt8) :
    Except String (List PgOutputEvent × PgOutputDecoder) := do
  let (decoder, input) ← message.run payload
  ensure input.isEmpty "pgoutput message has trailing bytes"
  return ([], decoder)

def decode (decoder : PgOutputDecoder) (data : List UInt8) :
    Except String (List PgOutputEvent × PgOutputDecoder) :=
  match data with
  | [] => .error "empty pgoutput message"
  | tag :: payload =>
    if tag = 0x42 then readToEnd decoder.begin payload
    else if tag = 0x43 then Prod.fst <$> decoder.commit.run payload
    else readToEnd (decoder.bodyMessage tag) payload

variable {decoder next : PgOutputDecoder} {input rest : List UInt8}
  {events : List PgOutputEvent}

theorem readToEnd_ok {msg : Read PgOutputDecoder} (h : readToEnd msg input = .ok (events, next)) :
    events = [] ∧ ∃ rest, msg.run input = .ok (next, rest) := by
  obtain ⟨⟨decoder, rest⟩, hmsg, h⟩ := of_bind h
  obtain ⟨_, _, h⟩ := of_bind h
  cases h
  exact ⟨rfl, rest, hmsg⟩

theorem run_lift_eq_ok {α : Type} {x : Except String α} {value : α} :
    (liftM x : Read α).run input = .ok (value, rest) ↔ x = .ok value ∧ rest = input := by
  cases x with
  | error =>
    constructor
    · rintro ⟨⟩
    rintro ⟨⟨⟩, _⟩
  | ok found =>
    constructor
    · rintro ⟨⟩
      exact ⟨rfl, rfl⟩
    rintro ⟨⟨⟩, rfl⟩
    rfl

theorem begin_ok (h : decoder.begin.run input = .ok (next, rest)) :
    ∃ txn, next.transaction = some txn ∧ txn.changes = [] := by
  iterate 5 obtain ⟨_, _, _, h⟩ := run_bind_eq_ok.mp h
  cases h
  exact ⟨_, rfl, rfl⟩

theorem pushChange_ok {chg : PendingChange} (h : decoder.pushChange chg = .ok next) :
    ∃ txn, decoder.transaction = some txn ∧
    next.transaction = some { txn with changes := txn.changes ++ [chg] } := by
  obtain ⟨txn, htxn', h⟩ := of_bind h
  cases h
  exact ⟨txn, okOr_eq_ok.mp htxn', rfl⟩

/-- The messages that describe a row change: INSERT, UPDATE and DELETE. -/
def isRowChange (tag : UInt8) : Bool := tag = 0x49 || tag = 0x55 || tag = 0x44

/-- The next decoder has the open transaction of the last one, with the given
changes added. -/
def Extends (decoder next : PgOutputDecoder) (changes : List PendingChange) : Prop :=
  ∀ transaction, decoder.transaction = some transaction →
    next.transaction = some { transaction with changes := transaction.changes ++ changes }

theorem extends_of_pushChange {chg : PendingChange} (h : decoder.pushChange chg = .ok next) :
    decoder.Extends next [chg] := by
  intro transaction htxn'
  obtain ⟨opened, hopened, hnext⟩ := pushChange_ok h
  cases htxn'.symm.trans hopened
  exact hnext

theorem extends_of_same (h : next.transaction = decoder.transaction) : decoder.Extends next [] := by
  intro transaction htxn'
  rw [h, htxn', List.append_nil]

theorem insert_ok (h : decoder.insert.run input = .ok (next, rest)) :
    ∃ chg, decoder.Extends next [chg] := by
  iterate 3 obtain ⟨_, _, _, h⟩ := run_bind_eq_ok.mp h
  exact ⟨_, extends_of_pushChange (run_lift_eq_ok.mp h).1⟩

theorem update_ok (h : decoder.update.run input = .ok (next, rest)) :
    ∃ chg, decoder.Extends next [chg] := by
  obtain ⟨_, _, _, h⟩ := run_bind_eq_ok.mp h
  obtain ⟨⟨_, _⟩, _, _, h⟩ := run_bind_eq_ok.mp h
  iterate 2 obtain ⟨_, _, _, h⟩ := run_bind_eq_ok.mp h
  exact ⟨_, extends_of_pushChange (run_lift_eq_ok.mp h).1⟩

theorem delete_ok (h : decoder.delete.run input = .ok (next, rest)) :
    ∃ chg, decoder.Extends next [chg] := by
  iterate 3 obtain ⟨_, _, _, h⟩ := run_bind_eq_ok.mp h
  exact ⟨_, extends_of_pushChange (run_lift_eq_ok.mp h).1⟩

theorem relation_ok (h : decoder.relation.run input = .ok (next, rest)) :
    decoder.Extends next [] := by
  iterate 6 obtain ⟨_, _, _, h⟩ := run_bind_eq_ok.mp h
  cases h
  exact extends_of_same rfl

theorem origin_ok (h : decoder.origin.run input = .ok (next, rest)) : decoder.Extends next [] := by
  iterate 2 obtain ⟨_, _, _, h⟩ := run_bind_eq_ok.mp h
  cases h
  exact extends_of_same rfl

theorem typeMessage_ok (h : decoder.typeMessage.run input = .ok (next, rest)) :
    decoder.Extends next [] := by
  iterate 3 obtain ⟨_, _, _, h⟩ := run_bind_eq_ok.mp h
  cases h
  exact extends_of_same rfl

/-- A message inside a transaction adds one change when it describes one, and
none otherwise. -/
theorem bodyMessage_ok {tag : UInt8} (h : (decoder.bodyMessage tag).run input = .ok (next, rest)) :
    ∃ changes, decoder.Extends next changes ∧
      changes.length = if isRowChange tag then 1 else 0 := by
  unfold bodyMessage at h
  split at h
  · subst_vars
    exact ⟨[], relation_ok h, rfl⟩
  split at h
  · subst_vars
    obtain ⟨change, hc⟩ := insert_ok h
    exact ⟨[change], hc, rfl⟩
  split at h
  · subst_vars
    obtain ⟨change, hc⟩ := update_ok h
    exact ⟨[change], hc, rfl⟩
  split at h
  · subst_vars
    obtain ⟨change, hc⟩ := delete_ok h
    exact ⟨[change], hc, rfl⟩
  split at h
  · subst_vars
    exact ⟨[], origin_ok h, rfl⟩
  split at h
  · subst_vars
    exact ⟨[], typeMessage_ok h, rfl⟩
  split at h
  · cases h
  · cases h

theorem commit_ok (h : decoder.commit.run input = .ok ((events, next), rest)) :
    ∃ transaction endLsn commitTime left commitTimestampMicros,
      decoder.transaction = some transaction ∧
      takeCommit.run input = .ok ((endLsn, commitTime), left) ∧
      events = transaction.changes.map (commitEvent transaction endLsn commitTimestampMicros) ∧
      next = { decoder with transaction := none } := by
  obtain ⟨⟨endLsn, commitTime⟩, left, hcommit, h⟩ := run_bind_eq_ok.mp h
  obtain ⟨transaction, _, hopen, h⟩ := run_bind_eq_ok.mp h
  obtain ⟨commitTimestampMicros, _, _, h⟩ := run_bind_eq_ok.mp h
  obtain ⟨_, _, _, h⟩ := run_bind_eq_ok.mp h
  cases h
  refine ⟨transaction, endLsn, commitTime, left, commitTimestampMicros, ?_, hcommit, rfl, rfl⟩
  exact okOr_eq_ok.mp (run_lift_eq_ok.mp hopen).1

end PgOutputDecoder
end Transferia.Postgres
