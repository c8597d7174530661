import Transferia.MySql.Position

/-!
# Boundaries of a stream

The binlog position and the executed GTID set that a snapshot hands to the
stream after it, and the checks made on the texts that the server returns for
them.
-/

namespace Transferia.MySql

structure MySqlBinlogBoundary where
  filename : Bytes
  position : ℕ
  gtidExecuted : List Char
  sourceTimestampMicros : ℤ
  deriving DecidableEq

/-- An error is a text of its own, a text about a table, or a context in front
of a position error. -/
inductive MySqlFailure
  | message (text : String)
  | table (text : String) (name : Bytes)
  | position (context : String) (error : PositionError)
  deriving DecidableEq

def ensure (condition : Bool) (text : String) : Except MySqlFailure Unit :=
  if condition then .ok () else .error (.message text)

variable (parser : SidParser)

def parseGtidSet (context : String) (text : List Char) : Except MySqlFailure GtidSet :=
  match GtidSet.parseMysql parser text with
  | .ok set => .ok set
  | .error error => .error (.position context error)

def invalidBoundaryFilename : String := "MySQL binlog boundary filename is invalid"

def invalidBoundaryPosition : String :=
  "MySQL binlog boundary position must fit the protocol range 4..=4294967295"

def invalidBoundaryTimestamp : String :=
  "MySQL binlog boundary source timestamp precedes the Unix epoch"

def invalidBoundaryGtids : String := "MySQL binlog boundary contains an invalid GTID set: "

def validateBoundary (boundary : MySqlBinlogBoundary) : Except MySqlFailure Unit := do
  ensure (boundary.filename ≠ [] && 0 ∉ boundary.filename) invalidBoundaryFilename
  ensure (4 ≤ boundary.position && boundary.position ≤ 2 ^ 32 - 1) invalidBoundaryPosition
  ensure (0 ≤ boundary.sourceTimestampMicros) invalidBoundaryTimestamp
  let _ ← parseGtidSet parser invalidBoundaryGtids boundary.gtidExecuted
  return ()

structure MySqlGtidState where
  (executed purged : GtidSet)

def lockLost (lockName : String) : String :=
  s!"MySQL replication execution lock '{lockName}' is no longer owned by this execution"

/-- The executed and the purged set that the server returns together with the
ownership of the execution lock. -/
def validateLockedGtidState (lockName : String) (held : Option ℕ) (executed purged : List Char) :
    Except MySqlFailure MySqlGtidState := do
  ensure (held == some 1) (lockLost lockName)
  let executed ← parseGtidSet parser "MySQL returned an invalid executed GTID set: " executed
  let purged ← parseGtidSet parser "MySQL returned an invalid purged GTID set: " purged
  return { executed, purged }

end Transferia.MySql
