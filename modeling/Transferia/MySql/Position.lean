import Mathlib

/-!
# Binlog positions and GTID sets

Each entry of a `GtidSet` belongs to one server UUID and at most one tag, and
lists the numbers of the executed transactions as intervals that are sorted,
disjoint and not adjacent.  Texts are lists of characters.  `SidParser` stands
for the parser of one entry in `mysql_common`.
-/

namespace Transferia.MySql

abbrev Bytes := List UInt8

abbrev ServerUuid := Vector UInt8 16

structure MySqlBinlogPosition where
  filename : Bytes
  position : ℕ
  deriving DecidableEq

structure GtidInterval where
  (start endExclusive : ℕ)
  deriving DecidableEq

structure GtidSid where
  sid : ServerUuid
  tag : Option (List Char)
  intervals : List GtidInterval
  deriving DecidableEq

abbrev GtidSet := List GtidSid

/-- One transaction: its number under a server UUID and a tag. -/
structure Gtid where
  sid : ServerUuid
  tag : Option (List Char)
  gno : ℕ
  deriving DecidableEq

inductive PositionError
  | emptyFilename
  | filenameContainsNul
  | positionDoesNotFitProtocol (position : ℕ)
  | positionBeforeBinlogHeader (position : ℕ)
  | gtidSetContainsWhitespace
  | emptyGtidSetEntry (index : ℕ)
  | emptyGtidIntervals (sid : ServerUuid) (tag : Option (List Char))
  | duplicateGtidSid (sid : ServerUuid) (tag : Option (List Char))
  | duplicateCommittedGtid (sid : ServerUuid) (tag : Option (List Char)) (gno : ℕ)
  | invalidGtidInterval (start endExclusive : ℕ)
  | nonCanonicalGtidIntervals (previousEndExclusive nextStart : ℕ)
  | invalidGtidSid (text : List Char) (reason : String)
  | nonCanonicalGtidSidText (received canonical : List Char)
  deriving DecidableEq

namespace MySqlBinlogPosition

def new (filename : Bytes) (position : ℕ) : Except PositionError MySqlBinlogPosition :=
  if filename = [] then .error .emptyFilename
  else if 0 ∈ filename then .error .filenameContainsNul
  else if 2 ^ 32 ≤ position then .error (.positionDoesNotFitProtocol position)
  else if position < 4 then .error (.positionBeforeBinlogHeader position)
  else .ok { filename, position }

def validate (self : MySqlBinlogPosition) : Except PositionError Unit :=
  (new self.filename self.position).map fun _ => ()

end MySqlBinlogPosition

def hexByte (byte : UInt8) : List Char := [(byte.toNat / 16).digitChar, (byte.toNat % 16).digitChar]

/-- The bytes from `index` on, with the dashes that stand before bytes 4, 6, 8
and 10. -/
def formatUuidFrom (index : ℕ) : List UInt8 → List Char
  | [] => []
  | byte :: rest =>
    (if index ∈ [4, 6, 8, 10] then ['-'] else []) ++ hexByte byte ++ formatUuidFrom (index + 1) rest

def formatUuid (sid : ServerUuid) : List Char := formatUuidFrom 0 sid.toList

def GtidInterval.text (interval : GtidInterval) : List Char :=
  if interval.start + 1 = interval.endExclusive then
    Nat.toDigits 10 interval.start
  else
    Nat.toDigits 10 interval.start ++ '-' :: Nat.toDigits 10 (interval.endExclusive - 1)

namespace GtidSid

def components (self : GtidSid) : List (List Char) :=
  self.tag.toList ++ self.intervals.map GtidInterval.text

def toMysqlText (self : GtidSid) : List Char :=
  formatUuid self.sid ++ self.components.flatMap (':' :: ·)

end GtidSid

/-- The largest end of an interval: one above the largest signed 64-bit
number. -/
def maxEndExclusive : ℕ := 2 ^ 63

def GtidInterval.validate (self : GtidInterval) : Except PositionError Unit :=
  if self.start = 0 ∨ self.endExclusive ≤ self.start ∨ maxEndExclusive < self.endExclusive then
    .error (.invalidGtidInterval self.start self.endExclusive)
  else .ok ()

structure SidParser where
  parse : List Char → Except String GtidSid

namespace GtidSid

/-- The intervals are checked in order; `previousEnd` is the end of the one
before. -/
def checkIntervals : Option ℕ → List GtidInterval → Except PositionError Unit
  | _, [] => .ok ()
  | previousEnd, interval :: rest => do
    interval.validate
    match previousEnd with
    | none => checkIntervals (some interval.endExclusive) rest
    | some previous =>
      if interval.start ≤ previous then
        throw (.nonCanonicalGtidIntervals previous interval.start)
      else checkIntervals (some interval.endExclusive) rest

def validateIntervals (self : GtidSid) : Except PositionError Unit :=
  if self.intervals = [] then .error (.emptyGtidIntervals self.sid self.tag)
  else checkIntervals none self.intervals

def parseMysqlSid (parser : SidParser) (self : GtidSid) : Except PositionError GtidSid :=
  match parser.parse self.toMysqlText with
  | .ok sid => .ok sid
  | .error reason => .error (.invalidGtidSid self.toMysqlText reason)

def validate (parser : SidParser) (self : GtidSid) : Except PositionError Unit := do
  self.validateIntervals
  let _ ← self.parseMysqlSid parser
  return ()

def identity (self : GtidSid) : ServerUuid × Option (List Char) := (self.sid, self.tag)

end GtidSid
namespace GtidSet

/-- The entries are checked in order; `identities` are those already seen. -/
def validateFrom (parser : SidParser) (identities : List (ServerUuid × Option (List Char))) :
    List GtidSid → Except PositionError Unit
  | [] => .ok ()
  | sid :: rest => do
    sid.validate parser
    if sid.identity ∈ identities then
      throw (.duplicateGtidSid sid.sid sid.tag)
    else validateFrom parser (sid.identity :: identities) rest

def validate (parser : SidParser) (self : GtidSet) : Except PositionError Unit :=
  validateFrom parser [] self

end GtidSet

def isWhitespace (c : Char) : Bool :=
  let code := c.toNat
  (9 ≤ code && code ≤ 13) || code == 0x20 || code == 0x85 || code == 0xA0 ||
    code == 0x1680 || (0x2000 ≤ code && code ≤ 0x200A) || code == 0x2028 ||
    code == 0x2029 || code == 0x202F || code == 0x205F || code == 0x3000

def withoutPlus : List Char → List Char
  | '+' :: rest => rest
  | text => text

/-- The digits of a number behind an optional plus sign, as the standard
library reads an unsigned 64-bit number. -/
def parseU64 (text : List Char) : Option ℕ :=
  let digits := withoutPlus text
  if digits ≠ [] ∧ digits.all Char.isDigit ∧ Nat.ofDigitChars 10 digits 0 < 2 ^ 64 then
    some (Nat.ofDigitChars 10 digits 0)
  else none

def endpointOverflow : String := "GTID interval endpoint exceeds MySQL's maximum GNO"

def rejectSidParserOverflow (text : List Char) : Except PositionError Unit :=
  if ((text.splitOn ':').drop 1).any fun component =>
      (component.splitOn '-').any fun endpoint =>
        parseU64 endpoint == some (2 ^ 64 - 1) then
    .error (.invalidGtidSid text endpointOverflow)
  else .ok ()

namespace GtidSet

def parseEntry (parser : SidParser) (index : ℕ) (text : List Char) : Except PositionError GtidSid :=
  if text = [] then .error (.emptyGtidSetEntry index)
  else do
    rejectSidParserOverflow text
    match parser.parse text with
    | .error reason => throw (.invalidGtidSid text reason)
    | .ok sid =>
      sid.validate parser
      if sid.toMysqlText = text then return sid
      else throw (.nonCanonicalGtidSidText text sid.toMysqlText)

def parseEntries (parser : SidParser) (index : ℕ) : List (List Char) → Except PositionError GtidSet
  | [] => .ok []
  | text :: rest => do
    let sid ← parseEntry parser index text
    let sids ← parseEntries parser (index + 1) rest
    return sid :: sids

def parseMysql (parser : SidParser) (value : List Char) : Except PositionError GtidSet :=
  if value = [] then .ok []
  else if value.any isWhitespace then .error .gtidSetContainsWhitespace
  else do
    let result ← parseEntries parser 0 (value.splitOn ',')
    validate parser result
    return result

end GtidSet

namespace GtidSid

def mergeOnto (previous : GtidInterval) : List GtidInterval → List GtidInterval
  | [] => [previous]
  | interval :: rest =>
    if previous.endExclusive = interval.start then
      mergeOnto { previous with endExclusive := interval.endExclusive } rest
    else previous :: mergeOnto interval rest

def mergeAdjacent : List GtidInterval → List GtidInterval
  | [] => []
  | first :: rest => mergeOnto first rest

def sortByStart (intervals : List GtidInterval) : List GtidInterval :=
  intervals.insertionSort (·.start ≤ ·.start)

def includeGno (self : GtidSid) (gno : ℕ) : Except PositionError GtidSid :=
  if self.intervals.any fun interval =>
      interval.start ≤ gno && gno < interval.endExclusive then
    .error (.duplicateCommittedGtid self.sid self.tag gno)
  else
    let intervals := self.intervals ++ [{ start := gno, endExclusive := gno + 1 }]
    .ok { self with intervals := mergeAdjacent (sortByStart intervals) }

end GtidSid
namespace GtidSet

/-- The entry of the transaction's identity takes its number; a set without
such an entry gets one at its end. -/
def includeInto (sid : ServerUuid) (tag : Option (List Char)) (gno : ℕ) :
    List GtidSid → Except PositionError (List GtidSid)
  | [] => do
    let entry ← GtidSid.includeGno { sid, tag, intervals := [] } gno
    return [entry]
  | entry :: rest =>
    if entry.sid = sid ∧ entry.tag = tag then do
      let entry ← entry.includeGno gno
      return entry :: rest
    else do
      let rest ← includeInto sid tag gno rest
      return entry :: rest

def includeTransaction (parser : SidParser) (self : GtidSet)
    (sid : ServerUuid) (tag : Option (List Char)) (gno : ℕ) : Except PositionError GtidSet :=
  if 2 ^ 64 ≤ gno + 1 then .error (.invalidGtidInterval gno gno)
  else do
    GtidInterval.validate { start := gno, endExclusive := gno + 1 }
    let result ← includeInto sid tag gno self
    validate parser result
    return result

def isSubsetOf (self current : GtidSet) : Bool :=
  self.all fun required =>
    match current.find? fun candidate =>
      candidate.sid = required.sid && candidate.tag = required.tag with
    | none => false
    | some available =>
      required.intervals.all fun needed =>
        available.intervals.any fun held =>
          held.start ≤ needed.start && needed.endExclusive ≤ held.endExclusive

end GtidSet
end Transferia.MySql
