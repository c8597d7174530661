import Transferia.MySql.Boundary
import Transferia.MySql.Decoder
import Transferia.Support.Checked

/-!
# Transaction and snapshot identities

The bytes that name a transaction or a snapshot boundary: a domain, a version,
a kind and fields with a tag and a 64-bit length each.
-/

namespace Transferia.MySql
open List Support

def beBytes : ℕ → ℕ → Bytes
  | 0, _ => []
  | width + 1, n => beBytes width (n / 256) ++ [UInt8.ofNat n]

def utf8 (text : List Char) : Bytes := (String.ofList text).toUTF8.data.toList

def identityDomain : Bytes := utf8 "transferia.mysql.source-transaction-id".toList

inductive IdentityEncodingError
  | fieldTooLong

def identityPrefix (kind : UInt8) : Bytes := identityDomain ++ [1, kind]

def framed (value : Bytes) : Bytes := beBytes 8 value.length ++ value

def pushField (encoded : Bytes) (tag : UInt8) (value : Bytes) :
    Except IdentityEncodingError Bytes :=
  if value.length < 2 ^ 64 then .ok (encoded ++ tag :: framed value) else .error .fieldTooLong

def pushFields (encoded : Bytes) (tag : UInt8) : List Bytes → Except IdentityEncodingError Bytes
  | [] => .ok encoded
  | value :: rest => do
    let encoded ← pushField encoded tag value
    pushFields encoded (tag + 1) rest

/-- A text whose length does not fit makes its field too long as well. -/
def optionalField : Option (List Char) → Bytes
  | none => [0]
  | some value => 1 :: framed (utf8 value)

def encodeTransactionIdentity : MySqlTransactionIdentity → Except IdentityEncodingError Bytes
  | .gtid gtid => pushFields (identityPrefix 1) 1
    [gtid.sid.toList, optionalField gtid.tag, beBytes 8 gtid.gno]
  | .anonymous position => pushFields (identityPrefix 2) 1
    [position.filename, beBytes 4 position.position]
  | .filePosition position => pushFields (identityPrefix 3) 1
    [position.filename, beBytes 4 position.position]

def encodeSnapshotBoundaryIdentity (boundary : MySqlBinlogBoundary) :
    Except IdentityEncodingError Bytes :=
  pushFields (identityPrefix 4) 1 [boundary.filename, beBytes 8 boundary.position,
    utf8 boundary.gtidExecuted, beBytes 8 (boundary.sourceTimestampMicros % 2 ^ 64).toNat]

def checkedLen (n : ℕ) : Option ℕ := if n < 2 ^ 64 then some n else none

/-- The length that the source computes in advance: three field headers for every kind. -/
def transactionIdentityEncodedLen (identity : MySqlTransactionIdentity) : Option ℕ := do
  let fields ← match identity with
    | .gtid gtid => do
      let tag ← match gtid.tag with
        | none => some 1
        | some tag => checkedLen (9 + (utf8 tag).length)
      let value ← checkedLen (16 + tag)
      checkedLen (value + 8)
    | .anonymous position | .filePosition position => checkedLen (position.filename.length + 4)
  let value ← checkedLen (identityDomain.length + 2)
  let value ← checkedLen (value + fields)
  checkedLen (value + 3 * (1 + 8))

theorem checkedLen_eq {n k : ℕ} : checkedLen n = some k ↔ n < 2 ^ 64 ∧ n = k := by simp [checkedLen]

theorem checkedLen_bind {n k : ℕ} {f : ℕ → Option ℕ} :
    (checkedLen n).bind f = some k ↔ n < 2 ^ 64 ∧ f n = some k := by
  simp [Option.bind_eq_some_iff, checkedLen_eq]

theorem length_beBytes (width n : ℕ) : (beBytes width n).length = width := by
  induction width generalizing n with
  | zero => rfl
  | succ width ih => simp [beBytes, ih]

theorem beBytes_inj {width n m : ℕ} (hn : n < 256 ^ width) (hm : m < 256 ^ width)
    (h : beBytes width n = beBytes width m) : n = m := by
  induction width generalizing n m with
  | zero => simp at hn hm; omega
  | succ width ih =>
    obtain ⟨hhigh, hlower⟩ := append_inj h (by simp [length_beBytes])
    have hdiv := ih (by omega) (by omega) hhigh
    have hmod : n % 256 = m % 256 := by simpa using congrArg UInt8.toNat (List.cons.inj hlower).1
    omega

theorem utf8_inj {left right : List Char} (h : utf8 left = utf8 right) : left = right := by
  have hbytes := ByteArray.ext (Array.toList_inj.mp h)
  exact String.ofList_injective (String.toByteArray_inj.mp hbytes)

theorem framed_append_inj {left right restLeft restRight : Bytes} (hleft : left.length < 2 ^ 64)
    (hright : right.length < 2 ^ 64) (h : framed left ++ restLeft = framed right ++ restRight) :
    left = right ∧ restLeft = restRight := by
  rw [framed, framed, append_assoc, append_assoc] at h
  obtain ⟨hsize, hvalue⟩ := append_inj h (by simp [length_beBytes])
  exact append_inj hvalue (beBytes_inj hleft hright hsize)

theorem optionalField_inj {left right : Option (List Char)}
    (hleft : (optionalField left).length < 2 ^ 64) (hright : (optionalField right).length < 2 ^ 64)
    (h : optionalField left = optionalField right) : left = right := by
  rcases left with _ | left <;> rcases right with _ | right
  · rfl
  · simp [optionalField] at h
  · simp [optionalField] at h
  · simp only [optionalField, framed, length_cons, length_append] at hleft hright
    have hvalue : framed (utf8 left) ++ [] = framed (utf8 right) ++ [] := by
      simpa [optionalField] using h
    rw [utf8_inj (framed_append_inj (by omega) (by omega) hvalue).1]

def fieldBytes (tag : UInt8) : List Bytes → Bytes
  | [] => []
  | value :: rest => tag :: (framed value ++ fieldBytes (tag + 1) rest)

theorem length_fieldBytes (tag : UInt8) (fields : List Bytes) :
    (fieldBytes tag fields).length = (fields.map (9 + ·.length)).sum := by
  induction fields generalizing tag with
  | nil => rfl
  | cons value rest ih => simp [fieldBytes, framed, length_beBytes, ih]; omega

theorem pushFields_ok {encoded bytes : Bytes} {tag : UInt8} {fields : List Bytes}
    (h : pushFields encoded tag fields = .ok bytes) :
    (∀ value ∈ fields, value.length < 2 ^ 64) ∧ bytes = encoded ++ fieldBytes tag fields := by
  induction fields generalizing encoded tag with
  | nil =>
    cases h
    exact ⟨nofun, (append_nil _).symm⟩
  | cons value rest ih =>
    obtain ⟨next, hfield, h⟩ := of_bind h
    unfold pushField at hfield
    split at hfield
    next hfits =>
      cases hfield
      obtain ⟨hrest, rfl⟩ := ih h
      exact ⟨forall_mem_cons.mpr ⟨hfits, hrest⟩, by simp [fieldBytes]⟩
    · cases hfield

theorem fieldBytes_inj {tag : UInt8} {left right : List Bytes}
    (hleft : ∀ value ∈ left, value.length < 2 ^ 64)
    (hright : ∀ value ∈ right, value.length < 2 ^ 64) (hlen : left.length = right.length)
    (h : fieldBytes tag left = fieldBytes tag right) : left = right := by
  induction left generalizing tag right with
  | nil => exact (length_eq_zero_iff.mp hlen.symm).symm
  | cons first rest ih =>
    obtain ⟨other, others, rfl⟩ := exists_cons_of_length_eq_add_one hlen.symm
    rw [forall_mem_cons] at hleft hright
    obtain ⟨hvalue, hrest⟩ := framed_append_inj hleft.1 hright.1 (List.cons.inj h).2
    rw [hvalue, ih hleft.2 hright.2 (by simpa using hlen) hrest]

theorem pushFields_inj {kind kind' : UInt8} {left right : List Bytes} {bytes : Bytes}
    (hleft : pushFields (identityPrefix kind) 1 left = .ok bytes)
    (hright : pushFields (identityPrefix kind') 1 right = .ok bytes) :
    kind = kind' ∧ (left.length = right.length → left = right) := by
  obtain ⟨hsmall, rfl⟩ := pushFields_ok hleft
  obtain ⟨hsmall', heq⟩ := pushFields_ok hright
  simp only
    [identityPrefix, append_assoc, append_cancel_left_eq, cons_append, cons.injEq, true_and] at heq
  exact ⟨heq.1, fun hlen => fieldBytes_inj hsmall hsmall' hlen heq.2⟩

abbrev SourceIdentity := MySqlTransactionIdentity ⊕ MySqlBinlogBoundary

namespace SourceIdentity

def encode : SourceIdentity → Except IdentityEncodingError Bytes :=
  Sum.elim encodeTransactionIdentity encodeSnapshotBoundaryIdentity

def Fits : SourceIdentity → Prop
  | .inl (.gtid gtid) => gtid.gno < 2 ^ 64
  | .inl (.anonymous position) | .inl (.filePosition position) => position.position < 2 ^ 32
  | .inr boundary => boundary.position < 2 ^ 64 ∧
    -2 ^ 63 ≤ boundary.sourceTimestampMicros ∧ boundary.sourceTimestampMicros < 2 ^ 63

theorem encode_inj {left right : SourceIdentity} {bytes : Bytes} (hleft : left.Fits)
    (hright : right.Fits) (hl : left.encode = .ok bytes) (hr : right.encode = .ok bytes) :
    left = right := by
  rcases left with (⟨sid, tag, gno⟩ | ⟨name, pos⟩ | ⟨name, pos⟩) | ⟨name, pos, set, time⟩ <;>
    rcases right with (⟨sid', tag', gno'⟩ | ⟨name', pos'⟩ | ⟨name', pos'⟩) |
      ⟨name', pos', set', time'⟩ <;>
    obtain ⟨hkind, h⟩ := pushFields_inj hl hr <;>
    first
    | exact absurd hkind (by decide)
    | replace h := h rfl
      simp only [cons.injEq, and_true] at h
  · obtain ⟨hsid, htag, hgno⟩ := h
    have hsmall := (pushFields_ok hl).1
    have hsmall' := (pushFields_ok hr).1
    rw [forall_mem_cons, forall_mem_cons] at hsmall hsmall'
    obtain rfl : tag = tag' := optionalField_inj hsmall.2.1 hsmall'.2.1 htag
    rw [Vector.toList_inj.mp hsid, beBytes_inj hleft hright hgno]
  · rw [h.1, beBytes_inj hleft hright h.2]
  · rw [h.1, beBytes_inj hleft hright h.2]
  · obtain ⟨rfl, hpos, hset, htime⟩ := h
    obtain ⟨hpos', hlower, hhigh⟩ := hleft
    obtain ⟨hpos'', hlow', hhigh'⟩ := hright
    have htime := beBytes_inj (by omega) (by omega) htime
    simp only at hlower hhigh hlow' hhigh'
    obtain rfl : time = time' := by omega
    rw [utf8_inj hset, beBytes_inj hpos' hpos'' hpos]

end SourceIdentity

/-- Equal bytes are one identity, and the length computed in advance is exact for GTIDs only. -/
theorem identity_encoding (left right : SourceIdentity) (identity : MySqlTransactionIdentity)
    (bytes : Bytes) :
    (left.Fits → right.Fits → left.encode = .ok bytes → right.encode = .ok bytes → left = right) ∧
    (encodeTransactionIdentity identity = .ok bytes → bytes.length < 2 ^ 64 →
      (transactionIdentityEncodedLen identity = some bytes.length ↔
        ∃ gtid, identity = .gtid gtid)) := by
  refine ⟨SourceIdentity.encode_inj, fun hok hsize => ?_⟩
  cases identity with
  | gtid gtid =>
    refine iff_of_true ?_ ⟨gtid, rfl⟩
    obtain ⟨-, rfl⟩ := pushFields_ok hok
    rw [length_append, length_fieldBytes] at hsize ⊢
    rcases gtid with ⟨sid, _ | tag, gno⟩ <;>
      simp [optionalField, identityPrefix, framed, length_beBytes] at hsize ⊢ <;>
      simp [transactionIdentityEncodedLen, checkedLen_bind, checkedLen_eq] <;> omega
  | anonymous position | filePosition position =>
    refine iff_of_false (fun hlen => ?_) nofun
    obtain ⟨-, rfl⟩ := pushFields_ok hok
    simp [transactionIdentityEncodedLen, checkedLen_bind, checkedLen_eq, identityPrefix,
      length_fieldBytes, length_beBytes] at hlen
    omega

def numbered : MySqlTransactionIdentity :=
  .gtid { sid := Vector.replicate 16 0x11, tag := some "t".toList, gno := 1 }

theorem identity_encoding_numbered :
    ∃ bytes other, SourceIdentity.encode (.inl numbered) = .ok bytes ∧
      SourceIdentity.encode (.inl (.anonymous ⟨[97], 4⟩)) = .ok other ∧
      bytes ≠ other ∧ transactionIdentityEncodedLen numbered = some bytes.length := by
  have hnumbered : SourceIdentity.encode (.inl numbered) = .ok _ := rfl
  refine ⟨_, _, hnumbered, rfl, fun hsame => ?_, ?_⟩
  · have hfits : SourceIdentity.Fits (.inl numbered) := by norm_num [SourceIdentity.Fits, numbered]
    have hother : SourceIdentity.Fits (.inl (.anonymous ⟨[97], 4⟩)) := by norm_num
        [SourceIdentity.Fits]
    cases (identity_encoding _ _ numbered _).1 hfits hother hnumbered
        (congrArg Except.ok hsame.symm)
  · exact ((identity_encoding (.inl numbered) (.inl numbered) numbered _).2 rfl
      (by decide +kernel)).mpr ⟨_, rfl⟩

/-- An anonymous transaction at position 4 of the file `a`. -/
theorem anonymous_length_too_large :
    ∃ bytes, encodeTransactionIdentity (.anonymous ⟨[97], 4⟩) = .ok bytes ∧
      transactionIdentityEncodedLen (.anonymous ⟨[97], 4⟩) = some (bytes.length + 9) :=
  ⟨_, rfl, by decide +kernel⟩

end Transferia.MySql
