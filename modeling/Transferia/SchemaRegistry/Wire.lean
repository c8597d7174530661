import Transferia.Support.Checked

/-!
# The Confluent wire format

A message starts with a magic byte and the identifier of its schema.  Behind
them a protobuf message names its type by a counted list of indexes, all of them
zigzag varints.  Masks and shifts are remainders and quotients by powers of two.
-/

namespace Transferia.SchemaRegistry
open List Support

abbrev Bytes := List UInt8

structure ConfluentEnvelope where
  schemaId : ℤ
  payload : Bytes

namespace ConfluentEnvelope

/-- The identifier of four bytes is negative from 2 ^ 31 on. -/
def decode : Bytes → Except String ConfluentEnvelope
  | magic :: a :: b :: c :: d :: payload =>
    let schemaId : ℕ := a.toNat * 2 ^ 24 + b.toNat * 2 ^ 16 + c.toNat * 2 ^ 8 + d.toNat
    if magic ≠ 0 then
      .error s!"unsupported Confluent wire magic byte {magic}; expected schema-id format 0"
    else if 2 ^ 31 ≤ schemaId then .error "Confluent schema id must be nonnegative"
    else .ok ⟨schemaId, payload⟩
  | _ => .error "Confluent wire message must contain a magic byte and 4-byte schema id"

def encode (schemaId : ℤ) (payload : Bytes) : Except String Bytes :=
  if schemaId < 0 then .error "Confluent schema id must be nonnegative"
  else
    let n := schemaId.toNat
    .ok (0 :: .ofNat (n / 2 ^ 24) :: .ofNat (n / 2 ^ 16) :: .ofNat (n / 2 ^ 8) :: .ofNat n ::
      payload)

end ConfluentEnvelope

def unzigzag (raw : ℕ) : ℤ := if raw % 2 = 0 then raw / 2 else -(raw / 2) - 1

/-- The loop of `decode_zigzag_varint` from `position` on.  The bits of a byte lie
above those of `raw`; what the shift moves out of 32 bits is lost. -/
def decodeVarint (raw position : ℕ) : Bytes → Except String (ℤ × ℕ)
  | [] => .error "invalid Confluent Protobuf zigzag varint"
  | byte :: bytes =>
    let raw := raw + byte.toNat % 128 * 2 ^ (7 * position) % 2 ^ 32
    if byte.toNat < 128 then .ok (unzigzag raw, position + 1)
    else decodeVarint raw (position + 1) bytes

def decodeZigzagVarint (bytes : Bytes) : Except String (ℤ × ℕ) := decodeVarint 0 0 (bytes.take 5)

/-- The loop of `decode_message_indexes`, with the bytes behind its offset. -/
def decodeIndexes : ℕ → Bytes → Except String (List ℤ × Bytes)
  | 0, bytes => .ok ([], bytes)
  | count + 1, bytes => do
    let (index, consumed) ← decodeZigzagVarint bytes
    if index < 0 then .error "Protobuf message index must be nonnegative"
    else do
      let (indexes, rest) ← decodeIndexes count (bytes.drop consumed)
      .ok (index :: indexes, rest)

/-- The element capacity that the function requests, and what it returns.  A
positive count always fits a `usize`. -/
def decodeMessageIndexes : Bytes → ℕ × Except String (List ℤ × Bytes)
  | [] => (0, .error "Confluent Protobuf message has no message-index array")
  | byte :: bytes =>
    if byte = 0 then (1, .ok ([0], bytes))
    else match decodeZigzagVarint (byte :: bytes) with
      | .error error => (0, .error error)
      | .ok (length, offset) =>
        if length ≤ 0 then (0, .error "Protobuf message-index array must not be empty")
        else (length.toNat, decodeIndexes length.toNat ((byte :: bytes).drop offset))

def encodeVarint (raw : ℕ) : Bytes :=
  if raw < 128 then [.ofNat raw] else .ofNat (raw % 128 + 128) :: encodeVarint (raw / 128)
termination_by raw

def encodeZigzagVarint (value : ℤ) : Bytes :=
  encodeVarint (if value < 0 then -2 * value - 1 else 2 * value).toNat

def encodeIndexes (output : Bytes) : List ℤ → Except String Bytes
  | [] => .ok output
  | index :: indexes =>
    if index < 0 then .error "Protobuf message index must be nonnegative"
    else encodeIndexes (output ++ encodeZigzagVarint index) indexes

/-- The output of a successful call; a failed one leaves bytes nobody reads. -/
def encodeMessageIndexes (indexes : List ℤ) (output : Bytes) : Except String Bytes :=
  if indexes = [] then .error "Protobuf message-index array must not be empty"
  else if indexes = [0] then .ok (output ++ [0])
  else if 2 ^ 31 ≤ indexes.length then .error "out of range integral type conversion attempted"
  else encodeIndexes (output ++ encodeZigzagVarint indexes.length) indexes

variable {value : ℤ} {bytes : Bytes}

theorem decodeVarint_encodeVarint {raw read position : ℕ} (hpos : position ≤ 4)
    (hraw : raw * 2 ^ (7 * position) < 2 ^ 32) (rest : Bytes) :
    decodeVarint read position ((encodeVarint raw ++ rest).take (5 - position)) =
      .ok (unzigzag (read + raw * 2 ^ (7 * position)), position + (encodeVarint raw).length) := by
  have hleft : 5 - position = 5 - (position + 1) + 1 := by omega
  -- the induction follows the writer, which never needs more bytes than are left
  induction raw using encodeVarint.induct generalizing read position with
  | case1 raw hlast =>
    have hbyte : (UInt8.ofNat raw).toNat = raw := by
      rw [UInt8.toNat_ofNat']
      omega
    rw [encodeVarint, if_pos hlast, hleft, singleton_append, take_succ_cons, decodeVarint]
    simp only [hbyte, if_pos hlast, Nat.mod_eq_of_lt hlast, Nat.mod_eq_of_lt hraw, length_singleton]
  | case2 raw hmore ih =>
    have hbyte : (UInt8.ofNat (raw % 128 + 128)).toNat = raw % 128 + 128 := by
      rw [UInt8.toNat_ofNat']
      omega
    have hpow : 2 ^ (7 * (position + 1)) = 128 * 2 ^ (7 * position) := by
      rw [Nat.mul_add, Nat.pow_add, Nat.mul_comm]
    have hparts : raw * 2 ^
        (7 * position) = raw % 128 * 2 ^ (7 * position) + raw / 128 * 2 ^ (7 * (position + 1)) := by
      rw [hpow, ← Nat.mul_assoc, ← Nat.add_mul, Nat.mod_add_div']
    have hnext : position + 1 ≤ 4 := by
      by_contra hend
      obtain rfl : position = 4 := by omega
      omega
    rw [encodeVarint, if_neg hmore, hleft, cons_append, take_succ_cons, decodeVarint]
    simp only [hbyte, Nat.add_mod_right, Nat.mod_mod, length_cons,
      if_neg (Nat.not_lt.mpr (Nat.le_add_left 128 _))]
    rw [ih hnext (by omega) (by omega), Nat.mod_eq_of_lt (by omega), Nat.add_assoc, ← hparts,
      Nat.add_assoc, Nat.add_comm 1]

theorem decodeZigzagVarint_encode (hvalue : 0 ≤ value) (hsmall : value < 2 ^ 31) (rest : Bytes) :
    decodeZigzagVarint (encodeZigzagVarint value ++ rest) =
      .ok (value, (encodeZigzagVarint value).length) := by
  obtain ⟨n, rfl⟩ := Int.eq_ofNat_of_zero_le hvalue
  have hraw : (if (n : ℤ) < 0 then -2 * (n : ℤ) - 1 else 2 * n).toNat = 2 * n := by omega
  have hread := @decodeVarint_encodeVarint (2 * n) 0 0 (by omega) (by omega) rest
  rw [encodeZigzagVarint, hraw, decodeZigzagVarint, hread]
  simp [unzigzag]

section
variable {indexes : List ℤ} (hindexes : ∀ index ∈ indexes, 0 ≤ index ∧ index < 2 ^ 31)
include hindexes

theorem decodeIndexes_encode (payload : Bytes) :
    decodeIndexes indexes.length (indexes.flatMap encodeZigzagVarint ++ payload) =
      .ok (indexes, payload) := by
  induction indexes with
  | nil => rfl
  | cons index indexes ih =>
    obtain ⟨⟨hindex, hsmall⟩, hrest⟩ := forall_mem_cons.mp hindexes
    rw [flatMap_cons, length_cons, decodeIndexes, append_assoc,
      decodeZigzagVarint_encode hindex hsmall]
    simp [bind, Except.bind, not_lt.mpr hindex, ih hrest]

theorem encodeIndexes_ok (output : Bytes) :
    encodeIndexes output indexes = .ok (output ++ indexes.flatMap encodeZigzagVarint) := by
  induction indexes generalizing output with
  | nil => simp [encodeIndexes]
  | cons index indexes ih =>
    obtain ⟨hindex, hrest⟩ := forall_mem_cons.mp hindexes
    simp [encodeIndexes, not_lt.mpr hindex.1, ih hrest]

end

theorem decodeMessageIndexes_counted {offset : ℕ}
    (hvarint : decodeZigzagVarint bytes = .ok (value, offset)) (hvalue : 0 < value) :
    decodeMessageIndexes bytes = (value.toNat, decodeIndexes value.toNat (bytes.drop offset)) := by
  cases bytes with
  | nil => cases hvarint
  | cons byte bytes =>
    have hbyte : byte ≠ 0 := by
      rintro rfl
      cases hvarint
      cases hvalue
    rw [decodeMessageIndexes, if_neg hbyte, hvarint]
    exact if_neg (not_le.mpr hvalue)

/-- Encoded indexes and envelopes are read back.  The requested capacity is linear
in the length of the input exactly when the declared count is. -/
theorem wire_codec (c : ℕ) (bytes : Bytes) :
    (∀ indexes output payload, indexes ≠ [] → (∀ index ∈ indexes, 0 ≤ index ∧ index < 2 ^ 31) →
      if indexes.length < 2 ^ 31 then
        ∃ encoded, encodeMessageIndexes indexes output = .ok (output ++ encoded) ∧
          (decodeMessageIndexes (encoded ++ payload)).2 = .ok (indexes, payload)
      else ∃ error, encodeMessageIndexes indexes output = .error error) ∧
    (∀ schemaId payload, 0 ≤ schemaId → schemaId < 2 ^ 31 →
      ∃ message, ConfluentEnvelope.encode schemaId payload = .ok message ∧
        ConfluentEnvelope.decode message = .ok ⟨schemaId, payload⟩) ∧
    ((decodeMessageIndexes bytes).1 ≤ (c + 1) * bytes.length ↔
      ∀ count offset, decodeZigzagVarint bytes = .ok (count, offset) →
        count ≤ ((c + 1) * bytes.length : ℕ)) := by
  refine ⟨?_, ?_, ?_, ?_⟩
  · intro indexes output payload hempty hindexes
    rw [encodeMessageIndexes, if_neg hempty]
    split
    next hlength =>
      rw [if_neg (Nat.not_le.mpr hlength), encodeIndexes_ok hindexes]
      split
      next hzero => exact ⟨[0], rfl, by rw [hzero]; rfl⟩
      have hcount := length_pos_iff.mpr hempty
      refine ⟨_, by rw [append_assoc], ?_⟩
      rw [append_assoc, decodeMessageIndexes_counted
        (decodeZigzagVarint_encode (by omega) (by omega) _) (by omega), drop_left,
        Int.toNat_natCast]
      exact decodeIndexes_encode hindexes payload
    next hlength =>
      have hmany : indexes ≠ [0] := by
        rintro rfl
        exact hlength (by decide)
      exact ⟨_, by rw [if_neg hmany, if_pos (Nat.not_lt.mp hlength)]⟩
  · intro schemaId payload hid hsmall
    obtain ⟨n, rfl⟩ := Int.eq_ofNat_of_zero_le hid
    refine ⟨_, by rw [ConfluentEnvelope.encode, if_neg (not_lt.mpr hid)], ?_⟩
    have hsum : n / 2 ^ 24 % 2 ^ 8 * 2 ^ 24 + n / 2 ^ 16 % 2 ^ 8 * 2 ^ 16 +
        n / 2 ^ 8 % 2 ^ 8 * 2 ^ 8 + n % 2 ^ 8 = n := by
      omega
    have hcheck : ¬ 2 ^ 31 ≤ n := by omega
    simp only [ConfluentEnvelope.decode, Int.toNat_natCast, UInt8.toNat_ofNat', hsum]
    rw [if_neg (not_not.mpr rfl), if_neg hcheck]
  · intro hcap count offset hvarint
    by_contra hcount
    rw [decodeMessageIndexes_counted hvarint (by omega)] at hcap
    omega
  · intro hcount
    fun_cases decodeMessageIndexes bytes
    · exact Nat.zero_le _
    · exact Nat.mul_pos (Nat.succ_pos c) (Nat.succ_pos _)
    · exact Nat.zero_le _
    · exact Nat.zero_le _
    · exact Int.toNat_le.mpr (hcount _ _ ‹_›)

/-- Five bytes request room for 2147483647 indexes, of which none is there. -/
theorem hostile_count_requests_capacity :
    ∃ bytes, decodeMessageIndexes bytes =
        (2147483647, .error "invalid Confluent Protobuf zigzag varint") ∧
      ∀ c < 400000000, ¬ (decodeMessageIndexes bytes).1 ≤ (c + 1) * bytes.length := by
  have hrun : decodeMessageIndexes [0xfe, 0xff, 0xff, 0xff, 0x0f] =
      (2147483647, .error "invalid Confluent Protobuf zigzag varint") := by
    decide +kernel
  refine ⟨_, hrun, fun c hc => ?_⟩
  simp only [hrun, length_cons, length_nil]
  omega

end Transferia.SchemaRegistry
