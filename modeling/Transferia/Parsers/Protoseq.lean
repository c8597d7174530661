import Transferia.Support.LittleEndian

/-!
# Framing of protobuf sequences

A frame is the size of a record in four little-endian bytes, the record and a
marker.  Behind a damaged frame the decoder goes on at the next marker.  The size
and the marker of a frame can be put back from its row, so no byte is lost.
-/

namespace Transferia.Protobuf
open List Support

abbrev Bytes := List UInt8

def protoseqMagic : Bytes :=
  [31, 247, 247, 126, 190, 166, 94, 158, 55, 166, 246, 46, 254, 174, 71, 167, 183, 110, 191, 175,
    22, 158, 159, 55, 246, 87, 247, 102, 167, 6, 175, 247]

abbrev protoseqMaxRecordBytes : ℕ := 64 * 1024 * 1024

inductive FrameError
  | invalid (error : String)
  | incomplete (bytes : ℕ)
  | corrupted
  | unterminated

def FrameError.text : FrameError → String
  | .invalid error => s!"invalid protobuf message: {error}"
  | .incomplete bytes => s!"incomplete protoseq frame: expected 4-byte size, got {bytes} bytes"
  | .corrupted => "corrupted protoseq frame"
  | .unterminated => "corrupted protoseq frame has no following synchronization marker"

/-- A `DecodeResult` before the text of its error is written: a message with its raw
bytes, or the raw bytes that gave none. -/
abbrev FrameResult (Message : Type) := Except (Bytes × FrameError) (Message × Bytes)

variable {Message : Type} (decode : Bytes → Except String Message)

def decodeOne (raw : Bytes) : FrameResult Message :=
  match decode raw with
  | .ok message => .ok (message, raw)
  | .error error => .error (raw, .invalid error)

def findSubslice (haystack needle : Bytes) : Option ℕ :=
  (range (haystack.length + 1 - needle.length)).find? fun start =>
    (haystack.drop start).take needle.length = needle

/-- The loop of `decode_protoseq` over the remaining bytes.  The sum of a size and
the marker's length fits a `usize`. -/
def decodeProtoseq : Bytes → List (FrameResult Message)
  | [] => []
  | a :: b :: c :: d :: framed =>
    let size := leNat [a, b, c, d]
    let frameEnd := size + protoseqMagic.length
    if size ≤ protoseqMaxRecordBytes ∧ frameEnd ≤ framed.length ∧
        (framed.drop size).take protoseqMagic.length = protoseqMagic then
      decodeOne decode (framed.take size) :: decodeProtoseq (framed.drop frameEnd)
    else
      match findSubslice framed protoseqMagic with
      | some sync =>
        .error (a :: b :: c :: d :: framed.take sync, .corrupted) ::
          decodeProtoseq (framed.drop (sync + protoseqMagic.length))
      | none => [.error (a :: b :: c :: d :: framed, .unterminated)]
  | remaining => [.error (remaining, .incomplete remaining.length)]
termination_by remaining => remaining.length

def frame (record : Bytes) : Bytes :=
  leBytes 4 record.length ++ (record ++ protoseqMagic)

/-- The input of a row: its raw bytes with the size and the marker that the decoder
has removed. -/
def restored : FrameResult Message → Bytes
  | .ok (_, raw) | .error (raw, .invalid _) => frame raw
  | .error (raw, .corrupted) => raw ++ protoseqMagic
  | .error (raw, _) => raw

/-- The row of a record: its message, or its bytes when it has none. -/
inductive RowOf (record : Bytes) : FrameResult Message → Prop
  | accepted {message} : decode record = .ok message → RowOf record (.ok (message, record))
  | rejected {error} : decode record = .error error → RowOf record (.error (record, .invalid error))

theorem rowOf_decodeOne (record : Bytes) : RowOf decode record (decodeOne decode record) := by
  unfold decodeOne
  split
  next hdecode => exact .accepted hdecode
  next hdecode => exact .rejected hdecode

theorem restored_decodeOne (raw : Bytes) : restored (decodeOne decode raw) = frame raw := by
  unfold decodeOne
  split <;> rfl

theorem decodeProtoseq_frame {record : Bytes}
    (hsize : record.length ≤ protoseqMaxRecordBytes) (rest : Bytes) :
    decodeProtoseq decode (frame record ++ rest) =
      decodeOne decode record :: decodeProtoseq decode rest := by
  -- The size fits its four bytes, so it is read back.
  have hread : leNat (leBytes 4 record.length) = record.length := by
    apply leNat_leBytes
    rw [protoseqMaxRecordBytes] at hsize
    omega
  simp only [leBytes] at hread
  simp only [frame, leBytes, cons_append, append_assoc, nil_append]
  rw [decodeProtoseq]
  simp only [hread]
  rw [if_pos ⟨hsize, by simp, by simp⟩, take_left, ← drop_drop, drop_left, drop_left]

variable {bytes : Bytes} {n : ℕ}

theorem take_append_drop_marker (h : (bytes.drop n).take protoseqMagic.length = protoseqMagic) :
    bytes.take n ++ (protoseqMagic ++ bytes.drop (n + protoseqMagic.length)) = bytes := by
  nth_rw 1 [← h]
  rw [← drop_drop, take_append_drop, take_append_drop]

theorem restored_decodeProtoseq (input : Bytes) :
    (decodeProtoseq decode input).flatMap restored = input := by
  fun_induction decodeProtoseq decode input with
  | case1 => rfl
  | case2 a b c d framed size frameEnd hframe ih =>
    obtain ⟨-, hend, hmarker⟩ := hframe
    have hlength : (framed.take size).length = size := length_take_of_le (by omega)
    have hbytes : leBytes 4 size = [a, b, c, d] := leBytes_leNat [a, b, c, d]
    rw [flatMap_cons, ih, restored_decodeOne, frame, hlength, hbytes, append_assoc, append_assoc,
      take_append_drop_marker hmarker]
    rfl
  | case3 a b c d framed size frameEnd hframe sync hsync ih =>
    have hmarker := find?_some hsync
    rw [decide_eq_true_eq] at hmarker
    rw [flatMap_cons, ih]
    simp only [restored, cons_append, append_assoc, take_append_drop_marker hmarker]
  | case4 a b c d framed size frameEnd hframe hsync => simp [restored]
  | case5 remaining hempty hshort => simp [restored]

/-- The frames of records are read into the rows of these records, and every input is read
into rows that account for all its bytes. -/
theorem protoseq_framing :
    (∀ records : List Bytes, (∀ record ∈ records, record.length ≤ protoseqMaxRecordBytes) →
      Forall₂ (RowOf decode) records (decodeProtoseq decode (records.flatMap frame))) ∧
    ∀ input, (decodeProtoseq decode input).flatMap restored = input := by
  refine ⟨?_, restored_decodeProtoseq decode⟩
  intro records hsizes
  induction records with
  | nil =>
    rw [flatMap_nil, decodeProtoseq]
    exact .nil
  | cons record records ih =>
    obtain ⟨hsize, hrest⟩ := forall_mem_cons.mp hsizes
    rw [flatMap_cons, decodeProtoseq_frame decode hsize]
    exact .cons (rowOf_decodeOne decode record) (ih hrest)

/-- A record that is a marker is read behind one that is refused. -/
theorem protoseq_framing_marker :
    let decode := fun raw : Bytes => if raw = [7] then .error "truncated" else .ok raw.length
    decodeProtoseq decode ([[7], protoseqMagic].flatMap frame) =
      [.error ([7], .invalid "truncated"), .ok (32, protoseqMagic)] := by
  intro decode
  have hrows := (protoseq_framing decode).1 [[7], protoseqMagic] (by decide)
  generalize decodeProtoseq decode _ = rows at hrows ⊢
  rcases hrows with _ | ⟨hseven | hseven, _ | ⟨hmarker | hmarker, ⟨⟩⟩⟩ <;>
    cases hseven <;> cases hmarker
  rfl

end Transferia.Protobuf
