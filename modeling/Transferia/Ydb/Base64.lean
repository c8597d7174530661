import Transferia.Support.Checked

/-!
# Base64 texts of the change feed

Binary columns arrive as padded base64.  The decoder accepts the standard text of
every byte string and no other text.  Shifts and masks of digits are products,
quotients and remainders by powers of two.
-/

namespace Transferia.Ydb.Base64
open List Support
open UInt8 (ofNat toNat_inj toNat_ofNat')

abbrev Bytes := List UInt8

abbrev pad : UInt8 := 61

def base64Digit (value : UInt8) : Except String ℕ :=
  if 65 ≤ value ∧ value ≤ 90 then .ok (value - 65).toNat
  else if 97 ≤ value ∧ value ≤ 122 then .ok (value - 97 + 26).toNat
  else if 48 ≤ value ∧ value ≤ 57 then .ok (value - 48 + 52).toNat
  else if value = 43 then .ok 62
  else if value = 47 then .ok 63
  else
    let hex := String.ofList (leftpad 2 '0' (Nat.toDigits 16 value.toNat))
    .error s!"invalid standard-base64 byte 0x{hex}"

def decodeGroup (last : Bool) (a b c d : UInt8) : Except String Bytes :=
  if a = pad ∨ b = pad then .error "base64 padding appears before enough input"
  else if !last ∧ (c = pad ∨ d = pad) then
    .error "base64 padding appears before the final group"
  else do
    let first ← base64Digit a
    let second ← base64Digit b
    let output := [ofNat (first * 4 + second / 16)]
    if c = pad then
      if d ≠ pad then .error "base64 has invalid padding order"
      else if second % 16 ≠ 0 then .error "base64 has non-zero unused bits"
      else .ok output
    else do
      let third ← base64Digit c
      let output := output ++ [ofNat (second * 16 + third / 4)]
      if d = pad then
        if third % 4 ≠ 0 then .error "base64 has non-zero unused bits" else .ok output
      else do
        let fourth ← base64Digit d
        .ok (output ++ [ofNat (third * 64 + fourth)])

def decodeGroups : Bytes → Except String Bytes
  | a :: b :: c :: d :: rest => do
    let group ← decodeGroup rest.isEmpty a b c d
    let output ← decodeGroups rest
    .ok (group ++ output)
  | _ => .ok []

/-- At most two paddings never exceed the decoded length, so the subtraction is exact. -/
def decodeBase64 (input : Bytes) : Except String Bytes :=
  let padding := (input.reverse.takeWhile (· == pad)).length
  if input.length % 4 ≠ 0 then .error "base64 length is not divisible by four"
  else if 2 < padding then .error "base64 has invalid padding"
  else do
    let output ← decodeGroups input
    if output.length ≠ input.length / 4 * 3 - padding then
      .error "base64 decoded length does not match its padding"
    else .ok output

def symbol (digit : ℕ) : UInt8 :=
  ("ABCDEFGHIJKLMNOPQRSTUVWXYZabcdefghijklmnopqrstuvwxyz0123456789+/".toList.getD digit 'A').toUInt8

/-- Three bytes are 24 bits, and every six of them are a digit. -/
def symbols (a b c : UInt8) : Bytes :=
  let bits := a.toNat * 2 ^ 16 + b.toNat * 2 ^ 8 + c.toNat
  [symbol (bits / 2 ^ 18), symbol (bits / 2 ^ 12 % 64), symbol (bits / 2 ^ 6 % 64),
    symbol (bits % 64)]

def encode : Bytes → Bytes
  | [] => []
  | [a] => (symbols a 0 0).take 2 ++ [pad, pad]
  | [a, b] => (symbols a b 0).take 3 ++ [pad]
  | a :: b :: c :: rest => symbols a b c ++ encode rest

theorem base64Digit_symbol : ∀ digit < 64, base64Digit (symbol digit) = .ok digit := by
  decide +kernel

theorem symbol_ne_pad (digit : ℕ) : symbol digit ≠ pad := by
  by_cases hdigit : digit < 64
  · revert digit
    decide +kernel
  · rw [symbol, getD_eq_default _ _ (Nat.not_lt.mp hdigit)]
    decide

theorem symbol_of_base64Digit {value : UInt8} {digit : ℕ} (h : base64Digit value = .ok digit) :
    digit < 64 ∧ value = symbol digit := by
  have hall : ∀ bits :
      BitVec 8, ∀ digit ∈ (base64Digit ⟨bits⟩).toOption, digit < 64 ∧ ⟨bits⟩ = symbol digit := by
    decide +kernel
  exact hall value.toBitVec digit (toOption_eq_some.mpr h)

theorem symbols_eq {x y z : UInt8} {f s t u : ℕ} (hs : s < 64) (ht : t < 64) (hu : u < 64)
    (hbits :
      x.toNat * 2 ^ 16 + y.toNat * 2 ^ 8 + z.toNat = f * 2 ^ 18 + s * 2 ^ 12 + t * 2 ^ 6 + u) :
    symbols x y z = [symbol f, symbol s, symbol t, symbol u] := by
  rw [symbols, hbits]
  generalize hsum : f * 2 ^ 18 + s * 2 ^ 12 + t * 2 ^ 6 + u = bits
  have hfirst : bits / 2 ^ 18 = f := by omega
  have hsecond : bits / 2 ^ 12 % 64 = s := by omega
  have hthird : bits / 2 ^ 6 % 64 = t := by omega
  have hfourth : bits % 64 = u := by omega
  rw [hfirst, hsecond, hthird, hfourth]

theorem exists_digits (x y z : UInt8) :
    ∃ f < 64, ∃ s < 64, ∃ t < 64, ∃ u < 64,
    symbols x y z = [symbol f, symbol s, symbol t, symbol u] ∧ ofNat (f * 4 + s / 16) = x ∧
    ofNat (s * 16 + t / 4) = y ∧ ofNat (t * 64 + u) = z ∧ (y = 0 → s % 16 = 0) ∧
    (z = 0 → t % 4 = 0) := by
  have hx := x.toNat_lt
  have hy := y.toNat_lt
  have hz := z.toNat_lt
  generalize hbits : x.toNat * 2 ^ 16 + y.toNat * 2 ^ 8 + z.toNat = bits
  have hf : bits / 2 ^ 18 < 64 := by omega
  have hs : bits / 2 ^ 12 % 64 < 64 := by omega
  have ht : bits / 2 ^ 6 % 64 < 64 := by omega
  have hu : bits % 64 < 64 := by omega
  refine ⟨_, hf, _, hs, _, ht, _, hu, by rw [symbols, hbits], ?_, ?_, ?_, ?_, ?_⟩
  iterate 3
    · apply toNat_inj.mp
      rw [toNat_ofNat']
      omega
  · rintro rfl
    rw [UInt8.toNat_zero] at hbits
    omega
  · rintro rfl
    rw [UInt8.toNat_zero] at hbits
    omega

section
variable {last : Bool} {a b c d : UInt8} {output : Bytes}

theorem encode_of_decodeGroup (h : decodeGroup last a b c d = .ok output) :
    encode output = [a, b, c, d] ∧ (last = false → output.length = 3) := by
  unfold decodeGroup at h
  split at h
  · cases h
  split at h
  · cases h
  next hearly =>
  obtain ⟨f, hoka, h⟩ := of_bind h
  obtain ⟨s, hokb, h⟩ := of_bind h
  obtain ⟨hf, ha⟩ := symbol_of_base64Digit hoka
  obtain ⟨hs, hb⟩ := symbol_of_base64Digit hokb
  split at h
  next hc =>
    split at h
    · cases h
    next hd =>
    split at h
    · cases h
    next hzero =>
    cases h
    refine ⟨?_, by grind⟩
    rw [encode, @symbols_eq _ 0 0 f s 0 0 hs (by decide) (by decide)
      (by rw [toNat_ofNat', UInt8.toNat_zero]; omega), ha, hb, hc, not_not.mp hd]
    rfl
  next =>
  obtain ⟨t, hokc, h⟩ := of_bind h
  obtain ⟨ht, hc⟩ := symbol_of_base64Digit hokc
  split at h
  next hd =>
    split at h
    · cases h
    next hzero =>
    cases h
    refine ⟨?_, by grind⟩
    rw [singleton_append, encode, @symbols_eq _ _ 0 f s t 0 hs ht (by decide)
      (by rw [toNat_ofNat', toNat_ofNat', UInt8.toNat_zero]; omega), ha, hb, hc, hd]
    rfl
  next =>
  obtain ⟨u, hokd, h⟩ := of_bind h
  obtain ⟨hu, hd⟩ := symbol_of_base64Digit hokd
  cases h
  refine ⟨?_, fun _ => rfl⟩
  rw [singleton_append, cons_append, singleton_append, encode,
    @symbols_eq _ _ _ f s t u hs ht hu
      (by rw [toNat_ofNat', toNat_ofNat', toNat_ofNat']; omega), ha, hb, hc, hd]
  rfl

theorem decodeGroup_encode (hlen : output.length ≤ 3) (h : encode output = [a, b, c, d])
    (hlast : last = false → output.length = 3) : decodeGroup last a b c d = .ok output := by
  match output with
  | [] => cases h
  | [x] =>
    obtain ⟨f, hf, s, hs, t, -, u, -, hbits, hx, -, -, hzero, -⟩ := exists_digits x 0 0
    rw [encode, hbits] at h
    cases h
    cases last with
    | false => cases hlast rfl
    | true =>
      simp [decodeGroup, base64Digit_symbol, symbol_ne_pad, hf, hs, hzero, hx, bind, Except.bind]
  | [x, y] =>
    obtain ⟨f, hf, s, hs, t, ht, u, -, hbits, hx, hy, -, -, hzero⟩ := exists_digits x y 0
    rw [encode, hbits] at h
    cases h
    cases last with
    | false => cases hlast rfl
    | true =>
      simp [decodeGroup, base64Digit_symbol, symbol_ne_pad, hf, hs, ht, hzero,
        hx, hy, bind, Except.bind]
  | [x, y, z] =>
    obtain ⟨f, hf, s, hs, t, ht, u, hu, hbits, hx, hy, hz, -⟩ := exists_digits x y z
    rw [encode, hbits] at h
    cases h
    simp [decodeGroup, base64Digit_symbol, symbol_ne_pad, hf, hs, ht, hu, hx, hy, hz, bind,
      Except.bind]
  | x :: y :: z :: w :: rest => simp only [length_cons] at hlen; omega

end

theorem encode_of_decodeGroups {input output : Bytes} (h : decodeGroups input = .ok output)
    (hlen : input.length % 4 = 0) : encode output = input := by
  induction input using decodeGroups.induct generalizing output with
  | case1 a b c d rest ih =>
    obtain ⟨group, hgroup, h⟩ := of_bind h
    obtain ⟨others, hothers, h⟩ := of_bind h
    cases h
    obtain ⟨he, hfull⟩ := encode_of_decodeGroup hgroup
    have hrest := ih hothers (by simp at hlen; omega)
    cases rest with
    | nil =>
      cases hothers
      rw [append_nil, he]
    | cons e rest =>
      obtain ⟨x, y, z, rfl⟩ := length_eq_three.mp (hfull rfl)
      rw [encode, encode, append_nil] at he
      rw [cons_append, cons_append, singleton_append, encode, he, hrest]
      rfl
  | case2 input hshort =>
    rcases input with _ | ⟨a, _ | ⟨b, _ | ⟨c, _ | ⟨d, rest⟩⟩⟩⟩
    · cases h
      rfl
    · cases hlen
    · cases hlen
    · cases hlen
    · exact absurd rfl (hshort a b c d rest)

theorem decodeGroups_encode (bytes : Bytes) : decodeGroups (encode bytes) = .ok bytes := by
  induction bytes using encode.induct with
  | case1 => rfl
  | case2 a =>
    change decodeGroups [_, _, _, _] = _
    rw [decodeGroups, @decodeGroup_encode _ _ _ _ _ [a] (by simp) rfl (by simp)]
    rfl
  | case3 a b =>
    change decodeGroups [_, _, _, _] = _
    rw [decodeGroups, @decodeGroup_encode _ _ _ _ _ [a, b] (by simp) rfl (by simp)]
    rfl
  | case4 a b c rest ih =>
    change decodeGroups (_ :: _ :: _ :: _ :: encode rest) = _
    rw [decodeGroups, @decodeGroup_encode _ _ _ _ _ [a, b, c] (by simp) rfl (by simp), ih]
    rfl

theorem encode_shape (bytes : Bytes) :
    ∃ body k, encode bytes = body ++ replicate k pad ∧ pad ∉ body ∧ k ≤ 2 ∧
    (body.length + k) % 4 = 0 ∧ bytes.length = (body.length + k) / 4 * 3 - k := by
  induction bytes using encode.induct with
  | case1 => exact ⟨[], 0, rfl, by simp, by simp⟩
  | case2 a => exact ⟨_, 2, rfl, by simp [symbols, (symbol_ne_pad _).symm], by simp [symbols]⟩
  | case3 a b => exact ⟨_, 1, rfl, by simp [symbols, (symbol_ne_pad _).symm], by simp [symbols]⟩
  | case4 a b c rest ih =>
    obtain ⟨body, k, hencode, hbody, hk, hfour, hlen⟩ := ih
    refine ⟨symbols a b c ++ body, k, by rw [encode, hencode, append_assoc], ?_, hk, ?_⟩
    · simpa [symbols, (symbol_ne_pad _).symm] using hbody
    simp only [length_append, length_cons, symbols, length_nil]
    omega

theorem decodeBase64_encode (bytes : Bytes) : decodeBase64 (encode bytes) = .ok bytes := by
  obtain ⟨body, k, he, hbody, hk, hfour, hlen⟩ := encode_shape bytes
  have hnone : body.reverse.takeWhile (· == pad) = [] := by
    cases hr : body.reverse with
    | nil => rfl
    | cons value rest =>
      have hmem : value ∈ body := mem_reverse.mp (hr ▸ mem_cons_self)
      have hne : value ≠ pad := ne_of_mem_of_not_mem hmem hbody
      simp [hne]
  have hpadding : ((encode bytes).reverse.takeWhile (· == pad)).length = k := by
    rw [he, reverse_append, reverse_replicate, takeWhile_append_of_pos (by simp), hnone,
      append_nil, length_replicate]
  have hlength : (encode bytes).length = body.length + k := by
    rw [he, length_append, length_replicate]
  simp [decodeBase64, hpadding, hlength, hfour, hk, decodeGroups_encode, ← hlen, bind, Except.bind]

theorem encode_of_decodeBase64 {input output : Bytes} (h : decodeBase64 input = .ok output) :
    input = encode output := by
  unfold decodeBase64 at h
  dsimp only at h
  split at h
  · cases h
  next hfour =>
  split at h
  · cases h
  obtain ⟨decoded, hdecoded, h⟩ := of_bind h
  split at h
  · cases h
  cases h
  exact (encode_of_decodeGroups hdecoded (not_not.mp hfour)).symm

/-- The decoder accepts exactly the standard text of every byte string. -/
theorem decodeBase64_canonical :
    (∀ input output, decodeBase64 input = .ok output ↔ input = encode output) ∧
    (∀ first second output, decodeBase64 first = .ok output → decodeBase64 second = .ok output →
      first = second) ∧
    ∀ output, ∃ input, decodeBase64 input = .ok output := by
  refine ⟨fun input output => ⟨encode_of_decodeBase64, ?_⟩, ?_,
    fun output => ⟨_, decodeBase64_encode output⟩⟩
  · rintro rfl
    exact decodeBase64_encode output
  · intro first second output hfirst hsecond
    rw [encode_of_decodeBase64 hfirst, encode_of_decodeBase64 hsecond]

end Transferia.Ydb.Base64
