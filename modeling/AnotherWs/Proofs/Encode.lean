/-
Module: AnotherWs.Proofs.Encode
Purpose: base64_encode writes the standard encoding, and the string that it returns is terminated.
Trusted boundary: none
Main exports: charArray4_digits, encodeLoop_texted, base64Encode_nil, base64Encode_eq,
  base64Encode_standard
-/
import AnotherWs.Core.Encode
import AnotherWs.Lib.Base64
import Mathlib.Tactic.Positivity

namespace AnotherWs

/-! ### The digits of a group -/

/-- A property of bytes is a property of the 256 values. -/
theorem forall_byte {p : UInt8 → Prop} (values : ∀ n < 256, p (UInt8.ofNat n)) (b : UInt8) : p b := by
  have hvalue := values b.toNat b.toNat_lt
  rw [UInt8.ofNat_toNat] at hvalue
  exact hvalue

theorem upper_six (b : UInt8) : ((b &&& 0xfc) >>> 2).toNat = b.toNat / 4 := by
  revert b
  apply forall_byte
  decide +kernel

theorem lower_two (b : UInt8) : ((b &&& 0x03) <<< 4).toNat = b.toNat % 4 * 16 := by
  revert b
  apply forall_byte
  decide +kernel

theorem upper_four (b : UInt8) : ((b &&& 0xf0) >>> 4).toNat = b.toNat / 16 := by
  revert b
  apply forall_byte
  decide +kernel

theorem lower_four (b : UInt8) : ((b &&& 0x0f) <<< 2).toNat = b.toNat % 16 * 4 := by
  revert b
  apply forall_byte
  decide +kernel

theorem upper_two (b : UInt8) : ((b &&& 0xc0) >>> 6).toNat = b.toNat / 64 := by
  revert b
  apply forall_byte
  decide +kernel

theorem lower_six (b : UInt8) : (b &&& 0x3f).toNat = b.toNat % 64 := by
  revert b
  apply forall_byte
  decide +kernel

/-- The entries of `char_array_4` are the six-bit values of the group. -/
theorem charArray4_toNat (charArray3 : Bytes) (n : Nat)
    (value : Base64.group (charArray3.getD 0 0) (charArray3.getD 1 0) (charArray3.getD 2 0) = n) :
    (charArray4 charArray3).map UInt8.toNat =
      [n / 2 ^ 18, n / 2 ^ 12 % 64, n / 2 ^ 6 % 64, n % 64] := by
  rw [Base64.group] at value
  have hc0 := (charArray3.getD 0 0).toNat_lt
  have hc1 := (charArray3.getD 1 0).toNat_lt
  have hc2 := (charArray3.getD 2 0).toNat_lt
  simp only [charArray4, List.map_cons, List.map_nil, UInt8.toNat_add, upper_six, lower_two,
    upper_four, lower_four, upper_two, lower_six, List.cons_eq_cons]
  refine ⟨?_, ?_, ?_, ?_, trivial⟩
  · omega
  · omega
  · omega
  · omega

theorem charArray4_digits (charArray3 : Bytes) (n : Nat)
    (value : Base64.group (charArray3.getD 0 0) (charArray3.getD 1 0) (charArray3.getD 2 0) = n) :
    (charArray4 charArray3).map (fun v => base64Table.getD v.toNat 0) =
      [Base64.digit (n / 2 ^ 18), Base64.digit (n / 2 ^ 12 % 64), Base64.digit (n / 2 ^ 6 % 64),
        Base64.digit (n % 64)] := by
  have hmap := congrArg (List.map Base64.digit) (charArray4_toNat charArray3 n value)
  rw [List.map_map] at hmap
  exact hmap

/-! ### The buffer as a string -/

/-- Behind the bytes in use there are zeros. -/
def Membuf.Padded (buf : Membuf) : Prop :=
  buf.data.drop buf.size = List.replicate (buf.bufferSize - buf.size) 0

theorem membufInit_padded (n : Nat) : (membufInit n).Padded := rfl

theorem membufReserve_padded {buf buf' : Membuf} {extraSize : Nat} (padded : buf.Padded)
    (reserved : membufReserve buf extraSize = .ok buf') : buf'.Padded := by
  unfold membufReserve at reserved
  split at reserved
  · obtain ⟨newBufferSize, -, reserved⟩ := bind_eq_ok.mp reserved
    split at reserved
    · cases reserved
    · split at reserved
      · cases reserved
        have hdata := buf.data_length
        have hsize := buf.size_le
        show (buf.data.take buf.size ++ List.replicate (newBufferSize - buf.size) 0).drop buf.size =
          List.replicate (newBufferSize - buf.size) 0
        apply List.drop_left'
        rw [List.length_take]
        omega
      · cases reserved
  · cases reserved
    exact padded

/-- Appended bytes go over the first of the zeros. -/
theorem membufAppendData_padded {buf buf' : Membuf} {bytes : Bytes} (padded : buf.Padded)
    (appended : membufAppendData buf bytes = .ok buf') : buf'.Padded := by
  unfold membufAppendData at appended
  split at appended
  · cases appended
    exact padded
  · obtain ⟨mid, reserved, appended⟩ := bind_eq_ok.mp appended
    have hmid := membufReserve_padded padded reserved
    split at appended
    · cases appended
      have hdata := mid.data_length
      have hle := mid.size_le
      have htail : mid.data.drop (mid.size + bytes.length) =
          List.replicate (mid.bufferSize - (mid.size + bytes.length)) 0 := by
        rw [← List.drop_drop, show mid.data.drop mid.size = _ from hmid, List.drop_replicate]
        congr 1
        omega
      show (mid.data.take mid.size ++ bytes ++ mid.data.drop (mid.size + bytes.length)).drop
        (mid.size + bytes.length) = _
      rw [← htail]
      apply List.drop_left'
      rw [List.length_append, List.length_take]
      omega
    · cases appended

/-- A buffer of `unit` bytes that has only grown by doubling, with `text` in it and zeros behind. -/
structure Texted (unit : Nat) (text : Bytes) (ret : Membuf) : Prop where
  content_eq : ret.content = text
  padded : ret.data.drop ret.size = List.replicate (ret.bufferSize - ret.size) 0
  doubled : ∃ j, ret.bufferSize = 2 ^ j * unit

theorem Texted.size_eq {unit : Nat} {text : Bytes} {ret : Membuf} (texted : Texted unit text ret) :
    ret.size = text.length := by
  rw [← texted.content_eq, Membuf.length_content]

theorem membufInit_texted (unit : Nat) : Texted unit [] (membufInit unit) where
  content_eq := membufInit_content unit
  padded := rfl
  doubled := ⟨0, (Nat.one_mul unit).symm⟩

/-- Reserving room doubles the allocation. -/
theorem membufReserve_texted {unit : Nat} {text : Bytes} {ret : Membuf} {extraSize : Nat}
    (texted : Texted unit text ret) (positive : 0 < unit)
    (small : ret.size + extraSize ≤ 2 ^ 31) :
    ∃ ret', membufReserve ret extraSize = .ok ret' ∧ Texted unit text ret' ∧
      ret'.size + extraSize ≤ ret'.bufferSize := by
  obtain ⟨ret', hreserve, hroom, -⟩ := membufReserve_ok small
  obtain ⟨hcontent, hsize, -⟩ := membufReserve_content hreserve
  refine ⟨ret', hreserve, ⟨hcontent.trans texted.content_eq,
    membufReserve_padded texted.padded hreserve, ?_⟩, by omega⟩
  obtain ⟨j, hj⟩ := texted.doubled
  have hpositive : 0 < ret.bufferSize := by
    rw [hj]
    positivity
  obtain ⟨i, hi⟩ := membufReserve_bufferSize hpositive small hreserve
  refine ⟨i + j, ?_⟩
  rw [hi, hj]
  ring

theorem membufAppendData_texted {unit : Nat} {text : Bytes} {ret : Membuf} (bytes : Bytes)
    (texted : Texted unit text ret) (positive : 0 < unit)
    (small : (text ++ bytes).length ≤ 2 ^ 31) :
    ∃ ret', membufAppendData ret bytes = .ok ret' ∧ Texted unit (text ++ bytes) ret' := by
  rw [List.length_append, ← texted.size_eq] at small
  by_cases hnil : bytes = []
  · refine ⟨ret, by rw [membufAppendData, if_pos hnil], ?_⟩
    rw [hnil, List.append_nil]
    exact texted
  obtain ⟨mid, hreserve, hmid, hroom⟩ := membufReserve_texted texted positive small
  obtain ⟨ret', happend, -⟩ := membufAppendData_ok ret bytes small
  obtain ⟨hcontent, -⟩ := membufAppendData_content happend
  rw [texted.content_eq] at hcontent
  refine ⟨ret', happend, hcontent, membufAppendData_padded texted.padded happend, ?_⟩
  rw [membufAppendData, if_neg hnil, hreserve, ok_bind, dif_pos hroom] at happend
  cases happend
  exact hmid.doubled

/-- Characters that are appended one at a time. -/
theorem appendEach_texted {unit : Nat} {text : Bytes} {ret : Membuf} (chars : Bytes)
    (texted : Texted unit text ret) (positive : 0 < unit)
    (small : (text ++ chars).length ≤ 2 ^ 31) :
    ∃ ret', appendEach ret chars = .ok ret' ∧ Texted unit (text ++ chars) ret' := by
  induction chars generalizing ret text with
  | nil => exact ⟨ret, rfl, by rw [List.append_nil]; exact texted⟩
  | cons c rest ih =>
      rw [List.append_cons] at small ⊢
      have hone : (text ++ [c]).length ≤ 2 ^ 31 := by
        rw [List.length_append] at small
        omega
      obtain ⟨mid, happend, hmid⟩ := membufAppendData_texted [c] texted positive hone
      obtain ⟨ret', hrest, hret⟩ := ih hmid small
      exact ⟨ret', by rw [appendEach, happend, ok_bind, hrest], hret⟩

/-! ### The loop -/

/-- What the loop has written and what it still holds encode together what it has read. -/
theorem encodeLoop_texted {unit : Nat} {text charArray3 : Bytes} {ret : Membuf} (bytes : Bytes)
    (texted : Texted unit text ret) (positive : 0 < unit) (held : charArray3.length < 3)
    (small : (text ++ Base64.encode (charArray3 ++ bytes)).length ≤ 2 ^ 31) :
    ∃ ret' charArray3' text', encodeLoop ret charArray3 bytes = .ok (ret', charArray3') ∧
      charArray3'.length < 3 ∧ Texted unit text' ret' ∧
      text' ++ Base64.encode charArray3' = text ++ Base64.encode (charArray3 ++ bytes) := by
  induction bytes generalizing ret text charArray3 with
  | nil => exact ⟨ret, charArray3, text, rfl, held, texted, by rw [List.append_nil]⟩
  | cons byte rest ih =>
      have hmove : charArray3 ++ byte :: rest = charArray3 ++ [byte] ++ rest := List.append_cons ..
      rw [hmove] at small ⊢
      rw [encodeLoop]
      by_cases hfull : (charArray3 ++ [byte]).length = 3
      · obtain ⟨b₀, b₁, b₂, hgroup⟩ := List.length_eq_three.mp hfull
        have hdigits := charArray4_digits (charArray3 ++ [byte]) _ rfl
        have hencode : Base64.encode (charArray3 ++ [byte] ++ rest) =
            (charArray4 (charArray3 ++ [byte])).map (fun v => base64Table.getD v.toNat 0) ++
              Base64.encode rest := by
          rw [hdigits, hgroup]
          rfl
        rw [hencode, ← List.append_assoc] at small ⊢
        have hfour : ((charArray4 (charArray3 ++ [byte])).take 4) =
            charArray4 (charArray3 ++ [byte]) := rfl
        obtain ⟨mid, happend, hmid⟩ := appendEach_texted _ texted positive
          (by rw [List.length_append] at small; exact Nat.le_trans (Nat.le_add_right _ _) small)
        have hempty : ([] : Bytes).length < 3 := Nat.zero_lt_succ 2
        obtain ⟨ret', last, text', hrest, hheld, hret, hsame⟩ := ih hmid hempty small
        refine ⟨ret', last, text', ?_, hheld, hret, hsame⟩
        simp only [hfull, if_true, appendDigits, hfour, happend, ok_bind]
        exact hrest
      · have hheld : (charArray3 ++ [byte]).length < 3 := by
          rw [List.length_append, List.length_singleton] at hfull ⊢
          omega
        simp only [hfull, if_false]
        exact ih texted hheld small

/-- The bytes that are left over go out with padding. -/
theorem encode_leftover {charArray3 : Bytes} (held : charArray3.length < 3)
    (some_held : charArray3 ≠ []) :
    Base64.encode charArray3 =
      ((charArray4 charArray3).take (charArray3.length + 1)).map
          (fun v => base64Table.getD v.toNat 0) ++
        List.replicate (3 - charArray3.length) base64End := by
  rw [List.map_take]
  match charArray3, held, some_held with
  | [b₀], _, _ =>
      rw [charArray4_digits _ _ rfl]
      rfl
  | [b₀, b₁], _, _ =>
      rw [charArray4_digits _ _ rfl]
      rfl

/-- The whole encoding is in the buffer. -/
theorem encodeInto_texted {bytes : Bytes} (positive : 0 < bytes.length)
    (small : bytes.length * 3 < 2 ^ 32) :
    ∃ ret, encodeInto bytes = .ok ret ∧
      Texted (bytes.length * 3) (Base64.encode bytes) ret := by
  have hunit : bytes.length * 3 % 2 ^ 32 = bytes.length * 3 := Nat.mod_eq_of_lt small
  have hlength : (Base64.encode bytes).length ≤ 2 ^ 31 := by
    rw [Base64.length_encode]
    omega
  have hpositive : 0 < bytes.length * 3 := by omega
  have hempty : ([] : Bytes).length < 3 := Nat.zero_lt_succ 2
  obtain ⟨ret, held, text, hloop, hheld, hret, hsame⟩ :=
    encodeLoop_texted bytes (membufInit_texted (bytes.length * 3)) hpositive hempty hlength
  rw [List.nil_append, List.nil_append] at hsame
  simp only [encodeInto, hunit, hloop, ok_bind]
  by_cases hnil : held = []
  · rw [hnil] at hsame
    simp only [Base64.encode, List.append_nil] at hsame
    rw [if_neg (not_not_intro hnil), ← hsame]
    exact ⟨ret, rfl, hret⟩
  · rw [if_pos hnil]
    rw [encode_leftover hheld hnil, ← List.append_assoc] at hsame
    rw [← hsame] at hlength ⊢
    obtain ⟨mid, hdigits, hmid⟩ := appendEach_texted _ hret hpositive
      (by rw [List.length_append] at hlength; exact Nat.le_trans (Nat.le_add_right _ _) hlength)
    obtain ⟨last, hpadding, hlast⟩ := appendEach_texted _ hmid hpositive hlength
    refine ⟨last, ?_, hlast⟩
    rw [appendDigits, hdigits, ok_bind, hpadding]

theorem base64Encode_nil : base64Encode [] = .ok none := rfl

/-- A zero stands behind the encoding, inside the buffer. -/
theorem encodeInto_terminated {bytes : Bytes} (positive : 0 < bytes.length)
    (small : bytes.length * 3 < 2 ^ 32) :
    ∃ ret k, encodeInto bytes = .ok ret ∧ ret.size = (Base64.encode bytes).length ∧
      ret.data = Base64.encode bytes ++ 0 :: List.replicate k 0 := by
  obtain ⟨ret, hret, htexted⟩ := encodeInto_texted positive small
  have hlen := htexted.size_eq
  have hsize := hlen
  rw [Base64.length_encode] at hsize
  -- three times the input doubled is never exactly full
  have hroom : ret.size < ret.bufferSize := by
    obtain ⟨j, hj⟩ := htexted.doubled
    have hle := ret.size_le
    rcases Nat.eq_zero_or_pos j with hzero | hpos
    · rw [hzero, Nat.pow_zero, Nat.one_mul] at hj
      omega
    · have htwo : 2 ≤ 2 ^ j := Nat.le_self_pow (by omega) 2
      have hmul : 2 * (bytes.length * 3) ≤ 2 ^ j * (bytes.length * 3) :=
        Nat.mul_le_mul_right _ htwo
      omega
  obtain ⟨k, hk⟩ : ∃ k, ret.bufferSize - ret.size = k + 1 :=
    ⟨ret.bufferSize - ret.size - 1, by omega⟩
  refine ⟨ret, k, hret, hlen, ?_⟩
  rw [← htexted.content_eq, ← List.replicate_succ, ← hk, ← htexted.padded, Membuf.content,
    List.take_append_drop]

/-- The string that `base64_encode` returns is the standard encoding. -/
theorem base64Encode_eq {bytes : Bytes} (positive : 0 < bytes.length)
    (small : bytes.length * 3 < 2 ^ 32) :
    base64Encode bytes = .ok (some (Base64.encode bytes)) := by
  obtain ⟨ret, k, hret, -, hdata⟩ := encodeInto_terminated positive small
  have hcap := ret.data_length
  rw [hdata, List.length_append, List.length_cons] at hcap
  have htext : 0 ∉ Base64.encode bytes := by
    intro hmem
    have hnone : (0 : UInt8) ∉ Base64.text := by decide
    exact hnone (Base64.encode_text bytes 0 hmem)
  rw [base64Encode, hret, ok_bind, if_neg (by omega), hdata, cString_start htext, ok_bind]

/-- **`base64_encode`** returns the standard encoding: four characters for each group of three
bytes, and the zero behind them stands inside the buffer. -/
theorem base64Encode_standard {bytes : Bytes} (nonempty : bytes ≠ [])
    (small : 3 * bytes.length < 2 ^ 32) :
    ∃ ret, encodeInto bytes = .ok ret ∧ base64Encode bytes = .ok (some (Base64.encode bytes)) ∧
      (Base64.encode bytes).length = 4 * ((bytes.length + 2) / 3) ∧
      ret.data.take (4 * ((bytes.length + 2) / 3)) = Base64.encode bytes ∧
      ret.data[4 * ((bytes.length + 2) / 3)]? = some 0 ∧
      4 * ((bytes.length + 2) / 3) < ret.bufferSize := by
  have hpositive := List.length_pos_iff.mpr nonempty
  have hlen := Base64.length_encode bytes
  obtain ⟨ret, k, hret, -, hdata⟩ := encodeInto_terminated hpositive (by omega)
  have hzero : ret.data[(Base64.encode bytes).length]? = some 0 := by
    rw [hdata, List.getElem?_append_right (Nat.le_refl _), Nat.sub_self, List.getElem?_cons_zero]
  obtain ⟨hinside, -⟩ := List.getElem?_eq_some_iff.mp hzero
  rw [ret.data_length] at hinside
  refine ⟨ret, hret, base64Encode_eq hpositive (by omega), hlen, ?_, hlen ▸ hzero, hlen ▸ hinside⟩
  rw [← hlen, hdata, List.take_left]

/-- One round of the loop over three bytes, and two bytes behind it. -/
theorem base64Encode_standard_five :
    ascii "Hello" ≠ [] ∧ 3 * (ascii "Hello").length < 2 ^ 32 ∧
    Base64.encode (ascii "Hello") = ascii "SGVsbG8=" ∧
    ∃ ret, encodeInto (ascii "Hello") = .ok ret ∧
      base64Encode (ascii "Hello") = .ok (some (Base64.encode (ascii "Hello"))) ∧
      (Base64.encode (ascii "Hello")).length = 4 * (((ascii "Hello").length + 2) / 3) ∧
      ret.data.take (4 * (((ascii "Hello").length + 2) / 3)) = Base64.encode (ascii "Hello") ∧
      ret.data[4 * (((ascii "Hello").length + 2) / 3)]? = some 0 ∧
      4 * (((ascii "Hello").length + 2) / 3) < ret.bufferSize :=
  ⟨by decide, by decide, by decide, base64Encode_standard (by decide) (by decide)⟩

end AnotherWs
