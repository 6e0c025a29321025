/-
Module: AnotherWs.Spec.WireFrame
Purpose: Frames as a conformant peer writes them, and how the frame grammar reads them.
Trusted boundary: none
Main exports: WireFrame, WireFrame.encode, WireFrame.scan_encode, WireFrame.frameContent_encode
-/
import AnotherWs.Spec.FrameGrammar
import AnotherWs.Core.Encoder

namespace AnotherWs

open Framing

/-- There are opcodes, so they have numerals. -/
instance neZero_opcode : NeZero (16 : Nat) := ⟨by decide⟩

/-- A frame as its sender sees it. The reserved bits are zero. -/
structure WireFrame where
  fin : Bool
  op : Fin 16
  key : Option (Fin 4 → UInt8)
  payload : Bytes

namespace WireFrame

/-- The 7-bit length. -/
def shortLength (n : Nat) : Nat := if n ≤ 125 then n else if n ≤ 65535 then 126 else 127

/-- The extended length, in the fewest bytes. -/
def longLength (n : Nat) : Bytes :=
  if n ≤ 125 then []
  else if n ≤ 65535 then writeTwoByteLength n
  else writeFourByteLength (n / 2 ^ 32) ++ writeFourByteLength n

/-- The masking key on the wire. -/
def keyBytes : Option (Fin 4 → UInt8) → Bytes
  | none => []
  | some key => [key 0, key 1, key 2, key 3]

/-- The payload on the wire. -/
def maskPayload : Option (Fin 4 → UInt8) → Bytes → Bytes
  | none, payload => payload
  | some key, payload => doMask payload key

/-- The first byte: FIN, three reserved bits, and the opcode. -/
def firstByte (f : WireFrame) : UInt8 := UInt8.ofNat ((if f.fin then 128 else 0) + f.op.val)

/-- The second byte: MASK and the 7-bit length. -/
def secondByte (f : WireFrame) : UInt8 :=
  UInt8.ofNat ((if f.key.isSome then 128 else 0) + shortLength f.payload.length)

/-- Everything before the payload. -/
def header (f : WireFrame) : Bytes :=
  [f.firstByte, f.secondByte] ++ longLength f.payload.length ++ keyBytes f.key

/-- The frame on the wire. -/
def encode (f : WireFrame) : Bytes := f.header ++ maskPayload f.key f.payload

/-! ### Sizes -/

theorem shortLength_lt (n : Nat) : shortLength n < 128 := by
  unfold shortLength
  split
  · omega
  · split <;> omega

@[simp] theorem maskPayload_length (key : Option (Fin 4 → UInt8)) (payload : Bytes) :
    (maskPayload key payload).length = payload.length := by
  cases key <;> simp [maskPayload, doMask]

theorem keyBytes_length (key : Option (Fin 4 → UInt8)) :
    (keyBytes key).length = if key.isSome then 4 else 0 := by
  cases key <;> rfl

theorem encode_length (f : WireFrame) : f.encode.length = f.header.length + f.payload.length := by
  rw [encode, List.length_append, maskPayload_length]

theorem two_le_header (f : WireFrame) : 2 ≤ f.header.length := by
  simp only [header, List.length_append, List.length_cons, List.length_nil]
  omega

/-! ### How the grammar reads a frame

`x` is whatever follows the frame on the stream. -/

section Reading

variable (f : WireFrame) (x : Bytes)

theorem byteAt_first : byteAt (f.encode ++ x) 0 = f.firstByte := rfl

theorem byteAt_second : byteAt (f.encode ++ x) 1 = f.secondByte := rfl

theorem secondByte_toNat :
    f.secondByte.toNat = (if f.key.isSome then 128 else 0) + shortLength f.payload.length := by
  have hlt := shortLength_lt f.payload.length
  rw [secondByte, UInt8.toNat_ofNat', Nat.mod_eq_of_lt]
  split <;> omega

theorem firstByte_toNat : f.firstByte.toNat = (if f.fin then 128 else 0) + f.op.val := by
  have hlt := f.op.isLt
  rw [firstByte, UInt8.toNat_ofNat', Nat.mod_eq_of_lt]
  split <;> omega

theorem opcode_encode : opcode (f.encode ++ x) = f.op.val := by
  have hlt := f.op.isLt
  rw [opcode, byteAt_first, firstByte_toNat]
  split <;> omega

theorem isFinal_encode : isFinal (f.encode ++ x) = f.fin := by
  have hlt := f.op.isLt
  rw [isFinal, byteAt_first, firstByte_toNat]
  cases f.fin with
  | true => simp
  | false =>
      simp only [Bool.false_eq_true, if_false, Nat.zero_add, decide_eq_false_iff_not]
      omega

theorem keyed_encode : keyed (f.encode ++ x) = f.key.isSome := by
  have hlt := shortLength_lt f.payload.length
  rw [keyed, byteAt_second, secondByte_toNat]
  cases f.key.isSome with
  | true => simp
  | false =>
      simp only [Bool.false_eq_true, if_false, Nat.zero_add, decide_eq_false_iff_not]
      omega

theorem lengthField_encode : lengthField (f.encode ++ x) = shortLength f.payload.length := by
  have hlt := shortLength_lt f.payload.length
  rw [lengthField, byteAt_second, secondByte_toNat]
  split <;> omega

theorem lengthSize_encode :
    lengthSize (f.encode ++ x) = (longLength f.payload.length).length := by
  rw [lengthSize, lengthField_encode]
  unfold shortLength longLength
  by_cases hshort : f.payload.length ≤ 125
  · simp only [if_pos hshort, if_pos (show f.payload.length < 126 by omega), List.length_nil]
  · by_cases hword : f.payload.length ≤ 65535
    · simp [hshort, hword, writeTwoByteLength]
    · simp [hshort, hword, writeFourByteLength]

theorem keyStart_encode :
    keyStart (f.encode ++ x) = 2 + (longLength f.payload.length).length := by
  rw [keyStart, lengthSize_encode]

theorem headerLen_encode : headerLen (f.encode ++ x) = f.header.length := by
  rw [headerLen, keyStart_encode, keyed_encode, header, List.length_append, List.length_append,
    keyBytes_length]
  rfl

/-- The bytes behind the first two. -/
theorem byteAt_long (i : Nat) (h : i < (longLength f.payload.length).length) :
    byteAt (f.encode ++ x) (2 + i) = byteAt (longLength f.payload.length) i := by
  have hsplit : f.encode ++ x = [f.firstByte, f.secondByte] ++ (longLength f.payload.length ++
      (keyBytes f.key ++ maskPayload f.key f.payload ++ x)) := by
    simp [encode, header]
  rw [hsplit, ← byteAt_drop, List.drop_left' (by rfl), byteAt_append _ h]

theorem writeTwoByteLength_read {n : Nat} (h : n < 2 ^ 16) :
    twoBytesAt (writeTwoByteLength n) 0 = n := by
  simp only [twoBytesAt, writeTwoByteLength, byteAt, List.getD_cons_zero, List.getD_cons_succ,
    UInt8.toNat_ofNat']
  omega

theorem writeFourByteLength_read (n : Nat) :
    fourBytesAt (writeFourByteLength n) 0 = n % 2 ^ 32 := by
  simp only [fourBytesAt, writeFourByteLength, byteAt, List.getD_cons_zero, List.getD_cons_succ,
    UInt8.toNat_ofNat']
  omega

/-- The two halves of a 64-bit length. -/
theorem fourBytesAt_encode (h : 65535 < f.payload.length) :
    fourBytesAt (f.encode ++ x) 2 = f.payload.length / 2 ^ 32 % 2 ^ 32 ∧
      fourBytesAt (f.encode ++ x) 6 = f.payload.length % 2 ^ 32 := by
  have hlong : longLength f.payload.length =
      writeFourByteLength (f.payload.length / 2 ^ 32) ++ writeFourByteLength f.payload.length := by
    rw [longLength, if_neg (by omega), if_neg (by omega)]
  have hat : ∀ i < 8, byteAt (f.encode ++ x) (2 + i) =
      byteAt (writeFourByteLength (f.payload.length / 2 ^ 32) ++
        writeFourByteLength f.payload.length) i := by
    intro i hi
    rw [byteAt_long f x i (by rw [hlong]; exact hi), hlong]
  constructor
  · rw [← writeFourByteLength_read]
    simp only [fourBytesAt]
    rw [show (2 : Nat) = 2 + 0 from rfl, hat 0 (by omega)]
    simp only [Nat.add_assoc]
    rw [hat 1 (by omega), hat 2 (by omega), hat 3 (by omega)]
    rfl
  · rw [← writeFourByteLength_read]
    simp only [fourBytesAt]
    rw [show (6 : Nat) = 2 + 4 from rfl, hat 4 (by omega)]
    simp only [Nat.add_assoc]
    rw [hat 5 (by omega), hat 6 (by omega), hat 7 (by omega)]
    rfl

theorem payloadSize_encode (h : f.payload.length < 2 ^ 32) :
    payloadSize (f.encode ++ x) = f.payload.length := by
  rw [payloadSize, lengthField_encode]
  unfold shortLength
  by_cases hshort : f.payload.length ≤ 125
  · simp only [if_pos hshort, if_pos (show f.payload.length < 126 by omega)]
  · by_cases hword : f.payload.length ≤ 65535
    · have hlong : longLength f.payload.length = writeTwoByteLength f.payload.length := by
        rw [longLength, if_neg hshort, if_pos hword]
      have hzero := byteAt_long f x 0 (by rw [hlong]; exact Nat.zero_lt_two)
      have hone := byteAt_long f x 1 (by rw [hlong]; exact Nat.one_lt_two)
      rw [hlong] at hzero hone
      have hread : twoBytesAt (f.encode ++ x) 2 = f.payload.length := by
        conv => rhs; rw [← writeTwoByteLength_read (n := f.payload.length) (by omega)]
        simp only [twoBytesAt]
        rw [hzero, hone]
      simp only [if_neg hshort, if_pos hword, hread]
      rfl
    · have hread := (fourBytesAt_encode f x (by omega)).2
      rw [Nat.mod_eq_of_lt h] at hread
      simp only [if_neg hshort, if_neg hword, hread]
      rfl

/-- A payload of `2 ^ 32` bytes or more has a length that the parser refuses. -/
theorem malformed_encode_iff (hlen : f.payload.length < 2 ^ 64) :
    Malformed (f.encode ++ x) ↔ 2 ^ 32 ≤ f.payload.length := by
  have hhead := two_le_header f
  rw [Malformed, lengthField_encode]
  constructor
  · rintro ⟨hfield, -, hupper⟩
    by_contra hsmall
    have hlong : 65535 < f.payload.length := by
      unfold shortLength at hfield
      split at hfield
      · omega
      · split at hfield
        · cases hfield
        · omega
    rw [(fourBytesAt_encode f x hlong).1] at hupper
    omega
  · intro hlarge
    refine ⟨?_, ?_, ?_⟩
    · rw [shortLength, if_neg (by omega), if_neg (by omega)]
    · rw [List.length_append, encode_length]
      omega
    · rw [(fourBytesAt_encode f x (by omega)).1]
      omega

end Reading

/-! ### Whole frames -/

variable {f : WireFrame}

theorem lengthField_eq_zero_iff (x : Bytes) :
    lengthField (f.encode ++ x) = 0 ↔ f.payload = [] := by
  rw [lengthField_encode, ← List.length_eq_zero_iff]
  unfold shortLength
  split
  · rfl
  · split <;> omega

/-- **A frame with a payload** is read as it was written. -/
theorem scan_encode (hne : f.payload ≠ []) (hlen : f.payload.length < 2 ^ 32) :
    frameScan f.encode = .unit f.encode.length := by
  have hfield := (lengthField_eq_zero_iff (f := f) []).not.mpr hne
  have good := (malformed_encode_iff f [] (by omega)).not.mpr (by omega)
  have hhead := headerLen_encode f []
  have hsize := payloadSize_encode f [] hlen
  rw [List.append_nil] at hfield good hhead hsize
  have hwhole := encode_length f
  rw [← hhead, ← hsize] at hwhole
  rw [hwhole]
  exact frameScan_of_complete (by omega) hfield good

/-- **A frame without a payload** is taken for its two header bytes, key or not. -/
theorem scan_encode_empty (hnil : f.payload = []) (x : Bytes) :
    frameScan (f.encode ++ x) = .unit 2 := by
  have hlen := two_le_header f
  refine frameScan_of_empty ?_ ((lengthField_eq_zero_iff x).mpr hnil)
  rw [List.length_append, encode_length]
  omega

theorem doMask_doMask (payload : Bytes) (key : Fin 4 → UInt8) :
    doMask (doMask payload key) key = payload := by
  apply List.ext_getElem
  · simp [doMask]
  · intro i _ _
    simp only [doMask, List.getElem_mapIdx]
    rw [UInt8.xor_assoc, UInt8.xor_self, UInt8.xor_zero]

/-- The key bytes lie where the parser looks for them. -/
theorem byteAt_key {key : Fin 4 → UInt8} (hkey : f.key = some key) (i : Fin 4) :
    byteAt f.encode (keyStart f.encode + i) = key i := by
  have hstart := keyStart_encode f []
  rw [List.append_nil] at hstart
  have hsplit : f.encode = ([f.firstByte, f.secondByte] ++ longLength f.payload.length) ++
      (keyBytes f.key ++ maskPayload f.key f.payload) := by
    simp [encode, header]
  have hfront : ([f.firstByte, f.secondByte] ++ longLength f.payload.length).length =
      keyStart f.encode := by
    rw [hstart, List.length_append]
    rfl
  rw [← byteAt_drop, hsplit, ← hsplit, ← hfront]
  conv => lhs; rw [hsplit]
  rw [List.drop_left, hkey]
  match i with
  | 0 | 1 | 2 | 3 => rfl

/-- What is left of a frame with a payload is the payload. -/
theorem frameContent_encode (hne : f.payload ≠ []) : frameContent f.encode = f.payload := by
  have hfield := (lengthField_eq_zero_iff (f := f) []).not.mpr hne
  have hhead := headerLen_encode f []
  have hkeyed := keyed_encode f []
  rw [List.append_nil] at hfield hhead hkeyed
  rw [frameContent, if_neg hfield, hkeyed, hhead]
  have hbody : f.encode.drop f.header.length = maskPayload f.key f.payload := by
    rw [encode, List.drop_left]
  cases hkey : f.key with
  | none =>
      rw [hbody, hkey]
      rfl
  | some key =>
      have hkeys : (fun i : Fin 4 => byteAt f.encode (keyStart f.encode + i)) = key :=
        funext (byteAt_key hkey)
      rw [hbody, hkey, hkeys]
      exact doMask_doMask _ _

/-- What is left of a frame without payload and key is its two header bytes. -/
theorem frameContent_encode_empty (hnil : f.payload = []) : frameContent f.encode = f.encode := by
  have hfield := (lengthField_eq_zero_iff (f := f) []).mpr hnil
  rw [List.append_nil] at hfield
  rw [frameContent, if_pos hfield]

/-- Only a frame without a payload is changed by the parser. -/
theorem scan_encode_plain (hplain : f.payload ≠ [] ∨ f.key = none)
    (hlen : f.payload.length < 2 ^ 32) : frameScan f.encode = .unit f.encode.length := by
  by_cases hne : f.payload = []
  · have hkey := hplain.resolve_left (not_not_intro hne)
    have hscan := scan_encode_empty hne []
    have htwo : f.encode.length = 2 := by simp [encode, header, hne, hkey, longLength, keyBytes,
      maskPayload]
    rw [List.append_nil] at hscan
    rw [hscan, htwo]
  · exact scan_encode hne hlen

end WireFrame

end AnotherWs
