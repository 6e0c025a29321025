/-
Module: AnotherWs.Core.Decode
Purpose: base64_decode of encode.cpp, with its lookups of single characters as strings.
Trusted boundary: strstr reads its second argument up to a zero, behind the array where there is none in
  it; what the memory holds there is an input. The string is shorter than 2^31 characters.
Main exports: isBase64, lookUp, lookUpDigits, charArray3, decodeLoop, base64Decode
-/
import AnotherWs.Core.Encode
import AnotherWs.Core.HttpHead

namespace AnotherWs

/-- `isalnum` -/
def isalnum (c : UInt8) : Bool :=
  (0x30 ≤ c && c ≤ 0x39) || (0x41 ≤ c && c ≤ 0x5a) || (0x61 ≤ c && c ≤ 0x7a)

/-- `is_base64` -/
def isBase64 (c : UInt8) : Bool := isalnum c || c == 0x2b || c == 0x2f

/-- `strstr(base64_table, (char*)&char_array_4[j])[0]`: the character where the string at entry `j`
stands in the table. -/
def lookUp (charArray4 behind : Bytes) (j : Nat) : Except Fault UInt8 := do
  let needle ← cString (charArray4 ++ behind) j
  match strstr base64Table needle with
  | none => .error .nullPointer
  | some p => .ok (base64Table.getD p 0)

/-- The four lookups, one after the other; each goes into its entry. -/
def lookUpDigits (behind : Nat → Bytes) (charArray4 : Bytes) : Except Fault Bytes :=
  (List.range 4).foldlM (fun charArray4 j => do
    let c ← lookUp charArray4 (behind j) j
    .ok (charArray4.set j c)) charArray4

/-- `char_array_3` from `char_array_4` -/
def charArray3 (charArray4 : Bytes) : Bytes :=
  let c0 := charArray4.getD 0 0
  let c1 := charArray4.getD 1 0
  let c2 := charArray4.getD 2 0
  let c3 := charArray4.getD 3 0
  [(c0 <<< 2) + ((c1 &&& 0x30) >>> 4), ((c1 &&& 0xf) <<< 4) + ((c2 &&& 0x3c) >>> 2),
    ((c2 &&& 0x3) <<< 6) + c3]

/-- The loop: `char_array_4` collects four characters and then goes out as three bytes. It ends at the
first character that is none of the alphabet; what the array holds then is left. -/
def decodeLoop (behind : Nat → Nat → Bytes) : Membuf → Bytes → Nat → Bytes →
    Except Fault (Membuf × Bytes)
  | ret, charArray4, _, [] => .ok (ret, charArray4)
  | ret, charArray4, in_, c :: rest =>
      if c ≠ base64End ∧ isBase64 c = true then
        let charArray4 := charArray4 ++ [c]
        if charArray4.length = 4 then do
          let charArray4 ← lookUpDigits (behind in_) charArray4
          let ret ← appendEach ret (charArray3 charArray4)
          decodeLoop behind ret [] (in_ + 1) rest
        else decodeLoop behind ret charArray4 (in_ + 1) rest
      else .ok (ret, charArray4)

/-- `base64_decode`. Lookup `j` of the group that is complete at place `in_` finds `behind in_ j` in the
memory behind the array. -/
def base64Decode (behind : Nat → Nat → Bytes) (encodedString : Bytes) (ret : Membuf) :
    Except Fault Membuf := do
  let ret := membufClear ret 0
  let (ret, charArray4) ← decodeLoop behind ret [] 0 encodedString
  if charArray4 ≠ [] then do
    let padded := charArray4 ++ List.replicate (4 - charArray4.length) 0
    let padded ← lookUpDigits (behind encodedString.length) padded
    appendEach ret ((charArray3 padded).take (charArray4.length - 1))
  else .ok ret

end AnotherWs
