/-
Module: AnotherWs.Core.Encode
Purpose: base64_encode of encode.cpp, with the array of three bytes that it collects and the array of
  four digits that it writes.
Trusted boundary: none beyond the buffer
Main exports: base64Table, charArray4, encodeLoop, base64Encode
-/
import AnotherWs.Core.CString

namespace AnotherWs

/-- `base64_table` -/
def base64Table : Bytes := ascii "ABCDEFGHIJKLMNOPQRSTUVWXYZabcdefghijklmnopqrstuvwxyz0123456789+/"

/-- `base64_end` -/
def base64End : UInt8 := 0x3d

/-- `char_array_4` from `char_array_3`, whose missing bytes are zero. -/
def charArray4 (charArray3 : Bytes) : Bytes :=
  let c0 := charArray3.getD 0 0
  let c1 := charArray3.getD 1 0
  let c2 := charArray3.getD 2 0
  [(c0 &&& 0xfc) >>> 2, ((c0 &&& 0x03) <<< 4) + ((c1 &&& 0xf0) >>> 4),
    ((c1 &&& 0x0f) <<< 2) + ((c2 &&& 0xc0) >>> 6), c2 &&& 0x3f]

/-- Characters that are appended one at a time. -/
def appendEach (ret : Membuf) : Bytes → Except Fault Membuf
  | [] => .ok ret
  | c :: rest => do
      let ret ← membufAppendData ret [c]
      appendEach ret rest

/-- The digits of the first `n` entries of `char_array_4`. -/
def appendDigits (ret : Membuf) (charArray3 : Bytes) (n : Nat) : Except Fault Membuf :=
  appendEach ret (((charArray4 charArray3).take n).map fun v => base64Table.getD v.toNat 0)

/-- `while (in_len--)`: `char_array_3` collects three bytes and then goes out as four digits. What it
holds at the end is left. -/
def encodeLoop : Membuf → Bytes → Bytes → Except Fault (Membuf × Bytes)
  | ret, charArray3, [] => .ok (ret, charArray3)
  | ret, charArray3, byte :: rest => do
      let charArray3 := charArray3 ++ [byte]
      if charArray3.length = 3 then do
        let ret ← appendDigits ret charArray3 4
        encodeLoop ret [] rest
      else encodeLoop ret charArray3 rest

/-- `base64_encode` up to its `return`. -/
def encodeInto (bytesToEncode : Bytes) : Except Fault Membuf := do
  let ret := membufInit (bytesToEncode.length * 3 % 2 ^ 32)
  let (ret, charArray3) ← encodeLoop ret [] bytesToEncode
  if charArray3 ≠ [] then do
    let ret ← appendDigits ret charArray3 (charArray3.length + 1)
    appendEach ret (List.replicate (3 - charArray3.length) base64End)
  else .ok ret

/-- `base64_encode`: the string at `ret.data`, or nothing when that pointer is null. -/
def base64Encode (bytesToEncode : Bytes) : Except Fault (Option Bytes) := do
  let ret ← encodeInto bytesToEncode
  if ret.bufferSize = 0 then .ok none
  else do
    let text ← cString ret.data 0
    .ok (some text)

end AnotherWs
