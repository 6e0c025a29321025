/-
Module: AnotherWs.Core.UrlCode
Purpose: url_encode and url_decode of encode.cpp.
Trusted boundary: plain `char` is signed; `sscanf` reads what the language standard calls a number. The
  null pointer, for which url_encode returns at once, is left out.
Main exports: charValue, needsEscape, hexTable, tableAt, loadUint, storeUint, urlEncode, sscanf2x,
  urlDecode
-/
import AnotherWs.Core.HttpHead

namespace AnotherWs

/-! ### Encoding -/

/-- The value of a `char`. -/
def charValue (c : UInt8) : Int := c.toInt8.toInt

/-- `urlunsafe` -/
def urlUnsafe : Bytes := ascii "\r\n \"#%&+:;<=>?@[\\]^`\x7b|\x7d"

/-- `*p < ' ' || *p > '~' || strchr(urlunsafe, *p)` -/
def needsEscape (c : UInt8) : Bool :=
  charValue c < 0x20 || 0x7e < charValue c || (strchr urlUnsafe c).isSome

/-- `hex`, with its terminating zero. -/
def hexTable : Bytes := ascii "0123456789ABCDEF" ++ [0]

/-- An entry of a table. -/
def tableAt (table : Bytes) (i : Int) : Except Fault UInt8 :=
  if 0 ≤ i ∧ i < table.length then .ok (table.getD i.toNat 0) else .error .outOfBounds

/-- `*len`, where `len` points to entry `p` of an array. -/
def loadUint (uints : List UInt32) (p : Int) : Except Fault UInt32 :=
  if 0 ≤ p ∧ p < uints.length then .ok (uints.getD p.toNat 0) else .error .outOfBounds

/-- `*len = value` -/
def storeUint (uints : List UInt32) (p : Int) (value : UInt32) : Except Fault (List UInt32) :=
  if 0 ≤ p ∧ p < uints.length then .ok (uints.set p.toNat value) else .error .outOfBounds

/-- The loop of `url_encode` from character `pos` on. -/
def urlEncodeLoop (uints : List UInt32) (len : Int) : Membuf → Nat → Bytes → Except Fault Membuf
  | buf, _, [] => .ok buf
  | buf, pos, c :: rest => do
      let limit ← loadUint uints len
      if limit.toNat < pos then .ok buf
      else if needsEscape c then do
        let high ← tableAt hexTable (charValue c >>> (4 : Nat))
        let low ← tableAt hexTable ((c &&& 0x0f).toNat : Int)
        let buf ← membufAppendData buf [0x25, high, low]
        urlEncodeLoop uints len buf (pos + 1) rest
      else do
        let buf ← membufAppendData buf [c]
        urlEncodeLoop uints len buf (pos + 1) rest

/-- `url_encode`, where `len` points to entry `len` of an array: the memory that is returned, and
the array. The pointer is moved to the entry in front before it is used. -/
def urlEncode (url : Bytes) (uints : List UInt32) (len : Nat) :
    Except Fault (Bytes × List UInt32) := do
  let len : Int := (len : Int) - 1
  let buf := membufInit ((url.length + 1) % 2 ^ 32)
  let buf ← urlEncodeLoop uints len buf 0 url
  let buf := membufTrunc buf
  let uints ← storeUint uints len (UInt32.ofNat buf.size)
  .ok (buf.data, uints)

/-! ### Decoding -/

/-- The value of a hexadecimal digit. -/
def hexValue (c : UInt8) : Option Nat :=
  if 0x30 ≤ c ∧ c ≤ 0x39 then some (c.toNat - 0x30)
  else if 0x41 ≤ c ∧ c ≤ 0x46 then some (c.toNat - 0x37)
  else if 0x61 ≤ c ∧ c ≤ 0x66 then some (c.toNat - 0x57)
  else none

/-- `sscanf(s, "%2x", &tmp)`, when it returns 1: white space is passed over, and at most two
characters are read, a sign and a digit or one or two digits. `0x` alone is no number. -/
def sscanf2x (s : Bytes) : Option Nat :=
  match s.dropWhile isspace with
  | [] => none
  | c :: rest =>
      match hexValue c with
      | some high =>
          match rest with
          | [] => some high
          | d :: _ =>
              if c = 0x30 ∧ (d = 0x78 ∨ d = 0x58) then none
              else some (match hexValue d with
                | some low => 16 * high + low
                | none => high)
      | none =>
          match rest with
          | [] => none
          | d :: _ =>
              if c = 0x2b then hexValue d
              else if c = 0x2d then (hexValue d).map fun v => (2 ^ 32 - v) % 2 ^ 32
              else none

/-- The loop of `url_decode`, which writes at `o` what it reads at `s`. -/
def urlDecodeLoop : Nat → Bytes → Nat → Nat → Except Fault Bytes
  | 0, _, _, _ => .error .outOfFuel
  | fuel + 1, mem, o, s => do
      let text ← cString mem s
      match text with
      | [] => .ok (mem.set o 0)
      | c :: rest =>
          match if c = 0x25 ∧ 2 < text.length then sscanf2x rest else none with
          | some tmp => urlDecodeLoop fuel (mem.set o (UInt8.ofNat tmp)) (o + 1) (s + 3)
          | none => urlDecodeLoop fuel (mem.set o c) (o + 1) (s + 1)

/-- `url_decode`, in place. -/
def urlDecode (mem : Bytes) : Except Fault Bytes := urlDecodeLoop (mem.length + 1) mem 0 0

end AnotherWs
