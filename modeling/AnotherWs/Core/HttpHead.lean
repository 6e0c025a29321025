/-
Module: AnotherWs.Core.HttpHead
Purpose: parse_http_heads of uvutil.cpp: the value of one field in a buffer that holds the head of a
  message.
Trusted boundary: strstr, strchr and isspace do what the language standard says, in the `C` locale; the
  buffer is not read again after the call, so the zeros that the function writes into it are not kept.
Main exports: strstr, strchr, isspace, skipSpaces, headEnd, parseHttpHeads
-/
import AnotherWs.Core.CString
import AnotherWs.Lib.Search

namespace AnotherWs

/-- `strstr`, as an offset. -/
def strstr (s pattern : Bytes) : Option Nat := Search.offset pattern s

/-- `strchr`, as an offset. -/
def strchr (s : Bytes) (c : UInt8) : Option Nat := Search.offset [c] s

/-- `isspace` -/
def isspace (c : UInt8) : Bool := c == 0x20 || (9 ≤ c && c ≤ 13)

/-- Only the bytes of the text are looked at. -/
instance (priority := high) decidableSpaces (text : Bytes) (b : Bool) :
    Decidable (∀ c ∈ text, isspace c = b) :=
  List.decidableBAll _ text

/-- `while (isspace(*key)) key++` -/
def skipSpaces (base : Bytes) (key : Nat) : Except Fault Nat :=
  let spaces := ((base.drop key).takeWhile isspace).length
  if key + spaces < base.length then .ok (key + spaces) else .error .outOfBounds

/-- The empty line at which a head ends. -/
def headEnd : Bytes := ascii "\r\n\r\n"

/-- `parse_http_heads`. The null pointer is `none`, any other pointer the string there. -/
def parseHttpHeads (base keyName : Bytes) : Except Fault (Option Bytes) := do
  let text ← cString base 0
  match strstr text headEnd with
  | none => .ok none
  | some data => do
      -- the head is cut in front of the empty line
      let base ← memStore base data [0]
      let head ← cString base 0
      match strstr head keyName with
      | none => .ok none
      | some found => do
          let key ← skipSpaces base (found + (keyName.length + 1))
          let value ← cString base key
          match strchr value 0x0d with
          | none => .ok (some value)
          | some end_ => .ok (some (value.take end_))

end AnotherWs
