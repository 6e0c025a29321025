/-
Module: AnotherWs.Spec.Opening
Purpose: Opening handshakes as bytes: the value of a field in a chunk that holds a head, and the
  heads of requests and responses.
Trusted boundary: none
Main exports: lineValue, headValue, ShowsValue, keyName, acceptName, OpeningHead, OpeningHead.bytes
-/
import AnotherWs.Spec.HttpMessage

namespace AnotherWs

/-- What stands on a line, without the spaces in front. -/
def lineValue (bytes : Bytes) : Bytes :=
  (bytes.dropWhile isspace).takeWhile fun c => c ≠ 0x0d && c ≠ 0

/-- The value of a field in bytes that hold a whole head: the head ends at the first empty line, and the
value begins one character behind the name. -/
def headValue (name data : Bytes) : Option Bytes :=
  (Search.offset headEnd (data.takeWhile (· ≠ 0))).bind fun k =>
    (Search.offset name (data.take k)).map fun j =>
      lineValue ((data.take k ++ 0 :: data.drop (k + 1)).drop (j + (name.length + 1)))

/-- A text shows a value: in front of its first empty line stands the name of the field, and behind the
first such place and one more character there is something to read, in the rest of the head or,
where the name ends the head, behind the empty line. -/
def ShowsValue (name text : Bytes) : Prop :=
  ∃ k j, Search.offset headEnd text = some k ∧ Search.offset name (text.take k) = some j ∧
    ∃ c ∈ if j + name.length < k then (text.take k).drop (j + (name.length + 1)) else text.drop (k + 4),
      isspace c = false

/-- The field with the key of a request. -/
def keyName : Bytes := ascii "Sec-WebSocket-Key"

/-- The field with the accept value of a response. -/
def acceptName : Bytes := ascii "Sec-WebSocket-Accept"

/-- The head of an opening handshake: a message without a body that has a field of that name. -/
structure OpeningHead (name : Bytes) where
  message : HttpMessage
  bodyless : message.body = []
  field : message.lookup name ≠ none

/-- The head on the wire. -/
def OpeningHead.bytes {name : Bytes} (head : OpeningHead name) : Bytes := head.message.bytes

end AnotherWs
