/-
Module: AnotherWs.Spec.HttpMessage
Purpose: HTTP messages as a start line, header fields and a body, and the field that a name stands for.
Trusted boundary: none
Main exports: HeaderField, HttpMessage, HttpMessage.bytes, HttpMessage.lookup
-/
import AnotherWs.Core.HttpHead
import AnotherWs.Spec.Handshake

namespace AnotherWs

/-- Text that fits on a line. -/
def LineText (text : Bytes) : Prop := 0x0d ∉ text ∧ 0x0a ∉ text ∧ 0 ∉ text

instance (text : Bytes) : Decidable (LineText text) := instDecidableAnd

/-- Spaces and tabs. -/
def Ows (text : Bytes) : Prop := ∀ c ∈ text, c = 0x20 ∨ c = 0x09

instance (text : Bytes) : Decidable (Ows text) :=
  decidable_of_iff (text.all fun c => c == 0x20 || c == 0x09) (by simp [Ows])

theorem ows_nil : Ows [] := by decide

theorem ows_space : Ows [0x20] := by decide

/-- The name of a field: no colon, no white space and no zero. -/
structure FieldName (name : Bytes) : Prop where
  nonempty : name ≠ []
  solid : ∀ c ∈ name, isspace c = false
  colonFree : 0x3a ∉ name
  terminated : 0 ∉ name

/-- A header line: the name, a colon, the value, and spaces and tabs around the value. -/
structure HeaderField where
  name : Bytes
  before : Bytes
  value : Bytes
  after : Bytes
  isName : FieldName name
  before_ows : Ows before
  after_ows : Ows after
  isText : LineText value
  trimmed : (∀ c ∈ value.head?, c ≠ 0x20 ∧ c ≠ 0x09) ∧ ∀ c ∈ value.getLast?, c ≠ 0x20 ∧ c ≠ 0x09

/-- A value without white space has none around it. -/
theorem trimmed_of_solid {value : Bytes} (solid : ∀ c ∈ value, isspace c = false) :
    (∀ c ∈ value.head?, c ≠ 0x20 ∧ c ≠ 0x09) ∧ ∀ c ∈ value.getLast?, c ≠ 0x20 ∧ c ≠ 0x09 := by
  have hsolid : ∀ c ∈ value, c ≠ 0x20 ∧ c ≠ 0x09 := by
    intro c hc
    constructor <;> rintro rfl <;> exact absurd (solid _ hc) (by decide)
  exact ⟨fun c hc => hsolid c (List.mem_of_mem_head? hc), fun c hc =>
    hsolid c (List.mem_of_mem_getLast? hc)⟩

/-- The line without its end. -/
def HeaderField.line (field : HeaderField) : Bytes :=
  field.name ++ [0x3a] ++ field.before ++ field.value ++ field.after

/-- A message. -/
structure HttpMessage where
  startLine : Bytes
  fields : List HeaderField
  body : Bytes
  isText : LineText startLine
  terminated : 0 ∉ body

/-- Lines with line breaks in between. -/
def joinLines : Bytes → List Bytes → Bytes
  | line, [] => line
  | line, next :: rest => line ++ crlf ++ joinLines next rest

namespace HttpMessage

variable (m : HttpMessage)

/-- The header lines. -/
def headerLines : List Bytes := m.fields.map HeaderField.line

/-- The message on the wire: every line of the head ends with a line break, and so does the head. -/
def bytes : Bytes := joinLines m.startLine m.headerLines ++ crlf ++ crlf ++ m.body

end HttpMessage

/-- A letter in lower case. -/
def lowerAscii (c : UInt8) : UInt8 := if 0x41 ≤ c ∧ c ≤ 0x5a then c + 0x20 else c

/-- The same name, but for the case of letters. -/
def sameName (name other : Bytes) : Bool := name.map lowerAscii == other.map lowerAscii

/-- The value of the first field of a name. -/
def HttpMessage.lookup (m : HttpMessage) (name : Bytes) : Option Bytes :=
  (m.fields.find? fun field => sameName field.name name).map HeaderField.value

end AnotherWs
