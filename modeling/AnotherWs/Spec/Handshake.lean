/-
Module: AnotherWs.Spec.Handshake
Purpose: What the opening handshake is for: the lines of a message head, the value of a field, and the
  accept value that answers a key.
Trusted boundary: none
Main exports: headLines, fieldValue, acceptValue, KeyText, headLines_cons
-/
import AnotherWs.Core.CString
import AnotherWs.Lib.Base64

namespace AnotherWs

/-- The end of a line. -/
def crlf : Bytes := [0x0d, 0x0a]

/-- A text cut at its line ends. -/
def headLines : Bytes → List Bytes
  | [] => [[]]
  | 0x0d :: 0x0a :: rest => [] :: headLines rest
  | c :: rest =>
      match headLines rest with
      | [] => [[c]]
      | line :: lines => (c :: line) :: lines

/-- The value of the first field of that name. -/
def fieldValue (name text : Bytes) : Option Bytes :=
  ((headLines text).find? fun line => (name ++ ascii ": ").isPrefixOf line).map
    fun line => line.drop (name ++ ascii ": ").length

/-- The answer to a key, as the response carries it. -/
def acceptValue (response : Bytes) : Option Bytes :=
  fieldValue (ascii "Sec-WebSocket-Accept") response

/-- A key as a client sends it: twenty-four characters of an encoding. -/
structure KeyText (key : Bytes) : Prop where
  length_eq : key.length = 24
  text : ∀ c ∈ key, c ∈ Base64.text

/-- A line ends at its line end. -/
theorem headLines_cons {line : Bytes} (plain : 0x0d ∉ line) (rest : Bytes) :
    headLines (line ++ crlf ++ rest) = line :: headLines rest := by
  induction line with
  | nil => rfl
  | cons c line ih =>
      have hc : c ≠ 0x0d := fun h => plain (h ▸ List.mem_cons_self)
      have hline := ih (fun h => plain (List.mem_cons_of_mem _ h))
      rw [List.cons_append, List.cons_append, headLines]
      · rw [hline]
      · intro rest' hsame
        exact absurd hsame hc

end AnotherWs
