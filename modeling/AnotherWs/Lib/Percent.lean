/-
Module: AnotherWs.Lib.Percent
Purpose: Percent-encoding of the bytes of a class.
Trusted boundary: none
Main exports: Percent.hexDigit, Percent.escapeByte, Percent.escape, Percent.length_escape,
  Percent.escape_text
-/
import Mathlib.Data.List.Count

namespace Percent

/-- A hexadecimal digit in upper case. -/
def hexDigit (n : Nat) : UInt8 := UInt8.ofNat (if n < 10 then 0x30 + n else 0x37 + n)

/-- `%XX` -/
def escapeByte (b : UInt8) : List UInt8 := [0x25, hexDigit (b.toNat / 16), hexDigit (b.toNat % 16)]

section Escape

variable (escaped : UInt8 → Bool)

/-- What a byte becomes. -/
def piece (b : UInt8) : List UInt8 := if escaped b then escapeByte b else [b]

/-- The bytes of the class are escaped, the others stay. -/
def escape (bytes : List UInt8) : List UInt8 := bytes.flatMap (piece escaped)

@[simp] theorem escape_nil : escape escaped [] = [] := rfl

@[simp] theorem escape_cons (b : UInt8) (bytes : List UInt8) :
    escape escaped (b :: bytes) = piece escaped b ++ escape escaped bytes := List.flatMap_cons

@[simp] theorem escape_append (front back : List UInt8) :
    escape escaped (front ++ back) = escape escaped front ++ escape escaped back :=
  List.flatMap_append

theorem length_piece (b : UInt8) :
    (piece escaped b).length = 1 + 2 * (if escaped b then 1 else 0) := by
  unfold piece
  split <;> rfl

/-- Every escaped byte takes two more. -/
theorem length_escape (bytes : List UInt8) :
    (escape escaped bytes).length = bytes.length + 2 * bytes.countP escaped := by
  induction bytes with
  | nil => rfl
  | cons b bytes ih =>
      rw [escape_cons, List.length_append, length_piece, ih, List.countP_cons, List.length_cons]
      split <;> omega

theorem hexDigit_ne_zero : ∀ n < 16, hexDigit n ≠ 0 := by decide

/-- There is no zero in the encoding of a text without zeros. -/
theorem escape_text {bytes : List UInt8} (text : 0 ∉ bytes) : 0 ∉ escape escaped bytes := by
  induction bytes with
  | nil => exact List.not_mem_nil
  | cons b bytes ih =>
      rw [List.mem_cons, not_or] at text
      rw [escape_cons, List.mem_append, not_or]
      refine ⟨?_, ih text.2⟩
      have hlt := b.toNat_lt
      have hhigh := hexDigit_ne_zero (b.toNat / 16) (by omega)
      have hlow := hexDigit_ne_zero (b.toNat % 16) (by omega)
      unfold piece
      split
      · simp [escapeByte, hhigh.symm, hlow.symm]
      · simpa using text.1

end Escape

end Percent
