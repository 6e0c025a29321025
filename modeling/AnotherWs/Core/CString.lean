/-
Module: AnotherWs.Core.CString
Purpose: Zero-terminated strings inside an allocation, and the calls of the C library that work on them.
Trusted boundary: the calls do what the language standard says where it defines them, and the `C`
  locale is in force; an unterminated string is a read outside the allocation.
Main exports: ascii, cString, strlen, memStore
-/
import AnotherWs.Core.Membuf

namespace AnotherWs

/-- The characters of a string literal. -/
def ascii (text : String) : Bytes := text.toList.map fun c => UInt8.ofNat c.toNat

/-- The string at offset `p`: the bytes in front of the terminating zero. -/
def cString (mem : Bytes) (p : Nat) : Except Fault Bytes :=
  if 0 ∈ mem.drop p then .ok ((mem.drop p).takeWhile (· ≠ 0)) else .error .outOfBounds

/-- `strlen` -/
def strlen (mem : Bytes) (p : Nat) : Except Fault Nat := do
  let s ← cString mem p
  .ok s.length

/-- A copy of bytes to offset `p`. -/
def memStore (mem : Bytes) (p : Nat) (bytes : Bytes) : Except Fault Bytes :=
  if p + bytes.length ≤ mem.length then
    .ok (mem.take p ++ bytes ++ mem.drop (p + bytes.length))
  else .error .outOfBounds

/-- A string and its terminating zero read back. -/
theorem cString_append {s : Bytes} (text : 0 ∉ s) (front rest : Bytes) :
    cString (front ++ (s ++ 0 :: rest)) front.length = .ok s := by
  have hwhile : (s ++ 0 :: rest).takeWhile (· ≠ 0) = s := by
    rw [List.takeWhile_append_of_pos]
    · simp
    · intro c hc
      have hne : c ≠ 0 := fun h => text (h ▸ hc)
      exact decide_eq_true hne
  rw [cString, List.drop_left, if_pos (List.mem_append_right _ List.mem_cons_self), hwhile]

/-- A string at the start of an allocation. -/
theorem cString_start {s : Bytes} (text : 0 ∉ s) (rest : Bytes) :
    cString (s ++ 0 :: rest) 0 = .ok s := cString_append text [] rest

end AnotherWs
