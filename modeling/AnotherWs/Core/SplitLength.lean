/-
Module: AnotherWs.Core.SplitLength
Purpose: common.cpp: cutting a length into parts of random size.
Trusted boundary: rand() is any sequence of numbers from 0 to RAND_MAX; srand is left out.
Main exports: RandResult, SplitResult, SplitStop, drawPart, drawParts, splitOntSizeToMultiParts
-/
import Mathlib.Algebra.Order.Ring.Nat
import Mathlib.Logic.Function.Basic

namespace AnotherWs

/-- `MAX_SPLIT_COUNT` -/
def maxSplitCount : UInt64 := 10

/-- `DEFAULT_SPLIT_COUNT` -/
def defaultSplitCount : UInt64 := 3

/-- What `rand()` returns: `RAND_MAX` is 2^31 - 1. -/
abbrev RandResult := Fin (2 ^ 31)

/-- `split_result`. The array is a function of the index. -/
structure SplitResult where
  splitCount : UInt64
  splitResult : Nat → UInt64

/-- The lengths that a result holds. -/
def SplitResult.parts (result : SplitResult) : List UInt64 :=
  (List.range result.splitCount.toNat).map result.splitResult

/-- Why no result is there: a division by zero, or the `while` loop is still drawing. -/
inductive SplitStop where
  | divisionByZero
  | drawing
deriving Repr, DecidableEq

/-- The `while` loop for one part, from place `pos` of the sequence: the part and the place behind its
last draw. -/
def drawPart (average : UInt64) (rand : Nat → RandResult) :
    Nat → Nat → Except SplitStop (UInt64 × Nat)
  | 0, _ => .error .drawing
  | fuel + 1, pos =>
      if average = 0 then .error .divisionByZero
      else
        let temp := UInt64.ofNat (rand pos).val % average
        if temp = 0 then drawPart average rand fuel (pos + 1) else .ok (temp, pos + 1)

/-- The `for` loop from index `n` on, for `left` more parts: the array and the sum of its parts. -/
def drawParts (average : UInt64) (rand : Nat → RandResult) (fuel : Nat) :
    Nat → Nat → Nat → UInt64 → (Nat → UInt64) → Except SplitStop ((Nat → UInt64) × UInt64)
  | 0, _, _, added, splitResult => .ok (splitResult, added)
  | left + 1, n, pos, added, splitResult => do
      let (temp, pos) ← drawPart average rand fuel pos
      drawParts average rand fuel left (n + 1) pos (added + temp)
        (Function.update splitResult n temp)

/-- The number of parts: 0 asks for the default, and there are never more than the array holds. -/
def splitCount (count : UInt64) : UInt64 :=
  let count := if count = 0 then defaultSplitCount else count
  if count > maxSplitCount then maxSplitCount else count

/-- `split_ont_size_to_multi_parts`; `none` is the null pointer. The last part is what is left. -/
def splitOntSizeToMultiParts (size count : UInt64) (rand : Nat → RandResult) (fuel : Nat) :
    Option SplitResult → Except SplitStop (Option SplitResult)
  | none => .ok none
  | some result =>
      if size = 0 then .ok (some result)
      else do
        let count := splitCount count
        let average := size / count
        let (splitResult, added) ←
          drawParts average rand fuel (count.toNat - 1) 0 0 0 result.splitResult
        .ok (some ⟨count, Function.update splitResult (count.toNat - 1) (size - added)⟩)

end AnotherWs
