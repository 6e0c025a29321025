/-
Module: AnotherWs.Core.RawMembuf
Purpose: membuf.cpp over a block of memory that records every access, so that an access outside the
  allocation has a place and the operation still goes on.
Trusted boundary: as for the buffer; memcpy moves the bytes that were there before, and what realloc
  adds is unspecified.
Main exports: RawMembuf, MembufOp, MembufOp.perform, membufMachine, MembufOp.onList, RawMembuf.Admitted
-/
import AnotherWs.Core.Membuf
import AnotherWs.Lib.Block
import AnotherWs.Lib.Machine

namespace AnotherWs

open Blocks Machines

/-- `a - b` over `size_t` -/
def sizeSub (a b : Nat) : Nat := (a + 2 ^ 64 - b) % 2 ^ 64

theorem sizeSub_eq {a b : Nat} (le : b ≤ a) (word : a < 2 ^ 64) : sizeSub a b = a - b := by
  rw [sizeSub, show a + 2 ^ 64 - b = a - b + 2 ^ 64 by omega, Nat.add_mod_right]
  exact Nat.mod_eq_of_lt (by omega)

/-- `membuf_t`; `data` points to the block, and the null pointer to an empty one. -/
structure RawMembuf where
  block : Block UInt8
  size : Nat
  bufferSize : Nat
  flag : UInt8
deriving DecidableEq

namespace RawMembuf

/-- `data[0 .. size)` -/
def content (buf : RawMembuf) : Bytes := buf.block.cells.take buf.size

/-- `membuf_init` -/
def membufInit (initialBufferSize : UInt32) : RawMembuf where
  block := ⟨List.replicate initialBufferSize.toNat 0, []⟩
  size := 0
  bufferSize := initialBufferSize.toNat
  flag := 0

section Operations

variable (fresh : Nat → UInt8) (buf : RawMembuf)

/-- `membuf_clear` -/
def membufClear (maxSize : Nat) : RawMembuf :=
  if buf.block.cells ≠ [] ∧ buf.size ≠ 0 then
    let buf :=
      if 1 < maxSize ∧ maxSize < buf.bufferSize then
        { buf with block := buf.block.realloc fresh maxSize, size := 0, bufferSize := maxSize }
      else { buf with size := 0 }
    { buf with block := buf.block.write 0 (List.replicate buf.bufferSize 0) }
  else buf

/-- `membuf_reserve` -/
def membufReserve (extraSize : Nat) : Except Fault RawMembuf :=
  if sizeSub buf.bufferSize buf.size < extraSize then do
    let firstSize := (if buf.bufferSize = 0 then extraSize else 2 * buf.bufferSize) % 2 ^ 32
    let newDataSize := (buf.size + extraSize) % 2 ^ 32
    let newBufferSize ← reserveLoop 33 firstSize newDataSize
    if newBufferSize = 0 then .error .assertion
    else if newBufferSize < buf.size then
      -- the length of the `memset` wraps below zero
      .error .outOfBounds
    else
      .ok { buf with
        block := (buf.block.realloc fresh newBufferSize).write buf.size
          (List.replicate (newBufferSize - buf.size) 0)
        bufferSize := newBufferSize }
  else .ok buf

/-- `membuf_trunc` -/
def membufTrunc : RawMembuf :=
  if buf.size + 4 < buf.bufferSize ∨ buf.bufferSize < buf.size + 4 then
    { buf with
      block := (buf.block.realloc fresh (buf.size + 4)).write buf.size (List.replicate 4 0)
      bufferSize := buf.size + 4 }
  else buf

/-- `membuf_append_data` -/
def membufAppendData (bytes : Bytes) : Except Fault RawMembuf :=
  if bytes = [] then .ok buf
  else do
    let buf ← membufReserve fresh buf bytes.length
    .ok { buf with block := buf.block.write buf.size bytes, size := buf.size + bytes.length }

/-- `membuf_insert` -/
def membufInsert (offset : Nat) (bytes : Bytes) : Except Fault RawMembuf :=
  if offset < buf.size then do
    let buf ← membufReserve fresh buf bytes.length
    let block := buf.block.move (offset + bytes.length) offset (buf.size - offset)
    .ok { buf with block := block.write offset bytes, size := buf.size + bytes.length }
  else .error .assertion

/-- The first half of `membuf_remove`. The sum of offset and size is cut to 64 bits. -/
def membufCloseGap (offset size : Nat) : RawMembuf :=
  let stop := (offset + size) % 2 ^ 64
  if buf.size ≤ stop then { buf with size := offset }
  else
    { buf with
      block := buf.block.move offset stop (sizeSub (sizeSub buf.size offset) size)
      size := sizeSub buf.size size }

/-- The last statement of `membuf_remove`. -/
def membufTerminate : RawMembuf :=
  if buf.size ≤ buf.bufferSize then { buf with block := buf.block.write buf.size [0] } else buf

/-- `membuf_remove` -/
def membufRemove (offset size : Nat) : RawMembuf :=
  if buf.size ≤ offset then buf else membufTerminate (membufCloseGap buf offset size)

end Operations

end RawMembuf

/-- The calls that change a buffer. -/
inductive MembufOp where
  | appendData (bytes : Bytes)
  | insert (offset : UInt32) (bytes : Bytes)
  | remove (offset : UInt32) (size : UInt64)
  | clear (maxSize : UInt64)
  | reserve (extraSize : UInt64)
  | trunc
deriving DecidableEq

namespace MembufOp

/-- The call. -/
def perform (fresh : Nat → UInt8) (buf : RawMembuf) : MembufOp → Except Fault RawMembuf
  | .appendData bytes => buf.membufAppendData fresh bytes
  | .insert offset bytes => buf.membufInsert fresh offset.toNat bytes
  | .remove offset size => .ok (buf.membufRemove offset.toNat size.toNat)
  | .clear maxSize => .ok (buf.membufClear fresh maxSize.toNat)
  | .reserve extraSize => buf.membufReserve fresh extraSize.toNat
  | .trunc => .ok (buf.membufTrunc fresh)

/-- What the call is for, on a byte list. -/
def onList (list : Bytes) : MembufOp → Bytes
  | .appendData bytes => list ++ bytes
  | .insert offset bytes => list.take offset.toNat ++ bytes ++ list.drop offset.toNat
  | .remove offset size => list.take offset.toNat ++ list.drop (offset.toNat + size.toNat)
  | .clear _ => []
  | .reserve _ => list
  | .trunc => list

end MembufOp

/-- A buffer and the calls that change it. A call that comes to no end is not possible. -/
def membufMachine (fresh : Nat → UInt8) : Machine RawMembuf MembufOp where
  step buf op := (op.perform fresh buf).toOption

namespace RawMembuf

/-- An insertion is asked for inside the bytes in use, and lengths stay at most `2 ^ 31`: those of the
bytes in use, and those for which room is reserved. -/
def Admitted (buf : RawMembuf) : MembufOp → Prop
  | .appendData bytes => buf.size + bytes.length ≤ 2 ^ 31
  | .insert offset bytes => offset.toNat < buf.size ∧ buf.size + bytes.length ≤ 2 ^ 31
  | .remove offset size =>
      buf.size ≤ offset.toNat ∨ offset.toNat + size.toNat < 2 ^ 64 ∨
        buf.size + (2 ^ 64 - size.toNat) ≤ 2 ^ 31
  | .clear _ => True
  | .reserve extraSize => buf.size + extraSize.toNat ≤ 2 ^ 31
  | .trunc => True

/-- The end of a removal does not wrap. -/
def EndsInWord (buf : RawMembuf) : MembufOp → Prop
  | .remove offset size => buf.size ≤ offset.toNat ∨ offset.toNat + size.toNat < 2 ^ 64
  | _ => True

instance (buf : RawMembuf) : ∀ op, Decidable (buf.Admitted op)
  | .appendData _ => inferInstanceAs (Decidable (_ ≤ _))
  | .insert _ _ => inferInstanceAs (Decidable (_ ∧ _))
  | .remove _ _ => inferInstanceAs (Decidable (_ ∨ _ ∨ _))
  | .clear _ => .isTrue trivial
  | .reserve _ => inferInstanceAs (Decidable (_ ≤ _))
  | .trunc => .isTrue trivial

instance (buf : RawMembuf) : ∀ op, Decidable (buf.EndsInWord op)
  | .remove _ _ => inferInstanceAs (Decidable (_ ∨ _))
  | .appendData _ | .insert _ _ | .clear _ | .reserve _ | .trunc => .isTrue trivial

end RawMembuf

end AnotherWs
