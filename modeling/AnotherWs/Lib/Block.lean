/-
Module: AnotherWs.Lib.Block
Purpose: A block of memory with a record of the ranges that were read and written, inside the block or
  not. What is written outside is lost.
Trusted boundary: none
Main exports: Access, Access.InBounds, Block, Block.write, Block.move, Block.realloc,
  Block.Sound
-/
import Mathlib.Data.List.Basic

namespace Blocks

/-- A range of indices, and how many were allocated when it was touched. -/
structure Access where
  start : Nat
  count : Nat
  allocated : Nat
deriving DecidableEq, Repr

namespace Access

/-- Every index of the range is allocated. -/
def InBounds (a : Access) : Prop := ∀ i, a.start ≤ i → i < a.start + a.count → i < a.allocated

theorem inBounds_iff (a : Access) : a.InBounds ↔ a.count = 0 ∨ a.start + a.count ≤ a.allocated := by
  constructor
  · intro h
    rcases Nat.eq_zero_or_pos a.count with hzero | hpos
    · exact Or.inl hzero
    · have hlast := h (a.start + (a.count - 1)) (by omega) (by omega)
      exact Or.inr (by omega)
  · rintro h i hstart hend
    rcases h with hzero | hroom <;> omega

instance (a : Access) : Decidable a.InBounds := decidable_of_iff _ a.inBounds_iff.symm

end Access

/-- The cells of a block and the record of its accesses, the latest last. -/
structure Block (α : Type*) where
  cells : List α
  log : List Access
deriving DecidableEq

namespace Block

variable {α : Type*}

/-- Put elements into the block from an index on. -/
def write (b : Block α) (start : Nat) (new : List α) : Block α where
  cells := (b.cells.take start ++ new ++ b.cells.drop (start + new.length)).take b.cells.length
  log := b.log ++ [⟨start, new.length, b.cells.length⟩]

/-- Copy a range, as it was before, to another place. -/
def move (b : Block α) (dst src count : Nat) : Block α where
  cells := (b.write dst ((b.cells.drop src).take count)).cells
  log := b.log ++ [⟨src, count, b.cells.length⟩, ⟨dst, count, b.cells.length⟩]

/-- Another size for the block: what fits is kept, and new cells hold anything. -/
def realloc (fresh : Nat → α) (b : Block α) (n : Nat) : Block α where
  cells := b.cells.take n ++ (List.range (n - b.cells.length)).map fresh
  log := b.log

/-- Nothing outside the block has been touched. -/
def Sound (b : Block α) : Prop := ∀ a ∈ b.log, a.InBounds

instance (b : Block α) : Decidable b.Sound := List.decidableBAll _ _

section Write

variable {b : Block α} {start : Nat} {new : List α}

@[simp] theorem write_log (b : Block α) (start : Nat) (new : List α) :
    (b.write start new).log = b.log ++ [⟨start, new.length, b.cells.length⟩] := rfl

@[simp] theorem length_write (b : Block α) (start : Nat) (new : List α) :
    (b.write start new).cells.length = b.cells.length := by
  simp only [write, List.length_take, List.length_append, List.length_drop]
  omega

@[simp] theorem write_sound (b : Block α) (start : Nat) (new : List α) :
    (b.write start new).Sound ↔
      b.Sound ∧ (new.length = 0 ∨ start + new.length ≤ b.cells.length) := by
  simp [Sound, Access.inBounds_iff, or_imp, forall_and]

/-- Inside the block nothing is lost. -/
theorem write_cells (fits : start + new.length ≤ b.cells.length) :
    (b.write start new).cells = b.cells.take start ++ new ++ b.cells.drop (start + new.length) := by
  apply List.take_of_length_le
  simp only [List.length_append, List.length_take, List.length_drop]
  omega

/-- A write up to the end of the block. -/
theorem write_to_end (fills : start + new.length = b.cells.length) :
    (b.write start new).cells = b.cells.take start ++ new := by
  rw [write_cells (Nat.le_of_eq fills), fills, List.drop_length, List.append_nil]

/-- A write that starts behind the block is lost. -/
theorem write_behind (behind : b.cells.length ≤ start) : (b.write start new).cells = b.cells := by
  rw [write, List.take_of_length_le behind, List.append_assoc, List.take_left]

/-- What stands in front of a write stays. -/
theorem take_write {n : Nat} (before : n ≤ start) :
    (b.write start new).cells.take n = b.cells.take n := by
  rcases Nat.le_total b.cells.length start with hout | hin
  · rw [write_behind hout]
  · rw [write, List.take_take, List.append_assoc, List.take_append_of_le_length
      (by rw [List.length_take]; omega), List.take_take]
    congr 1
    omega

/-- A write to the end of the part in use extends it. -/
theorem take_write_end (fits : start + new.length ≤ b.cells.length) :
    (b.write start new).cells.take (start + new.length) = b.cells.take start ++ new := by
  rw [write_cells fits, List.take_left']
  rw [List.length_append, List.length_take]
  omega

/-- A write and what stands behind it. -/
theorem take_write_more (fits : start + new.length ≤ b.cells.length) (more : Nat) :
    (b.write start new).cells.take (start + new.length + more) =
      b.cells.take start ++ new ++ (b.cells.drop (start + new.length)).take more := by
  have hlen : (b.cells.take start ++ new).length = start + new.length := by
    rw [List.length_append, List.length_take]
    omega
  rw [write_cells fits, ← hlen, List.take_length_add_append]

end Write

section Move

variable {b : Block α} {dst src count : Nat}

@[simp] theorem move_log (b : Block α) (dst src count : Nat) :
    (b.move dst src count).log =
      b.log ++ [⟨src, count, b.cells.length⟩, ⟨dst, count, b.cells.length⟩] := rfl

@[simp] theorem move_sound (b : Block α) (dst src count : Nat) :
    (b.move dst src count).Sound ↔
      b.Sound ∧ (count = 0 ∨ src + count ≤ b.cells.length) ∧
        (count = 0 ∨ dst + count ≤ b.cells.length) := by
  simp [Sound, Access.inBounds_iff, or_imp, forall_and]

@[simp] theorem length_move (b : Block α) (dst src count : Nat) :
    (b.move dst src count).cells.length = b.cells.length := length_write b dst _

/-- What stands in front of the target stays. -/
theorem take_move {n : Nat} (before : n ≤ dst) :
    (b.move dst src count).cells.take n = b.cells.take n := take_write before

/-- The range stands at its new place. -/
theorem take_move_end (source : src + count ≤ b.cells.length) (target : dst + count ≤ b.cells.length) :
    (b.move dst src count).cells.take (dst + count) =
      b.cells.take dst ++ (b.cells.drop src).take count := by
  have hcount : ((b.cells.drop src).take count).length = count := by
    rw [List.length_take, List.length_drop]
    omega
  have htake := @take_write_end _ b dst ((b.cells.drop src).take count) (by rw [hcount]; exact target)
  rw [hcount] at htake
  exact htake

/-- The range that has moved. -/
theorem drop_move (source : src + count ≤ b.cells.length) (target : dst + count ≤ b.cells.length) :
    ((b.move dst src count).cells.drop dst).take count = (b.cells.drop src).take count := by
  have hlen : (b.cells.take dst).length = dst := by
    rw [List.length_take]
    omega
  have htake := congrArg (List.drop dst) (take_move_end source target)
  rw [List.drop_take, Nat.add_sub_cancel_left, List.drop_left' hlen] at htake
  exact htake

end Move

section Realloc

variable {fresh : Nat → α} {b : Block α} {n : Nat}

@[simp] theorem realloc_log (fresh : Nat → α) (b : Block α) (n : Nat) :
    (b.realloc fresh n).log = b.log := rfl

@[simp] theorem realloc_sound (fresh : Nat → α) (b : Block α) (n : Nat) :
    (b.realloc fresh n).Sound ↔ b.Sound := Iff.rfl

@[simp] theorem length_realloc (fresh : Nat → α) (b : Block α) (n : Nat) :
    (b.realloc fresh n).cells.length = n := by
  simp only [realloc, List.length_append, List.length_take, List.length_map, List.length_range]
  omega

/-- What fits is kept. -/
theorem take_realloc {k : Nat} (kept : k ≤ n) (inside : k ≤ b.cells.length) :
    (b.realloc fresh n).cells.take k = b.cells.take k := by
  rw [realloc, List.take_append_of_le_length (by rw [List.length_take]; omega), List.take_take]
  congr 1
  omega

end Realloc

end Block

end Blocks
