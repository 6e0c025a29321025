/-
Module: AnotherWs.Lib.Scan
Purpose: Programs that read and write a memory cell by cell, and how far into the memory they get.
Trusted boundary: none
Main exports: Scan, run, reach, run_bind, run_isSome_iff, run_local
-/
import Mathlib.Data.List.Basic

namespace Scans

/-- A program over a memory of cells `β`: a tree that branches on what it reads. -/
inductive Scan (β α : Type) where
  | done (a : α)
  | read (i : Nat) (next : β → Scan β α)
  | write (i : Nat) (b : β) (next : Scan β α)

namespace Scan

variable {β α γ : Type}

/-- The result and the memory at the end; nothing after an access outside the memory. -/
def run : Scan β α → List β → Option (α × List β)
  | .done a, mem => some (a, mem)
  | .read i next, mem =>
      match mem[i]? with
      | none => none
      | some b => (next b).run mem
  | .write i b next, mem => if i < mem.length then next.run (mem.set i b) else none

/-- One more than the largest index that the program gets to, inside the memory or outside. -/
def reach : Scan β α → List β → Nat
  | .done _, _ => 0
  | .read i next, mem =>
      match mem[i]? with
      | none => i + 1
      | some b => max (i + 1) ((next b).reach mem)
  | .write i b next, mem =>
      if i < mem.length then max (i + 1) (next.reach (mem.set i b)) else i + 1

/-- One program after another. -/
def bind : Scan β α → (α → Scan β γ) → Scan β γ
  | .done a, f => f a
  | .read i next, f => .read i fun b => (next b).bind f
  | .write i b next, f => .write i b (next.bind f)

theorem run_bind (s : Scan β α) (f : α → Scan β γ) (mem : List β) :
    (s.bind f).run mem = (s.run mem).bind fun out => (f out.1).run out.2 := by
  induction s generalizing mem with
  | done a => rfl
  | read i next ih =>
      rw [bind, run, run]
      cases mem[i]? with
      | none => rfl
      | some b => exact ih b mem
  | write i b next ih =>
      rw [bind, run, run]
      split
      · exact ih _
      · rfl

/-- A program has a result exactly when it stays inside the memory. -/
theorem run_isSome_iff (s : Scan β α) (mem : List β) :
    (s.run mem).isSome ↔ s.reach mem ≤ mem.length := by
  induction s generalizing mem with
  | done a => simp [run, reach]
  | read i next ih =>
      rw [run, reach]
      cases hread : mem[i]? with
      | none =>
          have hlen := List.getElem?_eq_none_iff.mp hread
          simp only [Option.isSome_none, Bool.false_eq_true, false_iff]
          omega
      | some b =>
          obtain ⟨hlt, -⟩ := List.getElem?_eq_some_iff.mp hread
          simp only [ih]
          omega
  | write i b next ih =>
      rw [run, reach]
      split
      · rw [ih, List.length_set]
        omega
      · simp only [Option.isSome_none, Bool.false_eq_true, false_iff]
        omega

/-- **Locality.** A program that stays inside the front of a memory has the same result, and gets as
far, whatever follows the front. -/
theorem run_local {s : Scan β α} {front rest : List β}
    (inside : s.reach (front ++ rest) ≤ front.length) :
    ∃ a front', s.reach front = s.reach (front ++ rest) ∧ s.run front = some (a, front') ∧
      ∀ other, s.reach (front ++ other) = s.reach (front ++ rest) ∧
        s.run (front ++ other) = some (a, front' ++ other) := by
  induction s generalizing front with
  | done a => exact ⟨a, front, rfl, rfl, fun _ => ⟨rfl, rfl⟩⟩
  | read i next ih =>
      have hlt : i < front.length := by
        rw [reach] at inside
        cases hread : (front ++ rest)[i]? with
        | none =>
            rw [hread] at inside
            exact inside
        | some b =>
            rw [hread] at inside
            dsimp only at inside
            omega
      have hread : ∀ other, (front ++ other)[i]? = some front[i] := fun other => by
        rw [List.getElem?_append_left hlt, List.getElem?_eq_getElem hlt]
      have hfront : front[i]? = some front[i] := List.getElem?_eq_getElem hlt
      simp only [reach, run, hread, hfront] at inside ⊢
      obtain ⟨a, front', hreach, hrun, hother⟩ := @ih front[i] front (by omega)
      refine ⟨a, front', by rw [hreach], hrun, fun other => ?_⟩
      rw [(hother other).1]
      exact ⟨rfl, (hother other).2⟩
  | write i b next ih =>
      have hlt : i < front.length := by
        rw [reach] at inside
        split at inside
        · omega
        · exact inside
      have hset : ∀ other, (front ++ other).set i b = front.set i b ++ other := fun other =>
        List.set_append_left i b hlt
      have hlong : ∀ other, i < (front ++ other).length := fun other => by
        rw [List.length_append]
        omega
      simp only [reach, run, hset, hlong, hlt, if_true] at inside ⊢
      obtain ⟨a, front', hreach, hrun, hother⟩ := @ih (front.set i b) (by
        rw [List.length_set]
        omega)
      refine ⟨a, front', by rw [hreach], hrun, fun other => ?_⟩
      rw [(hother other).1]
      exact ⟨rfl, (hother other).2⟩

end Scan

end Scans
