/-
Module: AnotherWs.Lib.Tally
Purpose: What a family of places weighs when one place changes. With a weight that marks the places
  of one kind a tally counts them; with a weight that goes down it measures what is left to do.
Trusted boundary: none
Main exports: Tallies.tally, tally_update, tally_same, tally_eq_zero_iff
-/
import Mathlib.Algebra.BigOperators.Group.Finset.Piecewise
import Mathlib.Algebra.Order.BigOperators.Group.Finset

namespace Tallies

variable {α : Type*}

/-- What the places below `n` weigh. -/
def tally (weight : α → Nat) (n : Nat) (places : Nat → α) : Nat :=
  ∑ i ∈ Finset.range n, weight (places i)

variable {weight : α → Nat} {n i : Nat} {places : Nat → α}

/-- **One place changes.** -/
theorem tally_update (inside : i < n) (value : α) :
    tally weight n (Function.update places i value) + weight (places i) =
      tally weight n places + weight value := by
  have hmem : i ∈ Finset.range n := Finset.mem_range.mpr inside
  have hrest : ∑ j ∈ (Finset.range n).erase i, weight (Function.update places i value j) =
      ∑ j ∈ (Finset.range n).erase i, weight (places j) := by
    refine Finset.sum_congr rfl fun j hj => ?_
    rw [Function.update_of_ne (Finset.ne_of_mem_erase hj)]
  unfold tally
  rw [← Finset.add_sum_erase _ _ hmem, ← Finset.add_sum_erase _ (fun j => weight (places j)) hmem,
    hrest, Function.update_self]
  omega

/-- A change that the weight does not see. -/
theorem tally_same (inside : i < n) {value : α} (same : weight value = weight (places i)) :
    tally weight n (Function.update places i value) = tally weight n places := by
  have h : tally weight n (Function.update places i value) + weight (places i) =
      tally weight n places + weight value := tally_update inside value
  omega

theorem weight_le_tally (inside : i < n) : weight (places i) ≤ tally weight n places :=
  Finset.single_le_sum (f := fun j => weight (places j)) (fun _ _ => Nat.zero_le _)
    (Finset.mem_range.mpr inside)

/-- A lighter weight. -/
theorem tally_le_tally {lighter : α → Nat} (h : ∀ a, lighter a ≤ weight a) :
    tally lighter n places ≤ tally weight n places := Finset.sum_le_sum fun i _ => h (places i)

theorem tally_eq_zero_iff : tally weight n places = 0 ↔ ∀ i < n, weight (places i) = 0 := by
  simp [tally]

end Tallies
