/-
Module: AnotherWs.Lib.Slots
Purpose: What is in a family of one-place slots, read in a fixed order, when a slot is filled or
  emptied.
Trusted boundary: none
Main exports:
  Slots.contents, contents_fill_perm, contents_empty_perm, contents_fill_last, contents_empty_first
-/
import Mathlib.Data.List.Perm.Basic
import Mathlib.Data.List.Nodup
import Mathlib.Logic.Function.Basic

namespace Slots

variable {ι β : Type*}

/-- What the slots hold, in the order of `l`. -/
def contents (l : List ι) (f : ι → Option β) : List β := l.filterMap f

variable {l : List ι} {f : ι → Option β} {i : ι} {b : β}

theorem mem_contents : b ∈ contents l f ↔ ∃ i ∈ l, f i = some b := List.mem_filterMap

theorem contents_append (front back : List ι) (f : ι → Option β) :
    contents (front ++ back) f = contents front f ++ contents back f := List.filterMap_append

theorem contents_eq_nil (h : ∀ j ∈ l, f j = none) : contents l f = [] :=
  List.filterMap_eq_nil_iff.mpr h

theorem contents_cons_some (h : f i = some b) : contents (i :: l) f = b :: contents l f :=
  List.filterMap_cons_some h

theorem contents_cons_none (h : f i = none) : contents (i :: l) f = contents l f :=
  List.filterMap_cons_none h

variable [DecidableEq ι]

/-- Slots outside the list do not count. -/
theorem contents_update_of_notMem (h : i ∉ l) (value : Option β) :
    contents l (Function.update f i value) = contents l f := by
  refine List.filterMap_congr fun j hj => ?_
  rw [Function.update_of_ne]
  rintro rfl
  exact h hj

/-- Filling an empty slot behind which every slot is empty. -/
theorem contents_fill_last {front back : List ι} (nodup : (front ++ i :: back).Nodup)
    (free : ∀ j ∈ i :: back, f j = none) :
    contents (front ++ i :: back) (Function.update f i (some b)) =
      contents (front ++ i :: back) f ++ [b] := by
  obtain ⟨-, hback, hdisjoint⟩ := List.nodup_append.mp nodup
  have hfront : i ∉ front := fun h => hdisjoint i h i List.mem_cons_self rfl
  rw [contents_append, contents_update_of_notMem hfront,
    contents_cons_some (Function.update_self ..),
    contents_update_of_notMem (List.nodup_cons.mp hback).1, contents_append,
    contents_eq_nil free, contents_eq_nil fun j hj => free j (List.mem_cons_of_mem _ hj),
    List.append_nil]

/-- Emptying the first slot that is filled. -/
theorem contents_empty_first {front back : List ι} (nodup : (front ++ i :: back).Nodup)
    (empty : ∀ j ∈ front, f j = none) (filled : f i = some b) :
    contents (front ++ i :: back) f =
      b :: contents (front ++ i :: back) (Function.update f i none) := by
  obtain ⟨-, hback, hdisjoint⟩ := List.nodup_append.mp nodup
  have hfront : i ∉ front := fun h => hdisjoint i h i List.mem_cons_self rfl
  rw [contents_append, contents_eq_nil empty, contents_cons_some filled, contents_append,
    contents_update_of_notMem hfront, contents_eq_nil empty,
    contents_cons_none (Function.update_self ..),
    contents_update_of_notMem (List.nodup_cons.mp hback).1]
  rfl

/-- Filling an empty slot adds its value. -/
theorem contents_fill_perm (nodup : l.Nodup) (mem : i ∈ l) (free : f i = none) :
    (contents l (Function.update f i (some b))).Perm (b :: contents l f) := by
  obtain ⟨front, back, rfl⟩ := List.append_of_mem mem
  obtain ⟨-, hback, hdisjoint⟩ := List.nodup_append.mp nodup
  have hfront : i ∉ front := fun h => hdisjoint i h i List.mem_cons_self rfl
  rw [contents_append, contents_update_of_notMem hfront,
    contents_cons_some (Function.update_self ..),
    contents_update_of_notMem (List.nodup_cons.mp hback).1, contents_append,
    contents_cons_none free]
  exact List.perm_middle

/-- Emptying a slot takes its value away. -/
theorem contents_empty_perm (nodup : l.Nodup) (mem : i ∈ l) (filled : f i = some b) :
    (contents l f).Perm (b :: contents l (Function.update f i none)) := by
  have hfill := contents_fill_perm (b := b) nodup mem
    (show Function.update f i none i = none from Function.update_self ..)
  rwa [Function.update_idem, ← filled, Function.update_eq_self] at hfill

end Slots
