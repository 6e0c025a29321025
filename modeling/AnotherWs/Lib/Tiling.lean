/-
Module: AnotherWs.Lib.Tiling
Purpose: A line of cells, some empty and some holding an item, cut into gaps and groups of
  neighbours. The line is read from its front, cell by cell, and what was read goes to its back.
Trusted boundary: none
Main exports:
  Tiled, Lane, Lane.read, Lane.enter, Lane.skip, Lane.insert
-/
import Mathlib.Data.List.Basic

namespace Tiling

variable {α : Type*} {group : List α → Prop}

/-- A line of empty cells and whole groups. -/
inductive Tiled (group : List α → Prop) : List (Option α) → Prop where
  | nil : Tiled group []
  | gap {rest : List (Option α)} (tiled : Tiled group rest) : Tiled group (none :: rest)
  | tile {a : α} {m : List α} {rest : List (Option α)} (isGroup : group (a :: m))
      (tiled : Tiled group rest) : Tiled group (some a :: (m.map some ++ rest))

namespace Tiled

theorem append {front back : List (Option α)} (first : Tiled group front)
    (second : Tiled group back) : Tiled group (front ++ back) := by
  induction first with
  | nil => exact second
  | gap tiled ih => exact ih.gap
  | tile isGroup tiled ih =>
      rw [List.cons_append, List.append_assoc]
      exact .tile isGroup ih

theorem of_gap {rest : List (Option α)} (h : Tiled group (none :: rest)) : Tiled group rest := by
  cases h with
  | gap tiled => exact tiled

theorem of_group {m : List α} (isGroup : group m) (nonempty : m ≠ []) :
    Tiled group (m.map some) := by
  cases m with
  | nil => exact absurd rfl nonempty
  | cons a rest => simpa using Tiled.tile isGroup .nil

/-- A gap cuts a line in two. -/
theorem split_gap {front back : List (Option α)} (h : Tiled group (front ++ none :: back)) :
    Tiled group front ∧ Tiled group back := by
  generalize hw : front ++ none :: back = w at h
  induction h generalizing front with
  | nil => simp at hw
  | @gap rest tiled ih =>
      cases front with
      | nil =>
          rw [List.nil_append, List.cons.injEq] at hw
          exact ⟨.nil, hw.2 ▸ tiled⟩
      | cons x front =>
          rw [List.cons_append, List.cons.injEq] at hw
          obtain ⟨rfl, hrest⟩ := hw
          obtain ⟨hfront, hback⟩ := ih hrest
          exact ⟨hfront.gap, hback⟩
  | @tile a m rest isGroup tiled ih =>
      cases front with
      | nil => simp at hw
      | cons x front =>
          rw [List.cons_append, List.cons.injEq] at hw
          obtain ⟨rfl, hrest⟩ := hw
          rcases List.append_eq_append_iff.mp hrest with ⟨inner, hm, htail⟩ | ⟨inner, hfront, htail⟩
          · -- the gap would have to lie inside the group
            cases inner with
            | nil =>
                rw [List.append_nil] at hm
                obtain ⟨-, hback⟩ := ih (show [] ++ none :: back = rest from htail)
                rw [← hm]
                exact ⟨by simpa using Tiled.tile isGroup .nil, hback⟩
            | cons y inner =>
                rw [List.cons_append, List.cons.injEq] at htail
                have hmem : (none : Option α) ∈ m.map some := by
                  rw [hm, ← htail.1]
                  simp
                simp at hmem
          · obtain ⟨hinner, hback⟩ := ih htail.symm
            rw [hfront]
            exact ⟨.tile isGroup hinner, hback⟩

/-- A line that starts with an item starts with a group. -/
theorem of_item {a : α} {rest : List (Option α)} (h : Tiled group (some a :: rest)) :
    ∃ m rest', group (a :: m) ∧ rest = m.map some ++ rest' ∧ Tiled group rest' := by
  cases h with
  | tile isGroup tiled => exact ⟨_, _, isGroup, rfl, tiled⟩

end Tiled

/-- A line whose front is what is left of a group: `cur` is still to be read. -/
def Lane (group : List α → Prop) (cur : List α) (line : List (Option α)) : Prop :=
  ∃ rest, line = cur.map some ++ rest ∧ Tiled group rest

namespace Lane

variable {cur : List α} {a : α} {line : List (Option α)}

/-- Reading inside a group. -/
theorem read (h : Lane group (a :: cur) (some a :: line)) : Lane group cur (line ++ [none]) := by
  obtain ⟨rest, hline, htiled⟩ := h
  rw [List.map_cons, List.cons_append, List.cons.injEq] at hline
  refine ⟨rest ++ [none], ?_, htiled.append (.gap .nil)⟩
  rw [hline.2, List.append_assoc]

/-- What lies in front of a line in the middle of a group. -/
theorem head_eq {x : Option α} (h : Lane group (a :: cur) (x :: line)) : x = some a := by
  obtain ⟨rest, hline, -⟩ := h
  rw [List.map_cons, List.cons_append, List.cons.injEq] at hline
  exact hline.1

/-- Reading the first item of a group. -/
theorem enter (h : Lane group [] (some a :: line)) :
    ∃ m, group (a :: m) ∧ (∃ rest, line = m.map some ++ rest) ∧ Lane group m (line ++ [none]) := by
  obtain ⟨rest, hline, htiled⟩ := h
  rw [List.map_nil, List.nil_append] at hline
  obtain ⟨m, rest', hgroup, htail, htiled'⟩ := Tiled.of_item (hline ▸ htiled)
  refine ⟨m, hgroup, ⟨rest', htail⟩, rest' ++ [none], ?_, htiled'.append (.gap .nil)⟩
  rw [htail, List.append_assoc]

/-- Passing an empty cell. -/
theorem skip (h : Lane group [] (none :: line)) : Lane group [] (line ++ [none]) := by
  obtain ⟨rest, hline, htiled⟩ := h
  rw [List.map_nil, List.nil_append] at hline
  exact ⟨line ++ [none], rfl, (Tiled.of_gap (hline ▸ htiled)).append (.gap .nil)⟩

/-- Passing a group of one item without reading it. -/
theorem keep (h : Lane group [] (some a :: line)) (single : ∀ m, group (a :: m) →
    (∃ rest, line = m.map some ++ rest) → m = []) : Lane group [] (line ++ [some a]) := by
  obtain ⟨rest, hline, htiled⟩ := h
  rw [List.map_nil, List.nil_append] at hline
  obtain ⟨m, rest', hgroup, htail, htiled'⟩ := Tiled.of_item (hline ▸ htiled)
  obtain rfl := single m hgroup ⟨rest', htail⟩
  rw [List.map_nil, List.nil_append] at htail
  rw [htail]
  exact ⟨rest' ++ [some a], rfl, htiled'.append (.tile hgroup .nil)⟩

/-- A group put into neighbouring empty cells. -/
theorem insert {front back gaps : List (Option α)} {m : List α}
    (h : Lane group cur (front ++ gaps ++ back)) (empty : ∀ x ∈ gaps, x = none) (nonempty : gaps ≠ [])
    (isGroup : group m) (hm : m ≠ []) : Lane group cur (front ++ m.map some ++ back) := by
  obtain ⟨rest, hline, htiled⟩ := h
  cases gaps with
  | nil => exact absurd rfl nonempty
  | cons x gaps =>
      obtain rfl := empty x List.mem_cons_self
      have hgaps : ∀ {gaps : List (Option α)}, (∀ x ∈ gaps, x = none) →
          Tiled group (gaps ++ back) → Tiled group back := by
        intro gaps
        induction gaps with
        | nil => exact fun _ h => h
        | cons y gaps ih =>
            intro hall h
            obtain rfl := hall y List.mem_cons_self
            exact ih (fun z hz => hall z (List.mem_cons_of_mem _ hz)) h.of_gap
      rw [List.append_assoc, List.cons_append] at hline
      -- the empty cells lie behind the group that is being read
      have hfront : ∃ front', front = cur.map some ++ front' ∧
          rest = front' ++ none :: (gaps ++ back) := by
        rcases List.append_eq_append_iff.mp hline with ⟨inner, hcur, hrest⟩ | ⟨inner, hfront, hrest⟩
        · cases inner with
          | nil =>
              rw [List.append_nil] at hcur
              exact ⟨[], by rw [hcur, List.append_nil], by rw [List.nil_append]; exact hrest.symm⟩
          | cons y inner =>
              rw [List.cons_append, List.cons.injEq] at hrest
              have hmem : (none : Option α) ∈ cur.map some := by
                rw [hcur, ← hrest.1]
                simp
              simp at hmem
        · exact ⟨inner, hfront, hrest⟩
      obtain ⟨front', rfl, rfl⟩ := hfront
      obtain ⟨htfront, htback⟩ := htiled.split_gap
      refine ⟨front' ++ (m.map some ++ back), by simp, ?_⟩
      exact htfront.append ((Tiled.of_group isGroup hm).append
        (hgaps (fun y hy => empty y (List.mem_cons_of_mem _ hy)) htback))

end Lane

end Tiling
