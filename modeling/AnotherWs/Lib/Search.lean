/-
Module: AnotherWs.Lib.Search
Purpose: The first occurrence of a pattern in a list.
Trusted boundary: none
Main exports: offset, offset_split, offset_of_split, offset_eq_none_iff, offset_append_cons,
  infix_append_cons_iff, offset_append, offset_append_of_notMem
-/
import Mathlib.Data.List.Infix

namespace Search

variable {α : Type*} [DecidableEq α]

/-- Where the pattern occurs first. -/
def offset (pattern : List α) : List α → Option Nat
  | [] => if pattern = [] then some 0 else none
  | c :: rest =>
      if pattern <+: c :: rest then some 0 else (offset pattern rest).map fun n => n + 1

theorem offset_of_isPrefix {pattern text : List α} (h : pattern <+: text) :
    offset pattern text = some 0 := by
  cases text with
  | nil =>
      rw [offset, if_pos (List.prefix_nil.mp h)]
  | cons c rest =>
      rw [offset, if_pos h]

/-- The pattern stands where it is found. -/
theorem offset_split {pattern text : List α} {n : Nat} (h : offset pattern text = some n) :
    ∃ front rest, text = front ++ pattern ++ rest ∧ front.length = n := by
  induction text generalizing n with
  | nil =>
      rw [offset] at h
      split at h
      · rename_i hnil
        cases h
        exact ⟨[], [], by rw [hnil]; rfl, rfl⟩
      · cases h
  | cons c rest ih =>
      rw [offset] at h
      split at h
      · rename_i hfront
        obtain ⟨tail, htail⟩ := hfront
        cases h
        exact ⟨[], tail, htail.symm, rfl⟩
      · obtain ⟨m, hm, rfl⟩ := Option.map_eq_some_iff.mp h
        obtain ⟨front, tail, hsplit, hlen⟩ := ih hm
        exact ⟨c :: front, tail, by rw [hsplit]; rfl, congrArg (fun n => n + 1) hlen⟩

/-- A pattern that occurs is found, there or earlier. -/
theorem offset_of_split (front pattern rest : List α) :
    ∃ n, offset pattern (front ++ pattern ++ rest) = some n ∧ n ≤ front.length := by
  induction front with
  | nil =>
      refine ⟨0, offset_of_isPrefix ?_, Nat.le_refl 0⟩
      rw [List.nil_append]
      exact List.prefix_append pattern rest
  | cons c front ih =>
      obtain ⟨n, hn, hle⟩ := ih
      rw [List.cons_append, List.cons_append, offset]
      split
      · exact ⟨0, rfl, Nat.zero_le _⟩
      · rw [hn]
        exact ⟨n + 1, rfl, Nat.succ_le_succ hle⟩

/-- Nothing is found exactly where the pattern does not occur. -/
theorem offset_eq_none_iff {pattern text : List α} :
    offset pattern text = none ↔ ¬ pattern <:+: text := by
  constructor
  · rintro hnone ⟨front, rest, rfl⟩
    obtain ⟨n, hn, -⟩ := offset_of_split front pattern rest
    rw [hn] at hnone
    cases hnone
  · intro hnot
    cases hfound : offset pattern text with
    | none => rfl
    | some n =>
        obtain ⟨front, rest, hsplit, -⟩ := offset_split hfound
        exact absurd ⟨front, rest, hsplit.symm⟩ hnot

omit [DecidableEq α] in
/-- A pattern does not reach across an element that it does not hold. -/
theorem prefix_append_cons_iff {pattern a b : List α} {c : α} (free : c ∉ pattern) :
    pattern <+: a ++ c :: b ↔ pattern <+: a := by
  constructor
  · intro h
    refine List.prefix_of_prefix_length_le h (List.prefix_append a _) ?_
    by_contra hlong
    have hin : a ++ [c] <+: pattern := by
      refine List.prefix_of_prefix_length_le ⟨b, by simp⟩ h ?_
      rw [List.length_append, List.length_singleton]
      omega
    exact free (hin.subset (by simp))
  · exact fun h => h.trans (List.prefix_append a _)

/-- Such an element cuts the search in two. -/
theorem offset_append_cons {pattern : List α} {c : α} (free : c ∉ pattern) (nonempty : pattern ≠ [])
    (a b : List α) :
    offset pattern (a ++ c :: b) =
      (offset pattern a).orElse fun _ => (offset pattern b).map fun n => n + (a.length + 1) := by
  induction a with
  | nil =>
      have hnot : ¬ pattern <+: c :: b := by
        rw [← List.nil_append (c :: b), prefix_append_cons_iff free, List.prefix_nil]
        exact nonempty
      have hnil : offset pattern [] = none := by rw [offset, if_neg nonempty]
      rw [List.nil_append, hnil, offset, if_neg hnot]
      rfl
  | cons d a ih =>
      have hiff : pattern <+: d :: (a ++ c :: b) ↔ pattern <+: d :: a :=
        prefix_append_cons_iff free (a := d :: a)
      rw [List.cons_append, offset, offset, ih]
      by_cases hfound : pattern <+: d :: a
      · rw [if_pos hfound, if_pos (hiff.mpr hfound)]
        rfl
      · rw [if_neg hfound, if_neg fun h => hfound (hiff.mp h)]
        cases offset pattern a with
        | some n => rfl
        | none =>
            simp only [Option.orElse, Option.map_none, Option.map_map, List.length_cons]
            rfl

/-- The pattern stands on one side of such an element or on the other. -/
theorem infix_append_cons_iff {pattern : List α} {c : α} (free : c ∉ pattern) (nonempty : pattern ≠ [])
    (a b : List α) : pattern <:+: a ++ c :: b ↔ pattern <:+: a ∨ pattern <:+: b := by
  rw [← not_iff_not, not_or, ← offset_eq_none_iff, ← offset_eq_none_iff, ← offset_eq_none_iff,
    offset_append_cons free nonempty]
  cases offset pattern a with
  | some n => simp
  | none => simp

/-- What is found in the front of a text is found in the whole. -/
theorem offset_append {pattern text : List α} {n : Nat} (h : offset pattern text = some n)
    (rest : List α) : offset pattern (text ++ rest) = some n := by
  induction text generalizing n with
  | nil =>
      rw [offset] at h
      split at h
      · rename_i hnil
        cases h
        exact offset_of_isPrefix (hnil ▸ List.nil_prefix)
      · cases h
  | cons c text ih =>
      rw [offset] at h
      rw [List.cons_append, offset]
      split at h
      · rename_i hfound
        cases h
        have hlonger : pattern <+: c :: (text ++ rest) :=
          hfound.trans (List.prefix_append (c :: text) rest)
        rw [if_pos hlonger]
      · rename_i hmissing
        obtain ⟨m, hm, rfl⟩ := Option.map_eq_some_iff.mp h
        -- the pattern ends inside the text, so it cannot begin at `c` and reach beyond
        have hnot : ¬ pattern <+: c :: (text ++ rest) := by
          intro hfound
          obtain ⟨front, behind, htext, -⟩ := offset_split hm
          apply hmissing
          refine List.prefix_of_prefix_length_le hfound (List.prefix_append (c :: text) rest) ?_
          rw [htext, List.length_cons, List.length_append, List.length_append]
          omega
        rw [if_neg hnot, ih hm]
        rfl

/-- Text without the first element of the pattern is passed over. -/
theorem offset_append_of_notMem {c : α} {front : List α} (free : c ∉ front) (pattern text : List α) :
    offset (c :: pattern) (front ++ text) =
      (offset (c :: pattern) text).map fun n => n + front.length := by
  induction front with
  | nil => simp
  | cons d front ih =>
      rw [List.mem_cons, not_or] at free
      have hnot : ¬ c :: pattern <+: d :: (front ++ text) := by
        rw [List.cons_prefix_cons]
        exact fun h => free.1 h.1
      rw [List.cons_append, offset, if_neg hnot, ih free.2, Option.map_map]
      rfl

end Search
