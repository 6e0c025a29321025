/-
Module: AnotherWs.Proofs.HttpHead
Purpose: What parse_http_heads finds: in a buffer that goes on with zeros, the value of the field in the
  bytes that were read, and nothing before the head is complete.
Trusted boundary: none
Main exports: zeroFilled, parseHttpHeads_terminated, parseHttpHeads_eq, headValue_text,
  headValue_readable_iff
-/
import Mathlib.Data.List.TakeWhile
import AnotherWs.Spec.Opening

namespace AnotherWs

/-- Bytes at the start of a larger buffer of zeros. -/
def zeroFilled (data : Bytes) (room : Nat) : Bytes := data ++ List.replicate (room + 1) 0

/-- What ends at a character ends in front of it. -/
theorem takeWhile_stop {p : UInt8 → Bool} {c : UInt8} (h : p c = false) (data rest : Bytes) :
    (data ++ c :: rest).takeWhile p = data.takeWhile p := by
  induction data with
  | nil => exact List.takeWhile_cons_of_neg (by rw [h]; exact Bool.false_ne_true)
  | cons d data ih =>
      by_cases hd : p d = true
      · rw [List.cons_append, List.takeWhile_cons_of_pos hd, List.takeWhile_cons_of_pos hd, ih]
      · rw [List.cons_append, List.takeWhile_cons_of_neg hd, List.takeWhile_cons_of_neg hd]

theorem drop_length_takeWhile (p : UInt8 → Bool) (l : Bytes) :
    l.drop (l.takeWhile p).length = l.dropWhile p := by
  have hsplit := List.takeWhile_append_dropWhile (p := p) (l := l)
  calc l.drop (l.takeWhile p).length
      = (l.takeWhile p ++ l.dropWhile p).drop (l.takeWhile p).length := by rw [hsplit]
    _ = l.dropWhile p := List.drop_left

/-- `strchr` finds where a string stops to be free of the character. -/
theorem strchr_cut (value : Bytes) (c : UInt8) :
    (strchr value c = none ∧ value.takeWhile (· ≠ c) = value) ∨
      ∃ e, strchr value c = some e ∧ value.takeWhile (· ≠ c) = value.take e := by
  unfold strchr
  induction value with
  | nil => exact Or.inl ⟨rfl, rfl⟩
  | cons d rest ih =>
      rw [Search.offset]
      by_cases hd : d = c
      · subst hd
        exact Or.inr ⟨0, by rw [if_pos (by simp)], by simp⟩
      · have hnot : ¬ [c] <+: d :: rest := by
          rintro ⟨tail, htail⟩
          rw [List.singleton_append, List.cons.injEq] at htail
          exact hd htail.1.symm
        rw [if_neg hnot, List.takeWhile_cons_of_pos (by simpa using hd)]
        rcases ih with ⟨hnone, hall⟩ | ⟨e, hsome, hcut⟩
        · exact Or.inl ⟨by rw [hnone]; rfl, by rw [hall]⟩
        · exact Or.inr ⟨e + 1, by rw [hsome]; rfl, by rw [hcut]; rfl⟩

/-- Text without a zero ends at the first zero behind it. -/
theorem takeWhile_text {text : Bytes} (terminated : 0 ∉ text) (rest : Bytes) :
    (text ++ rest).takeWhile (· ≠ 0) = text ++ rest.takeWhile (· ≠ 0) := by
  apply List.takeWhile_append_of_pos
  intro c hc
  exact decide_eq_true fun h => terminated (h ▸ hc)

/-- Where a head ends, four bytes follow, and no zero stands in front. -/
theorem offset_headEnd {data : Bytes} {k : Nat}
    (found : Search.offset headEnd (data.takeWhile (· ≠ 0)) = some k) :
    k + 4 ≤ data.length ∧ 0 ∉ data.take k := by
  obtain ⟨front, rest, hsplit, hfront⟩ := Search.offset_split found
  have hwhole := List.takeWhile_append_dropWhile (p := (· ≠ 0)) (l := data)
  rw [hsplit, List.append_assoc, List.append_assoc] at hwhole
  constructor
  · rw [← hwhole, List.length_append, List.length_append, hfront, show headEnd.length = 4 from rfl]
    omega
  · intro hzero
    rw [← hwhole, ← hfront, List.take_left] at hzero
    have hin : (0 : UInt8) ∈ data.takeWhile (· ≠ 0) := by
      rw [hsplit, List.append_assoc]
      exact List.mem_append_left _ hzero
    have hne := List.mem_takeWhile_imp hin
    simp at hne

section Terminated

variable {name mem : Bytes} {k j : Nat}

/-- The buffer with the zero that cuts the head. -/
theorem set_cut (inside : k < mem.length) : mem.set k 0 = mem.take k ++ 0 :: mem.drop (k + 1) := by
  rw [List.set_eq_take_append_cons_drop, if_pos inside]

theorem takeWhile_cut (ended : Search.offset headEnd (mem.takeWhile (· ≠ 0)) = some k) :
    (mem.set k 0).takeWhile (· ≠ 0) = mem.take k := by
  obtain ⟨hk, hzero⟩ := offset_headEnd ended
  rw [set_cut (by omega), takeWhile_text hzero]
  simp

/-- Where the value of a field stands in the buffer. -/
theorem headValue_eq (ended : Search.offset headEnd (mem.takeWhile (· ≠ 0)) = some k)
    (found : Search.offset name (mem.take k) = some j) :
    headValue name mem = some (lineValue ((mem.set k 0).drop (j + (name.length + 1)))) := by
  obtain ⟨hk, -⟩ := offset_headEnd ended
  rw [headValue, ended, Option.bind_some, found, Option.map_some, ← set_cut (by omega)]

/-- Behind the name a zero follows: the one that cuts the head, or one behind the head. -/
theorem zero_behind (terminated : 0 ∈ mem)
    (ended : Search.offset headEnd (mem.takeWhile (· ≠ 0)) = some k)
    (found : Search.offset name (mem.take k) = some j) :
    0 ∈ (mem.set k 0).drop (j + (name.length + 1)) := by
  obtain ⟨hk, -⟩ := offset_headEnd ended
  obtain ⟨front, rest, hsplit, hfront⟩ := Search.offset_split ended
  obtain ⟨before, after, hfield, hj⟩ := Search.offset_split found
  have htext := congrArg List.length hsplit
  have hhead := congrArg List.length hfield
  simp only [List.length_append, show headEnd.length = 4 from rfl] at htext
  simp only [List.length_append, List.length_take] at hhead
  rw [set_cut (by omega)]
  by_cases hmore : j + (name.length + 1) ≤ k
  · rw [List.drop_append_of_le_length (by rw [List.length_take]; omega)]
    exact List.mem_append_right _ List.mem_cons_self
  · have hdrop : (mem.take k ++ 0 :: mem.drop (k + 1)).drop (j + (name.length + 1)) =
        mem.drop (k + 1) := by
      rw [show j + (name.length + 1) = (mem.take k).length + 1 by rw [List.length_take]; omega,
        ← List.drop_drop, List.drop_left]
      rfl
    have hfront : mem.take (k + 1) <+: mem.takeWhile (· ≠ 0) := by
      apply List.prefix_of_prefix_length_le (List.take_prefix _ _) (List.takeWhile_prefix _)
      rw [List.length_take]
      omega
    rw [← List.take_append_drop (k + 1) mem, List.mem_append] at terminated
    rw [hdrop]
    refine terminated.resolve_left fun hzero => ?_
    have hne := List.mem_takeWhile_imp (hfront.subset hzero)
    simp at hne

/-- White space ends in front of a zero. -/
theorem zero_behind_spaces {line : Bytes} (terminated : 0 ∈ line) : 0 ∈ line.dropWhile isspace := by
  rw [← List.takeWhile_append_dropWhile (p := isspace) (l := line), List.mem_append] at terminated
  refine terminated.resolve_left fun h => ?_
  have hspace := List.mem_takeWhile_imp h
  cases hspace

/-- **What `parse_http_heads` finds.** In a buffer with a zero somewhere every call of the C library is
defined, and the result is the value of the field. -/
theorem parseHttpHeads_terminated (terminated : 0 ∈ mem) (name : Bytes) :
    parseHttpHeads mem name = .ok (headValue name mem) := by
  unfold parseHttpHeads
  rw [cString, List.drop_zero, if_pos terminated, ok_bind, strstr]
  cases hend : Search.offset headEnd (mem.takeWhile (· ≠ 0)) with
  | none =>
      rw [headValue, hend]
      rfl
  | some k =>
      obtain ⟨hk, -⟩ := offset_headEnd hend
      have hstore : memStore mem k [0] = .ok (mem.set k 0) := by
        rw [memStore, if_pos (by rw [List.length_singleton]; omega), set_cut (by omega),
          List.append_assoc]
        rfl
      have hcut : (0 : UInt8) ∈ (mem.set k 0).drop 0 := by
        rw [List.drop_zero]
        exact List.mem_set (by omega) 0
      dsimp only
      rw [hstore, ok_bind, cString, if_pos hcut, ok_bind, List.drop_zero, takeWhile_cut hend, strstr]
      cases hname : Search.offset name (mem.take k) with
      | none =>
          rw [headValue, hend, Option.bind_some, hname]
          rfl
      | some j =>
          have hline := zero_behind_spaces (zero_behind terminated hend hname)
          have hsplit := List.takeWhile_append_dropWhile (p := isspace)
            (l := (mem.set k 0).drop (j + (name.length + 1)))
          have hlen := congrArg List.length hsplit
          rw [List.length_append, List.length_drop] at hlen
          have hpos := List.length_pos_of_mem hline
          have hvalue := List.takeWhile_takeWhile (· ≠ 0x0d) (· ≠ 0)
            (((mem.set k 0).drop (j + (name.length + 1))).dropWhile isspace)
          dsimp only
          rw [skipSpaces, if_pos (by omega), ok_bind, cString, ← List.drop_drop, drop_length_takeWhile,
            if_pos hline, ok_bind, headValue_eq hend hname, lineValue]
          rcases strchr_cut ((((mem.set k 0).drop (j + (name.length + 1))).dropWhile isspace).takeWhile
            (· ≠ 0)) 0x0d with ⟨hstop, hall⟩ | ⟨e, hstop, hcut⟩
          · rw [hstop]
            simp only
            rw [← hall, hvalue]
            simp
          · rw [hstop]
            simp only
            rw [← hcut, hvalue]
            simp

end Terminated

/-- A line ends at a zero. -/
theorem lineValue_zero (line rest : Bytes) : lineValue (line ++ 0 :: rest) = lineValue line := by
  rw [lineValue, lineValue, List.dropWhile_append]
  split
  · rename_i hblank
    rw [List.isEmpty_iff.mp hblank, List.dropWhile_cons_of_neg (by decide)]
    rfl
  · exact takeWhile_stop (by decide) _ _

/-- Zeros behind the bytes that were read leave the value alone. -/
theorem headValue_zeroFilled (name data : Bytes) (room : Nat) :
    headValue name (zeroFilled data room) = headValue name data := by
  have hzeros : zeroFilled data room = data ++ 0 :: List.replicate room 0 := rfl
  rw [headValue, headValue, hzeros, takeWhile_stop (by simp)]
  cases hend : Search.offset headEnd (data.takeWhile (· ≠ 0)) with
  | none => rfl
  | some k =>
      obtain ⟨hk, -⟩ := offset_headEnd hend
      simp only [Option.bind_some]
      rw [List.take_append_of_le_length (show k ≤ data.length by omega)]
      cases hname : Search.offset name (data.take k) with
      | none => rfl
      | some j =>
          obtain ⟨before, after, hfield, hj⟩ := Search.offset_split hname
          have hkey : j + (name.length + 1) ≤ (data.take k ++ 0 :: data.drop (k + 1)).length := by
            rw [hfield]
            simp only [List.length_append, List.length_cons]
            omega
          have hbuffer : data.take k ++ 0 :: (data ++ 0 :: List.replicate room 0).drop (k + 1) =
              (data.take k ++ 0 :: data.drop (k + 1)) ++ 0 :: List.replicate room 0 := by
            rw [List.drop_append_of_le_length (by omega), List.append_assoc]
            rfl
          rw [Option.map_some, Option.map_some, hbuffer, List.drop_append_of_le_length hkey,
            lineValue_zero]

/-- In a buffer that goes on with zeros the value is that of the field in the bytes that were read. -/
theorem parseHttpHeads_eq (data name : Bytes) (room : Nat) :
    parseHttpHeads (zeroFilled data room) name = .ok (headValue name data) := by
  rw [parseHttpHeads_terminated (by simp [zeroFilled]), headValue_zeroFilled]

/-- A value holds no zero. -/
theorem headValue_text {name data value : Bytes} (h : headValue name data = some value) :
    0 ∉ value := by
  obtain ⟨k, -, hvalue⟩ := Option.bind_eq_some_iff.mp h
  obtain ⟨j, -, rfl⟩ := Option.map_eq_some_iff.mp hvalue
  intro hzero
  have hne := List.mem_takeWhile_imp hzero
  simp at hne

/-- Without an empty line there is no value. -/
theorem headValue_unended {name data : Bytes} (h : ¬ headEnd <:+: data) :
    headValue name data = none := by
  have hnone : Search.offset headEnd (data.takeWhile (· ≠ 0)) = none := by
    rw [Search.offset_eq_none_iff]
    exact fun hin => h (hin.trans (List.takeWhile_prefix _).isInfix)
  rw [headValue, hnone, Option.bind_none]

/-- White space in front of a line is passed. -/
theorem lineValue_blank {blank : Bytes} (spaces : ∀ c ∈ blank, isspace c = true) (rest : Bytes) :
    lineValue (blank ++ rest) = lineValue rest := by
  rw [lineValue, List.dropWhile_append_of_pos spaces, lineValue]

/-- A line has a value when there is something to read on it. -/
theorem lineValue_ne_nil_iff {line : Bytes} (terminated : 0 ∉ line) :
    lineValue line ≠ [] ↔ ∃ c ∈ line, isspace c = false := by
  induction line with
  | nil => exact ⟨fun h => absurd rfl h, by rintro ⟨c, hc, -⟩; exact absurd hc List.not_mem_nil⟩
  | cons d line ih =>
      rw [List.mem_cons, not_or] at terminated
      cases hd : isspace d with
      | true =>
          rw [← List.singleton_append, lineValue_blank (by simpa using hd), ih terminated.2]
          simp [hd]
      | false =>
          have hreturn : d ≠ 0x0d := by
            rintro rfl
            cases hd
          rw [lineValue, List.dropWhile_cons_of_neg (by rw [hd]; exact Bool.false_ne_true),
            List.takeWhile_cons_of_pos (by simp [hreturn, Ne.symm terminated.1])]
          exact iff_of_true (List.cons_ne_nil _ _) ⟨d, List.mem_cons_self, hd⟩

/-- The front of a buffer is the front of the string in it. -/
theorem take_string {mem : Bytes} {n : Nat} (inside : n ≤ (mem.takeWhile (· ≠ 0)).length) :
    mem.take n = (mem.takeWhile (· ≠ 0)).take n := by
  have hsplit := List.takeWhile_append_dropWhile (p := (· ≠ 0)) (l := mem)
  conv_lhs => rw [← hsplit]
  exact List.take_append_of_le_length inside

/-- What is read in a buffer is read in the string at its start. -/
theorem lineValue_string (mem : Bytes) {n : Nat} (inside : n ≤ (mem.takeWhile (· ≠ 0)).length) :
    lineValue (mem.drop n) = lineValue ((mem.takeWhile (· ≠ 0)).drop n) := by
  have hsplit := List.takeWhile_append_dropWhile (p := (· ≠ 0)) (l := mem)
  conv_lhs => rw [← hsplit]
  rw [List.drop_append_of_le_length inside]
  cases hrest : mem.dropWhile (· ≠ 0) with
  | nil => rw [List.append_nil]
  | cons d rest =>
      have hd := List.head?_dropWhile_not (p := (· ≠ 0)) (l := mem)
      rw [hrest] at hd
      rw [show d = 0 by simpa using hd, lineValue_zero]

/-- **What makes a value.** A buffer gives a value that is not empty when the string in it shows one. -/
theorem headValue_readable_iff {name mem : Bytes} :
    (∃ value, headValue name mem = some value ∧ value ≠ []) ↔
      ShowsValue name (mem.takeWhile (· ≠ 0)) := by
  have hterminated : 0 ∉ mem.takeWhile (· ≠ 0) := fun hzero => by
    have hne := List.mem_takeWhile_imp hzero
    simp at hne
  -- what is read behind the name, in the head or behind its end
  have hread : ∀ k j, Search.offset headEnd (mem.takeWhile (· ≠ 0)) = some k →
      Search.offset name (mem.take k) = some j →
      (lineValue ((mem.set k 0).drop (j + (name.length + 1))) ≠ [] ↔
        ∃ c ∈ if j + name.length < k then ((mem.takeWhile (· ≠ 0)).take k).drop (j + (name.length + 1))
          else (mem.takeWhile (· ≠ 0)).drop (k + 4), isspace c = false) := by
    intro k j hend hname
    obtain ⟨front, rest, hsplit, hfront⟩ := Search.offset_split hend
    obtain ⟨before, after, hfield, hj⟩ := Search.offset_split hname
    have htext := congrArg List.length hsplit
    have hhead := congrArg List.length hfield
    obtain ⟨hk, -⟩ := offset_headEnd hend
    simp only [List.length_append, show headEnd.length = 4 from rfl] at htext
    simp only [List.length_append, List.length_take] at hhead
    rw [set_cut (by omega)]
    by_cases hmore : j + name.length < k
    · rw [if_pos hmore, List.drop_append_of_le_length (by rw [List.length_take]; omega), lineValue_zero,
        take_string (by omega)]
      exact lineValue_ne_nil_iff fun h => hterminated (List.mem_of_mem_take (List.mem_of_mem_drop h))
    · have hdrop : (mem.take k ++ 0 :: mem.drop (k + 1)).drop (j + (name.length + 1)) =
          mem.drop (k + 1) := by
        rw [show j + (name.length + 1) = (mem.take k).length + 1 by rw [List.length_take]; omega,
          ← List.drop_drop, List.drop_left]
        rfl
      have hbreaks : (mem.takeWhile (· ≠ 0)).drop (k + 1) =
          [0x0a, 0x0d, 0x0a] ++ (mem.takeWhile (· ≠ 0)).drop (k + 4) := by
        rw [hsplit, ← hfront, List.append_assoc, ← List.drop_drop, List.drop_left, ← List.drop_drop,
          List.drop_left]
        rfl
      rw [if_neg hmore, hdrop, lineValue_string mem (by omega), hbreaks,
        lineValue_blank (by decide)]
      exact lineValue_ne_nil_iff fun h => hterminated (List.mem_of_mem_drop h)
  constructor
  · rintro ⟨value, hvalue, hne⟩
    obtain ⟨k, hend, hbehind⟩ := Option.bind_eq_some_iff.mp hvalue
    obtain ⟨j, hname, -⟩ := Option.map_eq_some_iff.mp hbehind
    rw [headValue_eq hend hname, Option.some.injEq] at hvalue
    obtain ⟨front, rest, hsplit, hfront⟩ := Search.offset_split hend
    refine ⟨k, j, hend, ?_, (hread k j hend hname).mp (hvalue ▸ hne)⟩
    rwa [← take_string (by rw [hsplit, List.length_append, List.length_append]; omega)]
  · rintro ⟨k, j, hend, hname, hreadable⟩
    obtain ⟨front, rest, hsplit, hfront⟩ := Search.offset_split hend
    rw [← take_string (by rw [hsplit, List.length_append, List.length_append]; omega)] at hname
    exact ⟨_, headValue_eq hend hname, (hread k j hend hname).mpr hreadable⟩

end AnotherWs
