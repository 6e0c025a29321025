/-
Module: AnotherWs.Proofs.SplitLength
Purpose: When the cutting of a length is free of a division by zero and of a loop without a way out, and
that its parts are positive and sum to the length.
Trusted boundary: none
Main exports: drawParts_sum, splitOntSizeToMultiParts_exact, splitOntSizeToMultiParts_returns,
  SplitSafe, splitOntSizeToMultiParts_safe
-/
import AnotherWs.Core.SplitLength
import AnotherWs.Core.Encoder
import Mathlib.Algebra.BigOperators.Group.List.Basic

namespace AnotherWs

/-! ### The number of parts -/

theorem splitCount_toNat (count : UInt64) :
    (splitCount count).toNat = if count = 0 then 3 else min count.toNat 10 := by
  unfold splitCount defaultSplitCount maxSplitCount
  by_cases hzero : count = 0
  · subst hzero
    decide
  · simp only [hzero, if_false, gt_iff_lt, UInt64.lt_iff_toNat_lt]
    split <;> rename_i hlt
    · change 10 < count.toNat at hlt
      rw [Nat.min_eq_right hlt.le]
      rfl
    · change ¬ 10 < count.toNat at hlt
      rw [Nat.min_eq_left (Nat.not_lt.mp hlt)]

theorem splitCount_bounds (count : UInt64) :
    1 ≤ (splitCount count).toNat ∧ (splitCount count).toNat ≤ 10 := by
  have hpos : count ≠ 0 → count.toNat ≠ 0 := fun hne h => hne (UInt64.toNat_inj.mp h)
  rw [splitCount_toNat]
  split
  · decide
  · have := hpos ‹_›
    omega

theorem average_toNat (size count : UInt64) :
    (size / splitCount count).toNat = size.toNat / (splitCount count).toNat := UInt64.toNat_div ..

/-! ### One part -/

section Draw

variable {average : UInt64} {rand : Nat → RandResult}

/-- A draw that leaves the loop. -/
def Leaves (average : UInt64) (r : RandResult) : Prop := UInt64.ofNat r.val % average ≠ 0

theorem drawPart_leaves (nonzero : average ≠ 0) {pos : Nat} (leaves : Leaves average (rand pos))
    (fuel : Nat) :
    drawPart average rand (fuel + 1) pos =
      .ok (UInt64.ofNat (rand pos).val % average, pos + 1) := by
  simp only [drawPart, nonzero, if_false]
  rw [if_neg leaves]

/-- A part is positive and less than the average. -/
theorem drawPart_bounds {fuel pos pos' : Nat} {temp : UInt64}
    (drawn : drawPart average rand fuel pos = .ok (temp, pos')) :
    1 ≤ temp.toNat ∧ temp.toNat < average.toNat := by
  induction fuel generalizing pos with
  | zero => cases drawn
  | succ fuel ih =>
      simp only [drawPart] at drawn
      split at drawn
      · cases drawn
      · rename_i hzero
        split at drawn
        · exact ih drawn
        · rename_i htemp
          cases drawn
          have hpos : average.toNat ≠ 0 := fun h => hzero (UInt64.toNat_inj.mp h)
          have hne : (UInt64.ofNat (rand pos).val % average).toNat ≠ 0 :=
            fun h => htemp (UInt64.toNat_inj.mp h)
          refine ⟨Nat.one_le_iff_ne_zero.mpr hne, ?_⟩
          rw [UInt64.toNat_mod]
          exact Nat.mod_lt _ (Nat.pos_of_ne_zero hpos)

theorem drawPart_divides (nonzero : average ≠ 0) (fuel pos : Nat) :
    drawPart average rand fuel pos ≠ .error .divisionByZero := by
  induction fuel generalizing pos with
  | zero => simp [drawPart]
  | succ fuel ih =>
      simp only [drawPart, nonzero, if_false]
      split
      · exact ih _
      · simp

/-- Divided by one, every number leaves nothing. -/
theorem drawPart_one (fuel pos : Nat) : drawPart 1 rand fuel pos = .error .drawing := by
  induction fuel generalizing pos with
  | zero => rfl
  | succ fuel ih =>
      have hmod : ∀ x : UInt64, x % 1 = 0 := fun x => by
        apply UInt64.toNat_inj.mp
        rw [UInt64.toNat_mod]
        exact Nat.mod_one _
      simp [drawPart, hmod, ih]

theorem drawPart_zero (fuel pos : Nat) :
    drawPart 0 rand (fuel + 1) pos = .error .divisionByZero := by
  simp [drawPart]

/-- More fuel changes nothing once the part is drawn. -/
theorem drawPart_mono {fuel fuel' pos : Nat} (le : fuel ≤ fuel') {out : UInt64 × Nat}
    (drawn : drawPart average rand fuel pos = .ok out) :
    drawPart average rand fuel' pos = .ok out := by
  induction fuel generalizing fuel' pos with
  | zero => cases drawn
  | succ fuel ih =>
      obtain ⟨more, rfl⟩ : ∃ more, fuel' = more + 1 := ⟨fuel' - 1, by omega⟩
      simp only [drawPart] at drawn ⊢
      split at drawn
      · cases drawn
      · rename_i hzero
        rw [if_neg hzero]
        split at drawn
        · rename_i htemp
          rw [if_pos htemp]
          exact ih (by omega) drawn
        · rename_i htemp
          rw [if_neg htemp]
          exact drawn

theorem drawPart_returns (nonzero : average ≠ 0) {pos later : Nat} (le : pos ≤ later)
    (leaves : Leaves average (rand later)) :
    ∃ fuel out, drawPart average rand fuel pos = .ok out := by
  induction hgap : later - pos generalizing pos with
  | zero =>
      obtain rfl : pos = later := by omega
      exact ⟨1, _, drawPart_leaves nonzero leaves 0⟩
  | succ gap ih =>
      obtain ⟨fuel, out, hdraw⟩ := @ih (pos + 1) (by omega) (by omega)
      by_cases hleaves : Leaves average (rand pos)
      · exact ⟨1, _, drawPart_leaves nonzero hleaves 0⟩
      · refine ⟨fuel + 1, out, ?_⟩
        simp only [drawPart, nonzero, if_false]
        rw [if_pos (not_not.mp hleaves)]
        exact hdraw

/-! ### All parts but the last -/

/-- The parts drawn are positive, `added` is their sum, and each of them falls short of the average. The
entries in front of them stay. -/
theorem drawParts_sum {fuel left n pos : Nat} {added added' : UInt64} {parts parts' : Nat → UInt64}
    (room : added.toNat + left * average.toNat < 2 ^ 64)
    (drawn : drawParts average rand fuel left n pos added parts = .ok (parts', added')) :
    (∀ j < n, parts' j = parts j) ∧
    (∀ j, n ≤ j → j < n + left → 1 ≤ (parts' j).toNat) ∧
    added'.toNat = added.toNat + ((List.range' n left).map fun j => (parts' j).toNat).sum ∧
    added'.toNat + left ≤ added.toNat + left * average.toNat := by
  induction left generalizing n pos added parts with
  | zero =>
      cases drawn
      exact ⟨fun _ _ => rfl, fun j hle hlt => by omega, by simp, by simp⟩
  | succ left ih =>
      obtain ⟨⟨temp, pos'⟩, htemp, hrest⟩ := bind_eq_ok.mp drawn
      obtain ⟨hpos, hlt⟩ := drawPart_bounds htemp
      rw [Nat.succ_mul] at room
      have hadd : (added + temp).toNat = added.toNat + temp.toNat := by
        rw [UInt64.toNat_add]
        exact Nat.mod_eq_of_lt (by omega)
      obtain ⟨hfront, hparts, hsum, hle⟩ := ih (by omega) hrest
      have hhead : parts' n = temp := by
        rw [hfront n (by omega), Function.update_self]
      refine ⟨fun j hj => ?_, fun j hge hj => ?_, ?_, ?_⟩
      · rw [hfront j (by omega), Function.update_of_ne (by omega)]
      · rcases Nat.eq_or_lt_of_le hge with rfl | hgt
        · rw [hhead]
          exact hpos
        · exact hparts j hgt (by omega)
      · rw [hsum, hadd, List.range'_succ, List.map_cons, List.sum_cons, hhead]
        omega
      · rw [Nat.succ_mul]
        omega

theorem drawParts_divides (nonzero : average ≠ 0) (fuel left n pos : Nat) (added : UInt64)
    (parts : Nat → UInt64) :
    drawParts average rand fuel left n pos added parts ≠ .error .divisionByZero := by
  induction left generalizing n pos added parts with
  | zero => simp [drawParts]
  | succ left ih =>
      rw [drawParts]
      cases hdraw : drawPart average rand fuel pos with
      | error stop =>
          intro h
          cases h
          exact drawPart_divides nonzero fuel pos hdraw
      | ok out => exact ih _ _ _ _

theorem drawParts_mono {fuel fuel' left n pos : Nat} (le : fuel ≤ fuel') {added : UInt64}
    {parts : Nat → UInt64} {out : (Nat → UInt64) × UInt64}
    (drawn : drawParts average rand fuel left n pos added parts = .ok out) :
    drawParts average rand fuel' left n pos added parts = .ok out := by
  induction left generalizing n pos added parts with
  | zero => exact drawn
  | succ left ih =>
      obtain ⟨first, hfirst, hrest⟩ := bind_eq_ok.mp drawn
      exact bind_eq_ok.mpr ⟨first, drawPart_mono le hfirst, ih hrest⟩

/-- With draws that leave the loop again and again, every part is drawn in the end. -/
theorem drawParts_returns (nonzero : average ≠ 0)
    (again : ∀ pos, ∃ later, pos ≤ later ∧ Leaves average (rand later)) (left n pos : Nat)
    (added : UInt64) (parts : Nat → UInt64) :
    ∃ fuel out, drawParts average rand fuel left n pos added parts = .ok out := by
  induction left generalizing n pos added parts with
  | zero => exact ⟨0, _, rfl⟩
  | succ left ih =>
      obtain ⟨later, hle, hleaves⟩ := again pos
      obtain ⟨fuel, first, hfirst⟩ := drawPart_returns nonzero hle hleaves
      obtain ⟨fuel', out, hrest⟩ :=
        ih (n + 1) first.2 (added + first.1) (Function.update parts n first.1)
      refine ⟨max fuel fuel', out, bind_eq_ok.mpr ⟨first, ?_, ?_⟩⟩
      · exact drawPart_mono (le_max_left ..) hfirst
      · exact drawParts_mono (le_max_right ..) hrest

end Draw

/-! ### The whole function -/

variable {size count : UInt64}

/-- What a call that returns has stored: a count within the array, and positive parts that sum to the
size. -/
theorem splitOntSizeToMultiParts_exact (nonempty : size ≠ 0) {rand : Nat → RandResult} {fuel : Nat}
    {result result' : SplitResult}
    (returned : splitOntSizeToMultiParts size count rand fuel (some result) = .ok (some result')) :
    (1 ≤ result'.splitCount.toNat ∧ result'.splitCount.toNat ≤ 10) ∧
    (∀ part ∈ result'.parts, 1 ≤ part.toNat) ∧
    (result'.parts.map UInt64.toNat).sum = size.toNat := by
  obtain ⟨hone, hten⟩ := splitCount_bounds count
  simp only [splitOntSizeToMultiParts, nonempty, if_false] at returned
  obtain ⟨⟨drawn, added⟩, hdraw, hresult⟩ := bind_eq_ok.mp returned
  cases hresult
  refine ⟨⟨hone, hten⟩, ?_⟩
  have hsize : 0 < size.toNat := Nat.pos_of_ne_zero fun h => nonempty (UInt64.toNat_inj.mp h)
  have hlt := size.toNat_lt
  obtain ⟨rest, hrest⟩ : ∃ rest, (splitCount count).toNat = rest + 1 :=
    ⟨(splitCount count).toNat - 1, by omega⟩
  have havg := average_toNat size count
  rw [hrest] at havg hdraw
  rw [Nat.add_sub_cancel] at hdraw
  -- the average times the count is at most the size, so the other parts leave an average and more
  have hall : rest * (size / splitCount count).toNat + (size / splitCount count).toNat ≤
      size.toNat := by
    rw [← Nat.succ_mul, havg]
    exact Nat.mul_div_le ..
  have hzero : (0 : UInt64).toNat = 0 := rfl
  obtain ⟨-, hparts, hsum, hle⟩ := drawParts_sum (by omega) hdraw
  rw [hzero, Nat.zero_add] at hsum hle
  have hlast : (size - added).toNat = size.toNat - added.toNat :=
    UInt64.toNat_sub_of_le _ _ (UInt64.le_iff_toNat_le.mpr (by omega))
  have hsingle : rest = 0 → (size / splitCount count).toNat = size.toNat := by
    rintro rfl
    rw [havg, Nat.div_one]
  have hother : ∀ j < rest, Function.update drawn rest (size - added) j = drawn j :=
    fun j hj => Function.update_of_ne (by omega) ..
  unfold SplitResult.parts
  simp only [hrest, Nat.add_sub_cancel]
  constructor
  · intro part hpart
    obtain ⟨j, hj, rfl⟩ := List.mem_map.mp hpart
    rcases Nat.lt_succ_iff_lt_or_eq.mp (List.mem_range.mp hj) with hlt | rfl
    · rw [hother j hlt]
      exact hparts j (Nat.zero_le j) (by omega)
    · rw [Function.update_self, hlast]
      omega
  · have hfront : (List.range rest).map
        (UInt64.toNat ∘ Function.update drawn rest (size - added)) =
          (List.range' 0 rest).map fun j => (drawn j).toNat := by
      rw [← List.range_eq_range']
      refine List.map_congr_left fun j hj => ?_
      rw [Function.comp_apply, hother j (List.mem_range.mp hj)]
    rw [List.map_map, List.range_succ, List.map_append, List.sum_append, hfront, ← hsum,
      List.map_singleton, List.sum_singleton, Function.comp_apply, Function.update_self, hlast]
    omega

/-- A result is there for every sequence that leaves the loop again and again. -/
theorem splitOntSizeToMultiParts_returns (nonzero : size / splitCount count ≠ 0)
    {rand : Nat → RandResult}
    (again : ∀ pos, ∃ later, pos ≤ later ∧ Leaves (size / splitCount count) (rand later))
    (result : SplitResult) :
    ∃ fuel result', splitOntSizeToMultiParts size count rand fuel (some result) =
      .ok (some result') := by
  by_cases hsize : size = 0
  · exact ⟨0, result, by simp [splitOntSizeToMultiParts, hsize]⟩
  · obtain ⟨fuel, out, hdraw⟩ :=
      drawParts_returns nonzero again ((splitCount count).toNat - 1) 0 0 0 result.splitResult
    refine ⟨fuel, ⟨splitCount count, Function.update out.1 ((splitCount count).toNat - 1)
      (size - out.2)⟩, ?_⟩
    simp only [splitOntSizeToMultiParts, hsize, if_false]
    exact bind_eq_ok.mpr ⟨out, hdraw, rfl⟩

/-- A call that draws a part stops as the first draw does. -/
theorem splitOntSizeToMultiParts_error (nonempty : size ≠ 0) (many : splitCount count ≠ 1)
    {rand : Nat → RandResult} {fuel : Nat} {stop : SplitStop}
    (first : drawPart (size / splitCount count) rand fuel 0 = .error stop) (result : SplitResult) :
    splitOntSizeToMultiParts size count rand fuel (some result) = .error stop := by
  obtain ⟨hone, -⟩ := splitCount_bounds count
  have hmany : (splitCount count).toNat ≠ 1 := fun h => many (UInt64.toNat_inj.mp h)
  obtain ⟨left, hleft⟩ : ∃ left, (splitCount count).toNat - 1 = left + 1 :=
    ⟨(splitCount count).toNat - 2, by omega⟩
  simp only [splitOntSizeToMultiParts, nonempty, if_false, hleft, drawParts, first, error_bind]

/-- An average of one holds the call for ever. -/
theorem splitOntSizeToMultiParts_hangs (nonempty : size ≠ 0) (many : splitCount count ≠ 1)
    (short : size / splitCount count = 1) (rand : Nat → RandResult) (fuel : Nat)
    (result : SplitResult) :
    splitOntSizeToMultiParts size count rand fuel (some result) = .error .drawing := by
  refine splitOntSizeToMultiParts_error nonempty many ?_ result
  rw [short]
  exact drawPart_one fuel 0

/-- A size below the count is divided by zero at the first draw. -/
theorem splitOntSizeToMultiParts_zero (nonempty : size ≠ 0) (short : size / splitCount count = 0)
    (rand : Nat → RandResult) (fuel : Nat) (result : SplitResult) :
    splitOntSizeToMultiParts size count rand (fuel + 1) (some result) =
      .error .divisionByZero := by
  have hmany : splitCount count ≠ 1 := by
    intro h
    rw [h, UInt64.div_one] at short
    exact nonempty short
  refine splitOntSizeToMultiParts_error nonempty hmany ?_ result
  rw [short]
  exact drawPart_zero fuel 0

/-- The promises about one size and one requested count: no division by zero whatever `rand()` returns,
a number that leaves the loop whenever it comes up, if there is a part to draw, and an exact result. -/
structure SplitSafe (size count : UInt64) : Prop where
  divides : ∀ rand fuel result,
    splitOntSizeToMultiParts size count rand fuel result ≠ .error .divisionByZero
  leaves : splitCount count ≠ 1 → ∃ r : RandResult, ∀ (rand : Nat → RandResult) (pos : Nat),
    rand pos = r → ∀ fuel, ∃ temp,
      drawPart (size / splitCount count) rand (fuel + 1) pos = .ok (temp, pos + 1)
  sums : ∀ rand fuel result result',
    splitOntSizeToMultiParts size count rand fuel (some result) = .ok (some result') →
      (1 ≤ result'.splitCount.toNat ∧ result'.splitCount.toNat ≤ 10) ∧
      (∀ part ∈ result'.parts, 1 ≤ part.toNat) ∧
      (result'.parts.map UInt64.toNat).sum = size.toNat

/-- Cutting is safe and exact when there is one part only, or an average of at least two. -/
theorem splitOntSizeToMultiParts_safe (nonempty : 1 ≤ size.toNat) :
    SplitSafe size count ↔
      splitCount count = 1 ∨ 2 * (splitCount count).toNat ≤ size.toNat := by
  have hsize : size ≠ 0 := by
    rintro rfl
    exact absurd nonempty (by decide)
  obtain ⟨hone, hten⟩ := splitCount_bounds count
  have havg := average_toNat size count
  constructor
  · intro safe
    by_contra! hcontra
    obtain ⟨hmany, hshort⟩ := hcontra
    obtain ⟨r, hleaves⟩ := safe.leaves hmany
    obtain ⟨temp, hdraw⟩ := hleaves (fun _ => r) 0 rfl 0
    obtain ⟨hpos, hlt⟩ := drawPart_bounds hdraw
    have htwo : 2 ≤ size.toNat / (splitCount count).toNat := by omega
    have := (Nat.le_div_iff_mul_le (by omega)).mp htwo
    omega
  · intro hcond
    have hpos : 1 ≤ (size / splitCount count).toNat := by
      rw [havg, Nat.one_le_div_iff (by omega)]
      rcases hcond with hcount | hlong
      · rw [hcount]
        exact nonempty
      · omega
    have hdivisor : size / splitCount count ≠ 0 := by
      intro h
      rw [h] at hpos
      exact absurd hpos (by decide)
    refine ⟨fun rand fuel result => ?_, fun hmany => ?_, fun _ _ _ _ returned => ?_⟩
    · cases result with
      | none => simp [splitOntSizeToMultiParts]
      | some result =>
          simp only [splitOntSizeToMultiParts, hsize, if_false]
          cases hdraw : drawParts (size / splitCount count) rand fuel
              ((splitCount count).toNat - 1) 0 0 0 result.splitResult with
          | ok out => simp
          | error stop =>
              intro h
              cases h
              exact drawParts_divides hdivisor _ _ _ _ _ _ hdraw
    · have htwo : 2 ≤ (size / splitCount count).toNat := by
        rw [havg, Nat.le_div_iff_mul_le (by omega)]
        exact hcond.resolve_left hmany
      refine ⟨1, fun rand pos hr fuel => ⟨_, drawPart_leaves hdivisor ?_ fuel⟩⟩
      rw [hr]
      intro h
      have hnat := congrArg UInt64.toNat h
      rw [UInt64.toNat_mod] at hnat
      change 1 % (size / splitCount count).toNat = 0 at hnat
      rw [Nat.mod_eq_of_lt (by omega)] at hnat
      exact absurd hnat (by decide)
    · exact splitOntSizeToMultiParts_exact hsize returned

theorem splitOntSizeToMultiParts_safe_ten :
    1 ≤ (10 : UInt64).toNat ∧ (SplitSafe 10 3 ↔
      splitCount 3 = 1 ∨ 2 * (splitCount 3).toNat ≤ (10 : UInt64).toNat) :=
  ⟨by decide, splitOntSizeToMultiParts_safe (by decide)⟩

/-- The encoding of a one-byte message has three bytes. Cut into three parts its average is one, and no
number leaves the loop. -/
theorem splitOntSizeToMultiParts_stuck :
    (∃ buf, generateWebsocketFrame (membufInit 128) [0x41] wsTextFrame = .ok buf ∧
      buf.content.length = 3) ∧
    (∀ rand fuel result, splitOntSizeToMultiParts 3 3 rand fuel (some result) = .error .drawing) ∧
    ¬ SplitSafe 3 3 := by
  have haverage : (3 : UInt64) / splitCount 3 = 1 := by decide
  refine ⟨?_, splitOntSizeToMultiParts_hangs (by decide) (by decide) haverage, fun safe => ?_⟩
  · exact ⟨_, rfl, by decide⟩
  · obtain ⟨r, hleaves⟩ := safe.leaves (by decide)
    obtain ⟨temp, hdraw⟩ := hleaves (fun _ => r) 0 rfl 0
    rw [haverage, drawPart_one] at hdraw
    cases hdraw

end AnotherWs
