/-
Module: AnotherWs.Proofs.Reserve
Purpose: Which requests membuf_reserve meets, over the whole range of sizes that the frame code admits.
Trusted boundary: none
Main exports: reserveLoop_eq_ok_iff, reserveLoop_ends_iff, Delivers, DoublingReaches,
  membufReserve_delivers_iff, doublingReaches_doubled_iff, Growable, membufAppendData_growable, HasRoom,
  membufAppendData_hasRoom, DoubledFrom, membufAppendData_doubledFrom
-/
import AnotherWs.Core.Membuf
import Mathlib.Order.Basic
import Mathlib.Order.Nat

namespace AnotherWs

/-! ### The loop -/

/-- Doubling a cut value and cutting it again doubles the value once more. -/
theorem double_mod (i n : Nat) : 2 ^ i * (2 * n % 2 ^ 32) % 2 ^ 32 = 2 ^ (i + 1) * n % 2 ^ 32 := by
  rw [Nat.mul_mod_mod]
  congr 1
  ring

theorem two_pow_mul_mod (n : Nat) {j : Nat} (wide : 32 ≤ j) : 2 ^ j * n % 2 ^ 32 = 0 := by
  obtain ⟨i, rfl⟩ := Nat.exists_eq_add_of_le wide
  rw [Nat.pow_add, Nat.mul_assoc]
  exact Nat.mul_mod_right _ _

/-- The loop stops at the first doubling that is not below the target. -/
theorem reserveLoop_eq_ok_iff {fuel n target m : Nat} (word : n < 2 ^ 32) :
    reserveLoop fuel n target = .ok m ↔
      ∃ j < fuel, m = 2 ^ j * n % 2 ^ 32 ∧ target ≤ m ∧ ∀ i < j, 2 ^ i * n % 2 ^ 32 < target := by
  induction fuel generalizing n with
  | zero => simp [reserveLoop]
  | succ fuel ih =>
      have hself : 2 ^ 0 * n % 2 ^ 32 = n := by
        rw [Nat.pow_zero, Nat.one_mul, Nat.mod_eq_of_lt word]
      rw [reserveLoop]
      by_cases hlt : n < target
      · rw [if_pos hlt, ih (Nat.mod_lt _ (by decide))]
        simp only [double_mod]
        constructor
        · rintro ⟨j, hj, hm, hge, hbefore⟩
          refine ⟨j + 1, by omega, hm, hge, fun i hi => ?_⟩
          cases i with
          | zero => exact hself.symm ▸ hlt
          | succ i => exact hbefore i (by omega)
        · rintro ⟨j, hj, hm, hge, hbefore⟩
          cases j with
          | zero =>
              rw [hself] at hm
              omega
          | succ j => exact ⟨j, by omega, hm, hge, fun i hi => hbefore (i + 1) (by omega)⟩
      · rw [if_neg hlt, Except.ok.injEq]
        constructor
        · rintro rfl
          exact ⟨0, Nat.zero_lt_succ _, hself.symm, by omega, fun i hi => absurd hi (Nat.not_lt_zero i)⟩
        · rintro ⟨j, -, hm, -, hbefore⟩
          cases j with
          | zero => rw [hm, hself]
          | succ j =>
              have hfirst := hbefore 0 (Nat.zero_lt_succ j)
              rw [hself] at hfirst
              exact absurd hfirst hlt

/-- With 33 rounds the loop comes to its end if it has one. -/
theorem reserveLoop_ends_iff {n target : Nat} (word : n < 2 ^ 32) :
    (∃ m, reserveLoop 33 n target = .ok m) ↔ ∃ j, target ≤ 2 ^ j * n % 2 ^ 32 := by
  constructor
  · rintro ⟨m, hm⟩
    obtain ⟨j, -, rfl, hge, -⟩ := (reserveLoop_eq_ok_iff word).mp hm
    exact ⟨j, hge⟩
  · intro hreach
    have hfirst := Nat.find_spec hreach
    have hbefore : ∀ i < Nat.find hreach, 2 ^ i * n % 2 ^ 32 < target :=
      fun i hi => Nat.lt_of_not_le (Nat.find_min hreach hi)
    have hlt : Nat.find hreach < 33 := by
      by_contra hwide
      have hzero := hbefore 32 (by omega)
      have hend := two_pow_mul_mod n (show 32 ≤ Nat.find hreach by omega)
      omega
    exact ⟨_, (reserveLoop_eq_ok_iff word).mpr ⟨_, hlt, rfl, hfirst, hbefore⟩⟩

/-- More rounds make no difference: where 33 are not enough, the loop of the source never ends. -/
theorem reserveLoop_fuel {fuel n target m : Nat} (word : n < 2 ^ 32)
    (ended : reserveLoop fuel n target = .ok m) : reserveLoop 33 n target = .ok m := by
  obtain ⟨j, -, hm, hge, hbefore⟩ := (reserveLoop_eq_ok_iff word).mp ended
  refine (reserveLoop_eq_ok_iff word).mpr ⟨j, ?_, hm, hge, hbefore⟩
  by_contra hwide
  have hzero := hbefore 32 (by omega)
  have hend := two_pow_mul_mod n (show 32 ≤ j by omega)
  omega

/-! ### The room -/

/-- `membuf_reserve` returns with the room it was asked for and the bytes in use unchanged. -/
def Delivers (buf : Membuf) (extraSize : Nat) : Prop :=
  ∃ buf', membufReserve buf extraSize = .ok buf' ∧ extraSize ≤ buf'.bufferSize - buf'.size ∧
    buf'.content = buf.content

/-- There is room already; or there is no allocation yet and the size fits 32 bits; or the capacity,
doubled once or more and cut to 32 bits, reaches the size that is needed. -/
def DoublingReaches (buf : Membuf) (extraSize : Nat) : Prop :=
  extraSize ≤ buf.bufferSize - buf.size ∨
    (buf.bufferSize = 0 ∧ buf.size + extraSize < 2 ^ 32) ∨
    ∃ j, 0 < j ∧ buf.size + extraSize ≤ 2 ^ j * buf.bufferSize % 2 ^ 32

/-- What a growing reserve gives a buffer that has an allocation. -/
theorem membufReserve_grown {buf buf' : Membuf} {extraSize : Nat} (allocated : buf.bufferSize ≠ 0)
    (grow : buf.bufferSize - buf.size < extraSize)
    (reserved : membufReserve buf extraSize = .ok buf') :
    ∃ j, 0 < j ∧ buf'.bufferSize = 2 ^ j * buf.bufferSize % 2 ^ 32 ∧
      (buf.size + extraSize) % 2 ^ 32 ≤ buf'.bufferSize ∧
      ∀ i, 0 < i → i < j → 2 ^ i * buf.bufferSize % 2 ^ 32 < (buf.size + extraSize) % 2 ^ 32 := by
  rw [membufReserve, if_pos grow, if_neg allocated] at reserved
  obtain ⟨newBufferSize, hloop, reserved⟩ := bind_eq_ok.mp reserved
  obtain ⟨j, -, hm, hge, hbefore⟩ := (reserveLoop_eq_ok_iff (Nat.mod_lt _ (by decide))).mp hloop
  rw [double_mod] at hm
  simp only [double_mod] at hbefore
  have hnew : buf'.bufferSize = newBufferSize := by
    split at reserved
    · cases reserved
    · split at reserved
      · cases reserved
        rfl
      · cases reserved
  rw [hnew]
  refine ⟨j + 1, Nat.succ_pos j, hm, hge, fun i hpos hi => ?_⟩
  have hi' := hbefore (i - 1) (by omega)
  rwa [Nat.sub_add_cancel hpos] at hi'

/-- A growing reserve of less than `2 ^ 32` bytes in all succeeds when its loop ends. -/
theorem membufReserve_of_reaches {buf : Membuf} {extraSize : Nat}
    (grow : buf.bufferSize - buf.size < extraSize) (word : buf.size + extraSize < 2 ^ 32)
    (reaches : ∃ j, buf.size + extraSize ≤
      2 ^ j * ((if buf.bufferSize = 0 then extraSize else 2 * buf.bufferSize) % 2 ^ 32) % 2 ^ 32) :
    ∃ buf', membufReserve buf extraSize = .ok buf' ∧ buf.size + extraSize ≤ buf'.bufferSize := by
  obtain ⟨m, hloop⟩ := (reserveLoop_ends_iff (Nat.mod_lt _ (by decide))).mpr reaches
  obtain ⟨j, -, -, hge, -⟩ := (reserveLoop_eq_ok_iff (Nat.mod_lt _ (by decide))).mp hloop
  rw [membufReserve, if_pos grow, Nat.mod_eq_of_lt word]
  simp only [hloop, ok_bind]
  rw [if_neg (by omega), dif_pos (by omega)]
  exact ⟨_, rfl, hge⟩

/-- **Room.** Over all sizes that the frame code admits, `membuf_reserve` does what it says exactly when
the doublings of the capacity reach the size. -/
theorem membufReserve_delivers_iff {buf : Membuf} {extraSize : Nat}
    (admitted : buf.size + extraSize ≤ 0xFFFFFFFF + 14) :
    Delivers buf extraSize ↔ DoublingReaches buf extraSize := by
  have hsize := buf.size_le
  by_cases hgrow : buf.bufferSize - buf.size < extraSize
  · constructor
    · rintro ⟨buf', hreserve, hroom, hcontent⟩
      obtain ⟨-, hsame, -⟩ := membufReserve_content hreserve
      have hword := membufReserve_bufferSize_lt hreserve hgrow
      by_cases hzero : buf.bufferSize = 0
      · exact Or.inr (Or.inl ⟨hzero, by omega⟩)
      · obtain ⟨j, hj, hnew, -⟩ := membufReserve_grown hzero hgrow hreserve
        exact Or.inr (Or.inr ⟨j, hj, by omega⟩)
    · intro hreaches
      have hdelivers : ∀ {buf'}, membufReserve buf extraSize = .ok buf' →
          buf.size + extraSize ≤ buf'.bufferSize → Delivers buf extraSize := by
        intro buf' hreserve hroom
        obtain ⟨hcontent, hsame, -⟩ := membufReserve_content hreserve
        exact ⟨buf', hreserve, by omega, hcontent⟩
      rcases hreaches with hroom | ⟨hzero, hword⟩ | ⟨j, hj, hreach⟩
      · omega
      · have hextra : extraSize % 2 ^ 32 = buf.size + extraSize := by
          rw [Nat.mod_eq_of_lt] <;> omega
        obtain ⟨buf', hreserve, hroom⟩ := membufReserve_of_reaches hgrow hword
          ⟨0, by rw [if_pos hzero, hextra, Nat.pow_zero, Nat.one_mul, Nat.mod_eq_of_lt hword]⟩
        exact hdelivers hreserve hroom
      · have hword := Nat.mod_lt (2 ^ j * buf.bufferSize) (show 0 < 2 ^ 32 by decide)
        have hne : buf.bufferSize ≠ 0 := by
          intro hzero
          rw [hzero, Nat.mul_zero, Nat.zero_mod] at hreach
          omega
        obtain ⟨buf', hreserve, hroom⟩ := membufReserve_of_reaches hgrow (by omega)
          ⟨j - 1, by rw [if_neg hne, double_mod, Nat.sub_add_cancel hj]; exact hreach⟩
        exact hdelivers hreserve hroom
  · refine iff_of_true ⟨buf, ?_, by omega, rfl⟩ (Or.inl (by omega))
    rw [membufReserve, if_neg hgrow]

/-- For the buffers of the frame code, whose capacities are powers of two, the bound is `2 ^ 31`. -/
theorem doublingReaches_doubled_iff {buf : Membuf} {extraSize : Nat} (doubled : buf.Doubled) :
    DoublingReaches buf extraSize ↔
      extraSize ≤ buf.bufferSize - buf.size ∨ buf.size + extraSize ≤ 2 ^ 31 := by
  obtain ⟨k, hk, hcap⟩ := doubled
  have hsize := buf.size_le
  have hne : buf.bufferSize ≠ 0 := by
    rw [hcap]
    exact Nat.two_pow_pos k |>.ne'
  have hpow : ∀ j, 2 ^ j * buf.bufferSize = 2 ^ (j + k) := fun j => by rw [hcap, ← Nat.pow_add]
  constructor
  · rintro (hroom | ⟨hzero, -⟩ | ⟨j, hj, hreach⟩)
    · exact Or.inl hroom
    · exact absurd hzero hne
    · rw [hpow] at hreach
      rcases Nat.lt_or_ge (j + k) 32 with hlt | hge
      · have hle : 2 ^ (j + k) ≤ 2 ^ 31 := Nat.pow_le_pow_right (by decide) (by omega)
        rw [Nat.mod_eq_of_lt (by omega)] at hreach
        exact Or.inr (by omega)
      · have hcut := two_pow_mul_mod 1 hge
        rw [Nat.mul_one] at hcut
        omega
  · rintro (hroom | hsmall)
    · exact Or.inl hroom
    · rcases Nat.lt_or_eq_of_le hk with hlt | heq
      · refine Or.inr (Or.inr ⟨31 - k, by omega, ?_⟩)
        rw [hpow, Nat.sub_add_cancel hk, Nat.mod_eq_of_lt (by decide)]
        exact hsmall
      · subst heq
        exact Or.inl (by omega)

/-- A buffer that a number of bytes in all can be appended to. -/
structure Growable (total : Nat) (buf : Membuf) : Prop where
  allocated : buf.bufferSize ≠ 0
  word : buf.bufferSize < 2 ^ 32
  reaches : ∃ j, total ≤ 2 ^ j * buf.bufferSize % 2 ^ 32

theorem two_pow_mul_mod_mul (i j n : Nat) :
    2 ^ i * (2 ^ j * n % 2 ^ 32) % 2 ^ 32 = 2 ^ (i + j) * n % 2 ^ 32 := by
  rw [Nat.mul_mod_mod, ← Nat.mul_assoc, ← Nat.pow_add]

/-- As long as the total is not passed, it stays within reach. -/
theorem membufAppendData_growable {total : Nat} {buf : Membuf} {bytes : Bytes}
    (growable : Growable total buf) (within : buf.size + bytes.length ≤ total) :
    ∃ buf', membufAppendData buf bytes = .ok buf' ∧ Growable total buf' := by
  by_cases hnil : bytes = []
  · exact ⟨buf, by rw [membufAppendData, if_pos hnil], growable⟩
  obtain ⟨j, hj⟩ := growable.reaches
  have hword := Nat.mod_lt (2 ^ j * buf.bufferSize) (show 0 < 2 ^ 32 by decide)
  have hmid : ∃ mid, membufReserve buf bytes.length = .ok mid ∧
      mid.size + bytes.length ≤ mid.bufferSize ∧ Growable total mid := by
    by_cases hgrow : buf.bufferSize - buf.size < bytes.length
    · have hpositive : 0 < j := by
        rcases Nat.eq_zero_or_pos j with hzero | hpos
        · rw [hzero, Nat.pow_zero, Nat.one_mul, Nat.mod_eq_of_lt growable.word] at hj
          omega
        · exact hpos
      obtain ⟨mid, hreserve, hroom⟩ := membufReserve_of_reaches hgrow (by omega)
        ⟨j - 1, by
          rw [if_neg growable.allocated, double_mod, Nat.sub_add_cancel hpositive]
          omega⟩
      obtain ⟨-, hsize, -⟩ := membufReserve_content hreserve
      obtain ⟨i, -, hcap, -, hbefore⟩ := membufReserve_grown growable.allocated hgrow hreserve
      rw [Nat.mod_eq_of_lt (show buf.size + bytes.length < 2 ^ 32 by omega)] at hbefore
      -- the new capacity comes no later than the one that reaches the total
      have hle : i ≤ j := by
        by_contra hlate
        have hbelow := hbefore j hpositive (by omega)
        omega
      have hmore : 0 < bytes.length := List.length_pos_iff.mpr hnil
      refine ⟨mid, hreserve, by omega, by omega, membufReserve_bufferSize_lt hreserve hgrow, j - i, ?_⟩
      rw [hcap, two_pow_mul_mod_mul, Nat.sub_add_cancel hle]
      exact hj
    · refine ⟨buf, by rw [membufReserve, if_neg hgrow], ?_, growable⟩
      have hsize := buf.size_le
      omega
  obtain ⟨mid, hreserve, hroom, hgrowable⟩ := hmid
  rw [membufAppendData, if_neg hnil, hreserve, ok_bind, dif_pos hroom]
  exact ⟨_, rfl, hgrowable.allocated, hgrowable.word, hgrowable.reaches⟩

/-- The capacity behind an append: the one in front, or a doubling. -/
theorem membufAppendData_bufferSize {buf buf' : Membuf} {bytes : Bytes}
    (appended : membufAppendData buf bytes = .ok buf') :
    buf'.bufferSize = buf.bufferSize ∨ buf'.bufferSize ≠ 0 ∧ ∃ j, buf'.bufferSize = 2 ^ j *
      ((if buf.bufferSize = 0 then bytes.length else 2 * buf.bufferSize) % 2 ^ 32) % 2 ^ 32 := by
  unfold membufAppendData at appended
  split at appended
  · cases appended
    exact Or.inl rfl
  · obtain ⟨mid, reserved, appended⟩ := bind_eq_ok.mp appended
    have hsame : buf'.bufferSize = mid.bufferSize := by
      split at appended
      · cases appended
        rfl
      · cases appended
    rw [hsame]
    unfold membufReserve at reserved
    split at reserved
    · obtain ⟨newBufferSize, hloop, reserved⟩ := bind_eq_ok.mp reserved
      obtain ⟨j, -, hm, -, -⟩ := (reserveLoop_eq_ok_iff (Nat.mod_lt _ (by decide))).mp hloop
      split at reserved
      · cases reserved
      · rename_i hzero
        split at reserved
        · cases reserved
          exact Or.inr ⟨hzero, j, hm⟩
        · cases reserved
    · cases reserved
      exact Or.inl rfl

/-- Appends find room for a number of bytes in all: no more than every buffer has room for, or no
more than the capacity grows to. -/
def HasRoom (total : Nat) (buf : Membuf) : Prop := total ≤ 2 ^ 31 ∨ Growable total buf

theorem HasRoom.lt {total : Nat} {buf : Membuf} (room : HasRoom total buf) : total < 2 ^ 32 := by
  rcases room with hsmall | growable
  · omega
  · obtain ⟨j, hj⟩ := growable.reaches
    exact Nat.lt_of_le_of_lt hj (Nat.mod_lt _ (by decide))

/-- Room depends on the capacity alone. -/
theorem HasRoom.congr {total : Nat} {buf buf' : Membuf} (room : HasRoom total buf)
    (same : buf'.bufferSize = buf.bufferSize) : HasRoom total buf' := by
  refine room.imp_right fun growable => ?_
  obtain ⟨hallocated, hword, hreaches⟩ := growable
  exact ⟨same ▸ hallocated, same ▸ hword, same ▸ hreaches⟩

theorem membufAppendData_hasRoom {total : Nat} {buf : Membuf} {bytes : Bytes}
    (room : HasRoom total buf) (within : buf.size + bytes.length ≤ total) :
    ∃ buf', membufAppendData buf bytes = .ok buf' ∧ HasRoom total buf' := by
  rcases room with hsmall | growable
  · obtain ⟨buf', happend, -⟩ := membufAppendData_ok buf bytes (by omega)
    exact ⟨buf', happend, Or.inl hsmall⟩
  · obtain ⟨buf', happend, hgrowable⟩ := membufAppendData_growable growable within
    exact ⟨buf', happend, Or.inr hgrowable⟩

theorem membufReserve_delivers_iff_init :
    (membufInit 128).size + 0x80000001 ≤ 0xFFFFFFFF + 14 ∧
    (Delivers (membufInit 128) 0x80000001 ↔ DoublingReaches (membufInit 128) 0x80000001) :=
  ⟨by decide, membufReserve_delivers_iff (by decide)⟩

/-- A full buffer of `2 ^ 31` bytes. -/
def fullBuffer : Membuf where
  data := List.replicate (2 ^ 31) 0
  size := 2 ^ 31
  bufferSize := 2 ^ 31
  flag := 0
  data_length := List.length_replicate
  size_le := Nat.le_refl _

/-- One byte more, and the doubled capacity is zero: the loop never ends. -/
theorem membufReserve_spins :
    fullBuffer.size + 1 ≤ 0xFFFFFFFF + 14 ∧
    membufReserve fullBuffer 1 = .error .endlessLoop ∧
    (∀ fuel, reserveLoop fuel (2 * fullBuffer.bufferSize % 2 ^ 32)
      ((fullBuffer.size + 1) % 2 ^ 32) = .error .endlessLoop) ∧
    ¬ Delivers fullBuffer 1 := by
  have hsize : fullBuffer.size = 2 ^ 31 := rfl
  have hcap : fullBuffer.bufferSize = 2 ^ 31 := rfl
  have hloop : ∀ fuel, reserveLoop fuel (2 * fullBuffer.bufferSize % 2 ^ 32)
      ((fullBuffer.size + 1) % 2 ^ 32) = .error .endlessLoop := by
    intro fuel
    rw [hsize, hcap]
    exact reserveLoop_zero fuel (by decide)
  have hreserve : membufReserve fullBuffer 1 = .error .endlessLoop := by
    rw [membufReserve, if_pos (by rw [hsize, hcap]; decide), if_neg (by rw [hcap]; decide)]
    simp only [hloop, error_bind]
  refine ⟨by rw [hsize]; decide, hreserve, hloop, ?_⟩
  rintro ⟨buf', hok, -⟩
  rw [hreserve] at hok
  cases hok

end AnotherWs
