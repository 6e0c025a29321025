/-
Module: AnotherWs.Core.Membuf
Purpose: The growable byte buffer of membuf.cpp, with its 32-bit capacity arithmetic.
Trusted boundary: `realloc` and `calloc` are assumed to find memory for every non-zero request.
  `realloc` to size 0 gives the null pointer, also where there is no allocation yet; glibc gives a
  pointer of its own there.
Main exports: Fault, Membuf, membufInit, membufClear, membufReserve, membufTrunc,
  membufAppendData, membufRemove,
  Membuf.content, membufAppendData_ok, membufAppendData_error
-/
import Mathlib.Data.List.Basic
import Mathlib.Algebra.Order.Ring.Nat
import Mathlib.Tactic.Ring
import Mathlib.Tactic.Linarith

namespace AnotherWs

/-- A byte string as the C code sees it. -/
abbrev Bytes := List UInt8

/-- The ways in which a call of the C code fails to come back with a defined result. -/
inductive Fault where
  /-- A loop whose guard can never turn false. -/
  | endlessLoop
  /-- A read or write outside the allocation. -/
  | outOfBounds
  /-- A null pointer where the callee needs a string. -/
  | nullPointer
  /-- A failed `assert`. -/
  | assertion
  /-- Not a behaviour of the code: the bound given to a fuelled evaluation ran out. -/
  | outOfFuel
deriving DecidableEq, Repr

@[simp] theorem ok_bind {ε α β : Type} (a : α) (f : α → Except ε β) :
    (Except.ok a >>= f) = f a := rfl

@[simp] theorem error_bind {ε α β : Type} (e : ε) (f : α → Except ε β) :
    ((Except.error e : Except ε α) >>= f) = .error e := rfl

/-- Peel the first action off a sequence that succeeded. -/
theorem bind_eq_ok {ε α β : Type} {x : Except ε α} {f : α → Except ε β} {b : β} :
    (x >>= f) = .ok b ↔ ∃ a, x = .ok a ∧ f a = .ok b := by
  cases x <;> simp

/-- `membuf_t`. `data` is the whole allocation, so its length is `buffer_size`, and the null pointer
is the empty allocation. -/
structure Membuf where
  data : Bytes
  size : Nat
  bufferSize : Nat
  flag : UInt8
  data_length : data.length = bufferSize
  size_le : size ≤ bufferSize
deriving DecidableEq

namespace Membuf

/-- The bytes in use, `data[0 .. size)`. -/
def content (buf : Membuf) : Bytes := buf.data.take buf.size

@[simp] theorem length_content (buf : Membuf) : buf.content.length = buf.size := by
  have := buf.data_length
  have := buf.size_le
  simp only [content, List.length_take]
  omega

end Membuf

/-- `membuf_init` -/
def membufInit (initialBufferSize : Nat) : Membuf where
  data := List.replicate initialBufferSize 0
  size := 0
  bufferSize := initialBufferSize
  flag := 0
  data_length := List.length_replicate
  size_le := Nat.zero_le _

/-- `membuf_clear`. The flag is not touched. -/
def membufClear (buf : Membuf) (maxSize : Nat) : Membuf :=
  if buf.bufferSize ≠ 0 ∧ buf.size ≠ 0 then
    if 1 < maxSize ∧ maxSize < buf.bufferSize then
      { data := List.replicate maxSize 0
        size := 0
        bufferSize := maxSize
        flag := buf.flag
        data_length := List.length_replicate
        size_le := Nat.zero_le _ }
    else
      { buf with
        data := List.replicate buf.bufferSize 0
        size := 0
        data_length := List.length_replicate
        size_le := Nat.zero_le _ }
  else buf

/-- The doubling loop of `membuf_reserve` over `uint`. -/
def reserveLoop : Nat → Nat → Nat → Except Fault Nat
  | 0, _, _ => .error .endlessLoop
  | fuel + 1, newBufferSize, newDataSize =>
      if newBufferSize < newDataSize then
        reserveLoop fuel (2 * newBufferSize % 2 ^ 32) newDataSize
      else .ok newBufferSize

/-- `membuf_reserve`. Both sizes are cut to 32 bits before they are compared; 33 rounds decide the
loop, because a 32-bit value doubled 32 times is zero. -/
def membufReserve (buf : Membuf) (extraSize : Nat) : Except Fault Membuf :=
  if buf.bufferSize - buf.size < extraSize then do
    let firstSize := (if buf.bufferSize = 0 then extraSize else 2 * buf.bufferSize) % 2 ^ 32
    let newDataSize := (buf.size + extraSize) % 2 ^ 32
    let newBufferSize ← reserveLoop 33 firstSize newDataSize
    if newBufferSize = 0 then
      -- `realloc(p, 0)` gives the null pointer
      .error .assertion
    else if fits : buf.size ≤ newBufferSize then
      .ok { buf with
        data := buf.data.take buf.size ++ List.replicate (newBufferSize - buf.size) 0
        bufferSize := newBufferSize
        data_length := by
          have := buf.data_length
          have := buf.size_le
          simp only [List.length_append, List.length_take, List.length_replicate]
          omega
        size_le := fits }
    else
      -- the length of the `memset` wraps below zero
      .error .outOfBounds
  else .ok buf

/-- `membuf_trunc` -/
def membufTrunc (buf : Membuf) : Membuf :=
  if buf.size + 4 < buf.bufferSize ∨ buf.bufferSize < buf.size + 4 then
    { buf with
      data := buf.data.take buf.size ++ List.replicate 4 0
      bufferSize := buf.size + 4
      data_length := by
        have := buf.data_length
        have := buf.size_le
        simp only [List.length_append, List.length_take, List.length_replicate]
        omega
      size_le := Nat.le_add_right _ _ }
  else buf

/-- `membuf_append_data` -/
def membufAppendData (buf : Membuf) (bytes : Bytes) : Except Fault Membuf :=
  if bytes = [] then .ok buf
  else do
    let buf ← membufReserve buf bytes.length
    if fits : buf.size + bytes.length ≤ buf.bufferSize then
      .ok { buf with
        data := buf.data.take buf.size ++ bytes ++ buf.data.drop (buf.size + bytes.length)
        size := buf.size + bytes.length
        data_length := by
          have := buf.data_length
          simp only [List.length_append, List.length_take, List.length_drop]
          omega
        size_le := fits }
    else .error .outOfBounds

/-- The first half of `membuf_remove`: the bytes behind the gap move down and the size shrinks. -/
def membufCloseGap (buf : Membuf) (offset size : Nat) (inside : offset < buf.size) : Membuf :=
  if cut : buf.size ≤ offset + size then
    { buf with size := offset, size_le := by have := buf.size_le; omega }
  else
    { buf with
      data := buf.data.take offset ++
        (buf.data.drop (offset + size)).take (buf.size - offset - size) ++
        buf.data.drop (buf.size - size)
      size := buf.size - size
      data_length := by
        have := buf.data_length
        have := buf.size_le
        simp only [List.length_append, List.length_take, List.length_drop]
        omega
      size_le := by have := buf.size_le; omega }

/-- The last statement of `membuf_remove`. The terminating zero is written whenever
`size ≤ buffer_size`, so it falls outside the allocation when the two are equal. -/
def membufTerminate (buf : Membuf) : Except Fault Membuf :=
  if buf.size < buf.bufferSize then
    .ok { buf with
      data := buf.data.set buf.size 0
      data_length := by rw [List.length_set]; exact buf.data_length }
  else .error .outOfBounds

/-- `membuf_remove` -/
def membufRemove (buf : Membuf) (offset size : Nat) : Except Fault Membuf :=
  if inside : offset < buf.size then membufTerminate (membufCloseGap buf offset size inside)
  else .ok buf

/-! ### Contents -/

@[simp] theorem membufInit_content (n : Nat) : (membufInit n).content = [] := by
  simp [membufInit, Membuf.content]

@[simp] theorem membufInit_flag (n : Nat) : (membufInit n).flag = 0 := rfl

@[simp] theorem membufClear_content (buf : Membuf) (maxSize : Nat) :
    (membufClear buf maxSize).content = [] := by
  have hsize := buf.size_le
  unfold membufClear
  split
  · split <;> simp [Membuf.content]
  · have hzero : buf.size = 0 := by omega
    simp [Membuf.content, hzero]

@[simp] theorem membufClear_flag (buf : Membuf) (maxSize : Nat) :
    (membufClear buf maxSize).flag = buf.flag := by
  unfold membufClear
  split
  · split <;> rfl
  · rfl

/-- With no cap on the retained capacity, clearing keeps the allocation. -/
@[simp] theorem membufClear_bufferSize (buf : Membuf) :
    (membufClear buf 0).bufferSize = buf.bufferSize := by
  unfold membufClear
  split
  · rw [if_neg (by omega)]
  · rfl

/-- Reserving room moves the bytes in use without changing them. -/
theorem membufReserve_content {buf buf' : Membuf} {extraSize : Nat}
    (reserved : membufReserve buf extraSize = .ok buf') :
    buf'.content = buf.content ∧ buf'.size = buf.size ∧ buf'.flag = buf.flag := by
  unfold membufReserve at reserved
  split at reserved
  · obtain ⟨newBufferSize, -, reserved⟩ := bind_eq_ok.mp reserved
    split at reserved
    · cases reserved
    · split at reserved
      · cases reserved
        have := buf.data_length
        have := buf.size_le
        refine ⟨?_, rfl, rfl⟩
        simp only [Membuf.content]
        rw [List.take_append_of_le_length (by simp only [List.length_take]; omega), List.take_take,
          Nat.min_self]
      · cases reserved
  · cases reserved
    exact ⟨rfl, rfl, rfl⟩

theorem membufTrunc_content (buf : Membuf) :
    (membufTrunc buf).content = buf.content ∧ (membufTrunc buf).size = buf.size ∧
      (membufTrunc buf).bufferSize = buf.size + 4 := by
  have hdata := buf.data_length
  have hsize := buf.size_le
  unfold membufTrunc
  split
  · refine ⟨?_, rfl, rfl⟩
    show (buf.data.take buf.size ++ List.replicate 4 0).take buf.size = buf.data.take buf.size
    apply List.take_left'
    rw [List.length_take]
    omega
  · exact ⟨rfl, rfl, by omega⟩

/-- A successful append adds exactly the given bytes. -/
theorem membufAppendData_content {buf buf' : Membuf} {bytes : Bytes}
    (appended : membufAppendData buf bytes = .ok buf') :
    buf'.content = buf.content ++ bytes ∧ buf'.flag = buf.flag := by
  unfold membufAppendData at appended
  split at appended
  · rename_i hnil
    cases appended
    simp [hnil]
  · obtain ⟨mid, reserved, appended⟩ := bind_eq_ok.mp appended
    obtain ⟨hcontent, hsize, hflag⟩ := membufReserve_content reserved
    split at appended
    · cases appended
      have := mid.data_length
      have := mid.size_le
      refine ⟨?_, hflag⟩
      rw [← hcontent]
      simp only [Membuf.content]
      rw [List.take_append_of_le_length
        (by simp only [List.length_append, List.length_take]; omega)]
      exact List.take_of_length_le (by simp only [List.length_append, List.length_take]; omega)
    · cases appended

/-- Closing a gap drops exactly the bytes of the gap. -/
theorem membufCloseGap_content (buf : Membuf) (offset size : Nat) (inside : offset < buf.size) :
    (membufCloseGap buf offset size inside).content =
      buf.content.take offset ++ buf.content.drop (offset + size) := by
  have hlength := buf.data_length
  have hsize := buf.size_le
  unfold membufCloseGap
  split
  · rename_i cut
    have hdrop : buf.content.drop (offset + size) = [] :=
      List.drop_eq_nil_of_le (by rw [Membuf.length_content]; exact cut)
    rw [hdrop, List.append_nil]
    simp only [Membuf.content, List.take_take]
    congr 1
    omega
  · rename_i cut
    have hfront : (buf.data.take offset).length = offset := by
      rw [List.length_take]
      omega
    have hback : ((buf.data.drop (offset + size)).take (buf.size - offset - size)).length =
        buf.size - offset - size := by
      rw [List.length_take, List.length_drop]
      omega
    simp only [Membuf.content, List.take_take, List.drop_take, Nat.min_eq_left (Nat.le_of_lt inside)]
    rw [List.take_append_of_le_length (by rw [List.length_append, hfront, hback]; omega),
      List.take_of_length_le (by rw [List.length_append, hfront, hback]; omega)]
    congr 2
    omega

/-- The terminating zero lies behind the bytes in use. -/
theorem membufTerminate_ok {buf : Membuf} (room : buf.size < buf.bufferSize) :
    ∃ buf', membufTerminate buf = .ok buf' ∧ buf'.content = buf.content ∧
      buf'.flag = buf.flag ∧ buf'.bufferSize = buf.bufferSize := by
  rw [membufTerminate, if_pos room]
  refine ⟨_, rfl, ?_, rfl, rfl⟩
  exact List.take_set_of_le (Nat.le_refl _)

/-- Removing a non-empty range drops it, and the terminating zero stays inside the allocation. -/
theorem membufRemove_ok (buf : Membuf) (offset : Nat) {size : Nat} (positive : 0 < size) :
    ∃ buf', membufRemove buf offset size = .ok buf' ∧
      buf'.content = buf.content.take offset ++ buf.content.drop (offset + size) ∧
      buf'.flag = buf.flag ∧ buf'.bufferSize = buf.bufferSize := by
  by_cases inside : offset < buf.size
  · have hsize := buf.size_le
    have hlt : (membufCloseGap buf offset size inside).size < buf.size := by
      unfold membufCloseGap
      split
      · exact inside
      · show buf.size - size < buf.size
        omega
    have hkept : (membufCloseGap buf offset size inside).flag = buf.flag ∧
        (membufCloseGap buf offset size inside).bufferSize = buf.bufferSize := by
      unfold membufCloseGap
      split <;> exact ⟨rfl, rfl⟩
    have room : (membufCloseGap buf offset size inside).size <
        (membufCloseGap buf offset size inside).bufferSize := by
      rw [hkept.2]
      omega
    obtain ⟨buf', hterm, hcontent, hflag, hcap⟩ := membufTerminate_ok room
    refine ⟨buf', by rw [membufRemove, dif_pos inside, hterm], ?_, hflag.trans hkept.1,
      hcap.trans hkept.2⟩
    rw [hcontent, membufCloseGap_content]
  · refine ⟨buf, by rw [membufRemove, dif_neg inside], ?_, rfl, rfl⟩
    have hlen := buf.length_content
    rw [List.take_of_length_le (by omega), List.drop_eq_nil_of_le (by omega), List.append_nil]

/-! ### Capacities

Appending up to `2 ^ 31` bytes always finds room. A buffer that has only ever grown by doubling holds
a power of two, and such a buffer can never go past `2 ^ 31`: the next doubling is zero. -/

/-- The doubling loop stops as long as the target is at most `2 ^ 31`. -/
theorem reserveLoop_ok (fuel : Nat) {n target : Nat} (positive : 0 < n)
    (small : target ≤ 2 ^ 31) (reaches : target ≤ 2 ^ fuel * n) :
    ∃ j, reserveLoop (fuel + 1) n target = .ok (2 ^ j * n) ∧ target ≤ 2 ^ j * n ∧
      (j = 0 ∨ 2 ^ j * n < 2 * target) := by
  induction fuel generalizing n with
  | zero =>
      have hge : ¬ n < target := by omega
      exact ⟨0, by simp [reserveLoop, hge], by simpa using reaches, Or.inl rfl⟩
  | succ fuel ih =>
      by_cases hlt : n < target
      · have hnowrap : 2 * n % 2 ^ 32 = 2 * n := Nat.mod_eq_of_lt (by omega)
        have hreaches : target ≤ 2 ^ fuel * (2 * n) := by
          calc target ≤ 2 ^ (fuel + 1) * n := reaches
            _ = 2 ^ fuel * (2 * n) := by ring
        obtain ⟨j, hloop, hge, hbound⟩ := ih (n := 2 * n) (by omega) hreaches
        have hshift : 2 ^ (j + 1) * n = 2 ^ j * (2 * n) := by ring
        refine ⟨j + 1, ?_, by omega, Or.inr ?_⟩
        · rw [reserveLoop, if_pos hlt, hnowrap, hloop, hshift]
        · rcases hbound with hzero | hbound
          · subst hzero
            omega
          · omega
      · exact ⟨0, by simp [reserveLoop, hlt], by simpa using hlt, Or.inl rfl⟩

/-- From zero the loop never moves. -/
theorem reserveLoop_zero (fuel : Nat) {target : Nat} (positive : 0 < target) :
    reserveLoop fuel 0 target = .error .endlessLoop := by
  induction fuel with
  | zero => rfl
  | succ fuel ih => simpa [reserveLoop, positive] using ih

/-- Doubling a power of two passes through zero before it reaches a target above `2 ^ 31`, so no
number of rounds is enough. -/
theorem reserveLoop_pow_error (fuel k : Nat) {target : Nat} (cap : k ≤ 31)
    (large : 2 ^ 31 < target) : reserveLoop fuel (2 ^ k) target = .error .endlessLoop := by
  induction fuel generalizing k with
  | zero => rfl
  | succ fuel ih =>
      have hpow : 2 ^ k ≤ 2 ^ 31 := Nat.pow_le_pow_right (by omega) cap
      rw [reserveLoop, if_pos (by omega)]
      rcases Nat.lt_or_eq_of_le cap with hlt | heq
      · have hnext : 2 * 2 ^ k % 2 ^ 32 = 2 ^ (k + 1) := by
          have : 2 ^ (k + 1) ≤ 2 ^ 31 := Nat.pow_le_pow_right (by omega) hlt
          rw [Nat.mod_eq_of_lt] <;> omega
        rw [hnext]
        exact ih (k + 1) hlt
      · subst heq
        exact reserveLoop_zero fuel (by omega)

/-- The capacity is a power of two that fits a `uint`. -/
def Membuf.Doubled (buf : Membuf) : Prop := ∃ k ≤ 31, buf.bufferSize = 2 ^ k

theorem Membuf.Doubled.size_le {buf : Membuf} (doubled : buf.Doubled) : buf.size ≤ 2 ^ 31 := by
  obtain ⟨k, hk, hcap⟩ := doubled
  have : 2 ^ k ≤ 2 ^ 31 := Nat.pow_le_pow_right (by omega) hk
  have := buf.size_le
  omega

theorem membufClear_doubled {buf : Membuf} (doubled : buf.Doubled) :
    (membufClear buf 0).Doubled := by
  simpa [Membuf.Doubled] using doubled

/-- Room for at most `2 ^ 31` bytes is always found, and doubling keeps a power of two. -/
theorem membufReserve_ok {buf : Membuf} {extraSize : Nat} (small : buf.size + extraSize ≤ 2 ^ 31) :
    ∃ buf', membufReserve buf extraSize = .ok buf' ∧
      buf.size + extraSize ≤ buf'.bufferSize ∧ (buf.Doubled → buf'.Doubled) := by
  have hsize := buf.size_le
  unfold membufReserve
  by_cases grow : buf.bufferSize - buf.size < extraSize
  · rw [if_pos grow]
    set first := if buf.bufferSize = 0 then extraSize else 2 * buf.bufferSize with hfirst
    have hpos : 0 < first := by
      rw [hfirst]
      split <;> omega
    have hsmall : first < 2 ^ 32 := by
      rw [hfirst]
      split <;> omega
    rw [Nat.mod_eq_of_lt hsmall, Nat.mod_eq_of_lt (by omega)]
    obtain ⟨j, hloop, hge, hbound⟩ :=
      reserveLoop_ok 32 (n := first) hpos small (by omega)
    simp only [hloop, ok_bind]
    rw [if_neg (by omega), dif_pos (by omega)]
    refine ⟨_, rfl, hge, ?_⟩
    rintro ⟨k, hk, hcap⟩
    have hne : buf.bufferSize ≠ 0 := by
      rw [hcap]
      positivity
    have hnew : 2 ^ j * first = 2 ^ (j + (k + 1)) := by
      rw [hfirst, if_neg hne, hcap]
      ring
    -- the last doubling started below the target, hence below 2 ^ 31
    have hlt : 2 ^ (j + (k + 1)) < 2 ^ 32 := by
      rw [← hnew]
      rcases hbound with hzero | hbound
      · subst hzero
        omega
      · omega
    have hexp := (Nat.pow_lt_pow_iff_right (by omega : 1 < 2)).mp hlt
    exact ⟨j + (k + 1), by omega, hnew⟩
  · rw [if_neg grow]
    exact ⟨buf, rfl, by omega, id⟩

/-- An allocation that is not empty grows by doubling alone. -/
theorem membufReserve_bufferSize {buf buf' : Membuf} {extraSize : Nat}
    (positive : 0 < buf.bufferSize) (small : buf.size + extraSize ≤ 2 ^ 31)
    (reserved : membufReserve buf extraSize = .ok buf') :
    ∃ j, buf'.bufferSize = 2 ^ j * buf.bufferSize := by
  have hsize := buf.size_le
  unfold membufReserve at reserved
  by_cases grow : buf.bufferSize - buf.size < extraSize
  · rw [if_pos grow, if_neg (by omega), Nat.mod_eq_of_lt (by omega), Nat.mod_eq_of_lt (by omega)]
      at reserved
    obtain ⟨j, hloop, -, -⟩ :=
      @reserveLoop_ok 32 (2 * buf.bufferSize) (buf.size + extraSize) (by omega) small (by omega)
    obtain ⟨newBufferSize, hnew, reserved⟩ := bind_eq_ok.mp reserved
    rw [hloop] at hnew
    cases hnew
    split at reserved
    · cases reserved
    · split at reserved
      · cases reserved
        exact ⟨j + 1, by ring⟩
      · cases reserved
  · rw [if_neg grow] at reserved
    cases reserved
    exact ⟨0, (Nat.one_mul _).symm⟩

/-- Appending succeeds while the buffer stays within `2 ^ 31` bytes. -/
theorem membufAppendData_ok (buf : Membuf) (bytes : Bytes)
    (small : buf.size + bytes.length ≤ 2 ^ 31) :
    ∃ buf', membufAppendData buf bytes = .ok buf' ∧ (buf.Doubled → buf'.Doubled) := by
  unfold membufAppendData
  by_cases hnil : bytes = []
  · exact ⟨buf, by rw [if_pos hnil], id⟩
  · rw [if_neg hnil]
    obtain ⟨mid, reserved, room, doubled⟩ := membufReserve_ok small
    obtain ⟨-, hsize, -⟩ := membufReserve_content reserved
    rw [← hsize] at room
    simp only [reserved, ok_bind, dif_pos room]
    exact ⟨_, rfl, doubled⟩

/-- A reserve never leaves more than a `uint` of capacity behind. -/
theorem membufReserve_bufferSize_lt {buf buf' : Membuf} {extraSize : Nat}
    (reserved : membufReserve buf extraSize = .ok buf')
    (grow : buf.bufferSize - buf.size < extraSize) : buf'.bufferSize < 2 ^ 32 := by
  have hloop : ∀ fuel n target m, n < 2 ^ 32 → reserveLoop fuel n target = .ok m → m < 2 ^ 32 := by
    intro fuel
    induction fuel with
    | zero =>
        intro n target m _ h
        cases h
    | succ fuel ih =>
        intro n target m hn h
        rw [reserveLoop] at h
        split at h
        · exact ih _ _ _ (Nat.mod_lt _ (by omega)) h
        · cases h
          exact hn
  rw [membufReserve, if_pos grow] at reserved
  obtain ⟨newBufferSize, hnew, reserved⟩ := bind_eq_ok.mp reserved
  have hlt := hloop _ _ _ _ (Nat.mod_lt _ (by omega)) hnew
  split at reserved
  · cases reserved
  · split at reserved
    · cases reserved
      exact hlt
    · cases reserved

/-- Past `2 ^ 31` bytes a doubled buffer cannot be appended to: either the loop never ends or the
truncated size leaves too little room. -/
theorem membufAppendData_error {buf : Membuf} {bytes : Bytes} (doubled : buf.Doubled)
    (large : 2 ^ 31 < buf.size + bytes.length) :
    ∃ fault, membufAppendData buf bytes = .error fault := by
  obtain ⟨k, hk, hcap⟩ := doubled
  have hsize := buf.size_le
  have hpow : 2 ^ k ≤ 2 ^ 31 := Nat.pow_le_pow_right (by omega) hk
  have hnil : bytes ≠ [] := by
    rintro rfl
    simp only [List.length_nil] at large
    omega
  have grow : buf.bufferSize - buf.size < bytes.length := by omega
  unfold membufAppendData
  rw [if_neg hnil]
  rcases Nat.lt_or_ge (buf.size + bytes.length) (2 ^ 32) with hfits | hwraps
  · -- the target survives the cut to 32 bits, so the loop is the one that never ends
    have hne : buf.bufferSize ≠ 0 := by
      rw [hcap]
      positivity
    have hloop : reserveLoop 33 (2 * buf.bufferSize % 2 ^ 32)
        ((buf.size + bytes.length) % 2 ^ 32) = .error .endlessLoop := by
      rw [Nat.mod_eq_of_lt hfits, hcap]
      rcases Nat.lt_or_eq_of_le hk with hlt | heq
      · have hnext : 2 * 2 ^ k % 2 ^ 32 = 2 ^ (k + 1) := by
          have : 2 ^ (k + 1) ≤ 2 ^ 31 := Nat.pow_le_pow_right (by omega) hlt
          rw [Nat.mod_eq_of_lt] <;> omega
        rw [hnext]
        exact reserveLoop_pow_error _ _ hlt large
      · subst heq
        exact reserveLoop_zero _ (by omega)
    refine ⟨.endlessLoop, ?_⟩
    rw [membufReserve, if_pos grow, if_neg hne]
    simp only [hloop, error_bind]
  · cases reserved : membufReserve buf bytes.length with
    | error fault => exact ⟨fault, rfl⟩
    | ok mid =>
        have hlt := membufReserve_bufferSize_lt reserved grow
        obtain ⟨-, hmid, -⟩ := membufReserve_content reserved
        rw [ok_bind, dif_neg (by omega)]
        exact ⟨_, rfl⟩

/-- Whatever has been appended, the buffer has only grown by doubling. -/
theorem membufAppendData_doubled {buf buf' : Membuf} {bytes : Bytes}
    (appended : membufAppendData buf bytes = .ok buf') (doubled : buf.Doubled) : buf'.Doubled := by
  rcases Nat.lt_or_ge (2 ^ 31) (buf.size + bytes.length) with hlarge | hsmall
  · obtain ⟨fault, herror⟩ := membufAppendData_error doubled hlarge
    rw [herror] at appended
    cases appended
  · obtain ⟨buf₁, hok, hdoubled⟩ := membufAppendData_ok buf bytes hsmall
    rw [hok] at appended
    cases appended
    exact hdoubled doubled

end AnotherWs
