/-
Module: AnotherWs.Lib.Base64
Purpose: The standard Base 64 encoding with padding, and the decoding that undoes it.
Trusted boundary: none
Main exports: Base64.encode, Base64.decode, Base64.decode_encode, Base64.encode_injective,
  Base64.length_encode, Base64.encode_text
-/
import Mathlib.Algebra.Order.Ring.Nat
import Mathlib.Data.List.GetD
import Mathlib.Logic.Function.Basic

namespace Base64

/-- The sixty-four digits. -/
def alphabet : List UInt8 :=
  "ABCDEFGHIJKLMNOPQRSTUVWXYZabcdefghijklmnopqrstuvwxyz0123456789+/".toList.map
    fun c => UInt8.ofNat c.toNat

/-- The padding character `=`. -/
def padding : UInt8 := 0x3d

/-- The digit of a six-bit value. -/
def digit (value : Nat) : UInt8 := alphabet.getD value 0

/-- The six-bit value of a digit. -/
def value (c : UInt8) : Option Nat :=
  if c ∈ alphabet then some (alphabet.idxOf c) else none

/-- Three bytes as a 24-bit number, the most significant byte first. -/
def group (b₀ b₁ b₂ : UInt8) : Nat := b₀.toNat * 2 ^ 16 + b₁.toNat * 2 ^ 8 + b₂.toNat

/-- Three bytes to four digits; a last group of one or two bytes is padded. -/
def encode : List UInt8 → List UInt8
  | b₀ :: b₁ :: b₂ :: rest =>
      let n := group b₀ b₁ b₂
      digit (n / 2 ^ 18) :: digit (n / 2 ^ 12 % 64) :: digit (n / 2 ^ 6 % 64) :: digit (n % 64) ::
        encode rest
  | [b₀, b₁] =>
      let n := group b₀ b₁ 0
      [digit (n / 2 ^ 18), digit (n / 2 ^ 12 % 64), digit (n / 2 ^ 6 % 64), padding]
  | [b₀] =>
      let n := group b₀ 0 0
      [digit (n / 2 ^ 18), digit (n / 2 ^ 12 % 64), padding, padding]
  | [] => []

/-- Four digits to three bytes; padding may stand in the last group alone. -/
def decode : List UInt8 → Option (List UInt8)
  | [] => some []
  | c₀ :: c₁ :: c₂ :: c₃ :: rest =>
      match value c₀, value c₁, value c₂, value c₃ with
      | some v₀, some v₁, some v₂, some v₃ =>
          let n := v₀ * 2 ^ 18 + v₁ * 2 ^ 12 + v₂ * 2 ^ 6 + v₃
          (decode rest).map fun bytes =>
            UInt8.ofNat (n / 2 ^ 16) :: UInt8.ofNat (n / 2 ^ 8) :: UInt8.ofNat n :: bytes
      | some v₀, some v₁, some v₂, none =>
          let n := v₀ * 2 ^ 18 + v₁ * 2 ^ 12 + v₂ * 2 ^ 6
          if c₃ = padding ∧ rest = [] then
            some [UInt8.ofNat (n / 2 ^ 16), UInt8.ofNat (n / 2 ^ 8)]
          else none
      | some v₀, some v₁, none, none =>
          let n := v₀ * 2 ^ 18 + v₁ * 2 ^ 12
          if c₂ = padding ∧ c₃ = padding ∧ rest = [] then some [UInt8.ofNat (n / 2 ^ 16)] else none
      | _, _, _, _ => none
  | _ => none

theorem value_digit : ∀ {n : Nat}, n < 64 → value (digit n) = some n := by decide +kernel

theorem value_padding : value padding = none := by decide

theorem group_lt (b₀ b₁ b₂ : UInt8) : group b₀ b₁ b₂ < 2 ^ 24 := by
  have := b₀.toNat_lt
  have := b₁.toNat_lt
  have := b₂.toNat_lt
  rw [group]
  omega

/-- The four six-bit values of a group put the group together again. -/
theorem sextets_group (n : Nat) :
    n / 2 ^ 18 * 2 ^ 18 + n / 2 ^ 12 % 64 * 2 ^ 12 + n / 2 ^ 6 % 64 * 2 ^ 6 + n % 64 = n := by
  omega

/-- A byte is what its value modulo 256 says. -/
theorem ofNat_eq {n : Nat} {b : UInt8} (same : n % 256 = b.toNat) : UInt8.ofNat n = b := by
  apply UInt8.toNat_inj.mp
  rw [UInt8.toNat_ofNat']
  exact same

theorem group_first (b₀ b₁ b₂ : UInt8) : UInt8.ofNat (group b₀ b₁ b₂ / 2 ^ 16) = b₀ := by
  apply ofNat_eq
  have := b₀.toNat_lt
  have := b₁.toNat_lt
  have := b₂.toNat_lt
  rw [group]
  omega

theorem group_second (b₀ b₁ b₂ : UInt8) : UInt8.ofNat (group b₀ b₁ b₂ / 2 ^ 8) = b₁ := by
  apply ofNat_eq
  have := b₁.toNat_lt
  have := b₂.toNat_lt
  rw [group]
  omega

theorem group_third (b₀ b₁ b₂ : UInt8) : UInt8.ofNat (group b₀ b₁ b₂) = b₂ := by
  apply ofNat_eq
  have := b₂.toNat_lt
  rw [group]
  omega

theorem decode_four {c₀ c₁ c₂ c₃ : UInt8} {v₀ v₁ v₂ v₃ : Nat} {rest : List UInt8}
    (h₀ : value c₀ = some v₀) (h₁ : value c₁ = some v₁) (h₂ : value c₂ = some v₂)
    (h₃ : value c₃ = some v₃) :
    decode (c₀ :: c₁ :: c₂ :: c₃ :: rest) =
      let n := v₀ * 2 ^ 18 + v₁ * 2 ^ 12 + v₂ * 2 ^ 6 + v₃
      (decode rest).map fun bytes =>
        UInt8.ofNat (n / 2 ^ 16) :: UInt8.ofNat (n / 2 ^ 8) :: UInt8.ofNat n :: bytes := by
  simp only [decode, h₀, h₁, h₂, h₃]

theorem decode_three {c₀ c₁ c₂ : UInt8} {v₀ v₁ v₂ : Nat} (h₀ : value c₀ = some v₀)
    (h₁ : value c₁ = some v₁) (h₂ : value c₂ = some v₂) :
    decode [c₀, c₁, c₂, padding] =
      let n := v₀ * 2 ^ 18 + v₁ * 2 ^ 12 + v₂ * 2 ^ 6
      some [UInt8.ofNat (n / 2 ^ 16), UInt8.ofNat (n / 2 ^ 8)] := by
  simp only [decode, h₀, h₁, h₂, value_padding, and_self, if_true]

theorem decode_two {c₀ c₁ : UInt8} {v₀ v₁ : Nat} (h₀ : value c₀ = some v₀)
    (h₁ : value c₁ = some v₁) :
    decode [c₀, c₁, padding, padding] =
      let n := v₀ * 2 ^ 18 + v₁ * 2 ^ 12
      some [UInt8.ofNat (n / 2 ^ 16)] := by
  simp only [decode, h₀, h₁, value_padding, and_self, if_true]

/-- Decoding undoes encoding. -/
theorem decode_encode (bytes : List UInt8) : decode (encode bytes) = some bytes := by
  induction bytes using encode.induct with
  | case1 b₀ b₁ b₂ rest ih =>
      have hlt := group_lt b₀ b₁ b₂
      simp only [encode]
      rw [decode_four (value_digit (by omega)) (value_digit (by omega)) (value_digit (by omega))
        (value_digit (by omega))]
      simp only [sextets_group, ih, Option.map_some, group_first, group_second, group_third]
  | case2 b₀ b₁ =>
      have hlt := group_lt b₀ b₁ 0
      have hlow : group b₀ b₁ 0 % 64 = 0 := by
        rw [group]
        have hzero : (0 : UInt8).toNat = 0 := rfl
        omega
      have hsum := sextets_group (group b₀ b₁ 0)
      rw [hlow, Nat.add_zero] at hsum
      simp only [encode]
      rw [decode_three (value_digit (by omega)) (value_digit (by omega)) (value_digit (by omega))]
      simp only [hsum, group_first, group_second]
  | case3 b₀ =>
      have hlt := group_lt b₀ 0 0
      have hlow : group b₀ 0 0 % 64 = 0 ∧ group b₀ 0 0 / 2 ^ 6 % 64 = 0 := by
        rw [group]
        have hzero : (0 : UInt8).toNat = 0 := rfl
        omega
      have hsum := sextets_group (group b₀ 0 0)
      rw [hlow.1, hlow.2, Nat.zero_mul, Nat.add_zero] at hsum
      simp only [encode]
      rw [decode_two (value_digit (by omega)) (value_digit (by omega))]
      simp only [hsum, group_first]
  | case4 => rfl

/-- Different byte strings have different encodings. -/
theorem encode_injective : Function.Injective encode := by
  intro bytes bytes' same
  have hdecoded := congrArg decode same
  rw [decode_encode, decode_encode] at hdecoded
  exact Option.some.inj hdecoded

/-- Four characters for every group, a partial one included. -/
theorem length_encode (bytes : List UInt8) :
    (encode bytes).length = 4 * ((bytes.length + 2) / 3) := by
  induction bytes using encode.induct with
  | case1 b₀ b₁ b₂ rest ih =>
      simp only [encode, List.length_cons, ih]
      omega
  | case2 b₀ b₁ => simp [encode]
  | case3 b₀ => simp [encode]
  | case4 => rfl

/-- The characters of an encoding. -/
def text : List UInt8 := padding :: alphabet

theorem digit_mem_text {n : Nat} (lt : n < 64) : digit n ∈ text := by
  apply List.mem_cons_of_mem
  have hlength : n < alphabet.length := lt
  rw [digit, List.getD_eq_getElem _ _ hlength]
  exact List.getElem_mem hlength

/-- An encoding has no other characters. -/
theorem encode_text (bytes : List UInt8) : ∀ c ∈ encode bytes, c ∈ text := by
  have hpadding : padding ∈ text := List.mem_cons_self
  induction bytes using encode.induct with
  | case1 b₀ b₁ b₂ rest ih =>
      have hlt := group_lt b₀ b₁ b₂
      simp only [encode, List.forall_mem_cons]
      exact ⟨digit_mem_text (by omega), digit_mem_text (by omega), digit_mem_text (by omega),
        digit_mem_text (by omega), ih⟩
  | case2 b₀ b₁ =>
      have hlt := group_lt b₀ b₁ 0
      simp only [encode, List.forall_mem_cons]
      exact ⟨digit_mem_text (by omega), digit_mem_text (by omega), digit_mem_text (by omega),
        hpadding, List.forall_mem_nil _⟩
  | case3 b₀ =>
      have hlt := group_lt b₀ 0 0
      simp only [encode, List.forall_mem_cons]
      exact ⟨digit_mem_text (by omega), digit_mem_text (by omega), hpadding, hpadding,
        List.forall_mem_nil _⟩
  | case4 => exact List.forall_mem_nil _

end Base64
