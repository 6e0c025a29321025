/-
Module: AnotherWs.Lib.Sha1
Purpose: The secure hash algorithm SHA-1 as its standard describes it: the padding, the message
  schedule, and the eighty rounds of a block.
Trusted boundary: none
Main exports: Sha1.word, Sha1.rounds, Sha1.compress, Sha1.absorb, Sha1.pad, Sha1.hash,
  Sha1.lastBlock, Sha1.word_of_lt, Sha1.word_expand, Sha1.absorb_append, Sha1.absorb_succ,
  Sha1.hash_short, Sha1.hash_long, Sha1.lastBlock_split
-/
import Mathlib.Algebra.Order.Ring.Nat
import Mathlib.Data.List.GetD
import Mathlib.Data.Nat.Init

namespace Sha1

/-- The words that the algorithm works on. -/
abbrev Word := UInt32

/-- `ROTL`, the circular left shift. -/
def rotl (n x : Word) : Word := (x <<< n) ||| (x >>> (32 - n))

/-- `Ch`, which chooses between `y` and `z`. -/
def ch (x y z : Word) : Word := (x &&& y) ^^^ (~~~x &&& z)

/-- `Parity` -/
def parity (x y z : Word) : Word := x ^^^ y ^^^ z

/-- `Maj`, the majority of the three bits. -/
def maj (x y z : Word) : Word := (x &&& y) ^^^ (x &&& z) ^^^ (y &&& z)

/-- The logical function of round `t`. -/
def logical (t : Nat) : Word → Word → Word → Word :=
  if t < 20 then ch else if t < 40 then parity else if t < 60 then maj else parity

/-- The constant of round `t`. -/
def constant (t : Nat) : Word :=
  if t < 20 then 0x5a827999 else if t < 40 then 0x6ed9eba1
  else if t < 60 then 0x8f1bbcdc else 0xca62c1d6

theorem first_quarter {t : Nat} (lt : t < 20) : logical t = ch ∧ constant t = 0x5a827999 := by
  simp only [logical, constant, if_pos lt, and_self]

theorem second_quarter {t : Nat} (ge : 20 ≤ t) (lt : t < 40) :
    logical t = parity ∧ constant t = 0x6ed9eba1 := by
  have h20 : ¬ t < 20 := by omega
  simp only [logical, constant, if_neg h20, if_pos lt, and_self]

theorem third_quarter {t : Nat} (ge : 40 ≤ t) (lt : t < 60) :
    logical t = maj ∧ constant t = 0x8f1bbcdc := by
  have h20 : ¬ t < 20 := by omega
  have h40 : ¬ t < 40 := by omega
  simp only [logical, constant, if_neg h20, if_neg h40, if_pos lt, and_self]

theorem fourth_quarter {t : Nat} (ge : 60 ≤ t) : logical t = parity ∧ constant t = 0xca62c1d6 := by
  have h20 : ¬ t < 20 := by omega
  have h40 : ¬ t < 40 := by omega
  have h60 : ¬ t < 60 := by omega
  simp only [logical, constant, if_neg h20, if_neg h40, if_neg h60, and_self]

/-- The five working variables, and the five words of a hash value. -/
@[ext] structure State where
  a : Word
  b : Word
  c : Word
  d : Word
  e : Word
deriving DecidableEq

/-- The hash value before the first block. -/
def initial : State := ⟨0x67452301, 0xefcdab89, 0x98badcfe, 0x10325476, 0xc3d2e1f0⟩

/-! ### The message schedule -/

/-- The next word of a schedule that has `t` words so far. -/
def expand (W : List Word) : Word :=
  rotl 1 (W.getD (W.length - 3) 0 ^^^ W.getD (W.length - 8) 0 ^^^ W.getD (W.length - 14) 0 ^^^
    W.getD (W.length - 16) 0)

/-- The words of a block and the next `n` words of its schedule. -/
def schedule (M : List Word) : Nat → List Word
  | 0 => M
  | n + 1 =>
      let W := schedule M n
      W ++ [expand W]

/-- `W_t` -/
def word (M : List Word) (t : Nat) : Word := (schedule M 64).getD t 0

@[simp] theorem length_schedule (M : List Word) (n : Nat) :
    (schedule M n).length = M.length + n := by
  induction n with
  | zero => rfl
  | succ n ih => simp only [schedule, List.length_append, List.length_singleton, ih, Nat.add_assoc]

/-- A longer schedule starts with the shorter one. -/
theorem schedule_getD {M : List Word} {m n t : Nat} (le : m ≤ n) (lt : t < M.length + m) :
    (schedule M n).getD t 0 = (schedule M m).getD t 0 := by
  induction n, le using Nat.le_induction with
  | base => rfl
  | succ n le ih =>
      rw [← ih]
      simp only [schedule]
      apply List.getD_append
      rw [length_schedule]
      omega

/-- The first words of the schedule are the block. -/
theorem word_of_lt {M : List Word} {t : Nat} (lt : t < M.length) : word M t = M.getD t 0 := by
  apply schedule_getD (m := 0) (Nat.zero_le _)
  exact lt

/-- Every further word comes from the sixteen before it. -/
theorem word_expand {M : List Word} {t : Nat} (words : M.length = 16) (ge : 16 ≤ t) (lt : t < 80) :
    word M t = rotl 1 (word M (t - 3) ^^^ word M (t - 8) ^^^ word M (t - 14) ^^^ word M (t - 16)) := by
  obtain ⟨n, rfl⟩ := Nat.exists_eq_add_of_le ge
  have hlast : word M (16 + n) = expand (schedule M n) := by
    rw [word, schedule_getD (m := n + 1) (by omega) (by omega)]
    simp only [schedule]
    rw [List.getD_append_right _ _ _ _ (by rw [length_schedule]; omega), length_schedule, words,
      Nat.sub_self]
    rfl
  have hearlier : ∀ i, i < 16 + n → (schedule M n).getD i 0 = word M i := by
    intro i hi
    rw [word]
    symm
    apply schedule_getD
    · omega
    · omega
  rw [hlast, expand, length_schedule, words]
  rw [hearlier _ (by omega), hearlier _ (by omega), hearlier _ (by omega), hearlier _ (by omega)]

/-! ### One block -/

/-- Round `t` with the schedule word `w`. -/
def round (t : Nat) (w : Word) (s : State) : State where
  a := rotl 5 s.a + logical t s.b s.c s.d + s.e + constant t + w
  b := s.a
  c := rotl 30 s.b
  d := s.c
  e := s.d

/-- The first `n` rounds. -/
def rounds (W : Nat → Word) : Nat → State → State
  | 0, s => s
  | n + 1, s => round n (W n) (rounds W n s)

/-- The word that four bytes spell, the most significant one first. -/
def ofBytes (b₀ b₁ b₂ b₃ : UInt8) : Word :=
  (b₀.toUInt32 <<< 24) ||| (b₁.toUInt32 <<< 16) ||| (b₂.toUInt32 <<< 8) ||| b₃.toUInt32

/-- The sixteen words of a block. -/
def blockWords (block : List UInt8) : List Word :=
  (List.range 16).map fun i =>
    ofBytes (block.getD (4 * i) 0) (block.getD (4 * i + 1) 0) (block.getD (4 * i + 2) 0)
      (block.getD (4 * i + 3) 0)

@[simp] theorem length_blockWords (block : List UInt8) : (blockWords block).length = 16 := by
  simp [blockWords]

/-- The hash value after one more block. -/
def compress (H : State) (block : List UInt8) : State :=
  let s := rounds (word (blockWords block)) 80 H
  ⟨H.a + s.a, H.b + s.b, H.c + s.c, H.d + s.d, H.e + s.e⟩

/-- The hash value after the first `n` blocks of `bytes`. -/
def absorb : Nat → State → List UInt8 → State
  | 0, H, _ => H
  | n + 1, H, bytes => absorb n (compress H (bytes.take 64)) (bytes.drop 64)

/-- Whole blocks can be taken in first. -/
theorem absorb_append {front : List UInt8} {m : Nat} (whole : front.length = 64 * m) (n : Nat)
    (H : State) (rest : List UInt8) :
    absorb (m + n) H (front ++ rest) = absorb n (absorb m H front) rest := by
  induction m generalizing H front with
  | zero =>
      have hnil : front = [] := List.length_eq_zero_iff.mp whole
      subst hnil
      rw [Nat.zero_add]
      rfl
  | succ m ih =>
      have hdrop : (front.drop 64).length = 64 * m := by
        rw [List.length_drop]
        omega
      rw [Nat.succ_add]
      simp only [absorb]
      rw [List.take_append_of_le_length (by omega), List.drop_append_of_le_length (by omega)]
      apply ih
      exact hdrop

/-- The first blocks do not see what comes behind them. -/
theorem absorb_left {n : Nat} {front : List UInt8} (le : 64 * n ≤ front.length) (H : State)
    (rest : List UInt8) : absorb n H (front ++ rest) = absorb n H front := by
  induction n generalizing H front with
  | zero => rfl
  | succ n ih =>
      have hdrop : 64 * n ≤ (front.drop 64).length := by
        rw [List.length_drop]
        omega
      simp only [absorb]
      rw [List.take_append_of_le_length (by omega), List.drop_append_of_le_length (by omega)]
      apply ih
      exact hdrop

theorem length_take_blocks {n : Nat} {bytes : List UInt8} (le : 64 * n ≤ bytes.length) :
    (bytes.take (64 * n)).length = 64 * n := by
  rw [List.length_take]
  omega

/-- The first blocks decide alone. -/
theorem absorb_take {n : Nat} {bytes : List UInt8} (le : 64 * n ≤ bytes.length) (H : State) :
    absorb n H (bytes.take (64 * n)) = absorb n H bytes := by
  have hfront := absorb_left (n := n) (Nat.le_of_eq (length_take_blocks le).symm) H
    (bytes.drop (64 * n))
  rw [List.take_append_drop] at hfront
  exact hfront.symm

/-- One more block is one more compression. -/
theorem absorb_succ {n : Nat} {bytes : List UInt8} (le : 64 * n ≤ bytes.length) (H : State) :
    absorb (n + 1) H bytes = compress (absorb n H bytes) ((bytes.drop (64 * n)).take 64) := by
  have hsplit := absorb_append (length_take_blocks le) 1 H (bytes.drop (64 * n))
  rw [List.take_append_drop, absorb_take le] at hsplit
  exact hsplit

/-! ### Padding and the digest -/

/-- A number as eight bytes, the most significant one first. -/
def lengthBytes (n : Nat) : List UInt8 :=
  (List.range 8).map fun i => UInt8.ofNat (n / 2 ^ (8 * (7 - i)))

@[simp] theorem length_lengthBytes (n : Nat) : (lengthBytes n).length = 8 := by
  simp [lengthBytes]

/-- What the padding puts behind a message of `n` bytes: a one bit, zeros up to eight bytes before the
end of a block, and the length of the message in bits. -/
def closing (n : Nat) : List UInt8 :=
  [0x80] ++ List.replicate ((119 - n % 64) % 64) 0 ++ lengthBytes (8 * n)

/-- The padded message. -/
def pad (message : List UInt8) : List UInt8 := message ++ closing message.length

theorem length_closing (n : Nat) : (closing n).length = (119 - n % 64) % 64 + 9 := by
  simp only [closing, List.length_append, List.length_singleton, List.length_replicate,
    length_lengthBytes]
  omega

/-- The five words of a hash value as bytes. -/
def State.bytes (s : State) : List UInt8 :=
  [s.a, s.b, s.c, s.d, s.e].flatMap fun w : Word =>
    [(w >>> 24).toUInt8, (w >>> 16).toUInt8, (w >>> 8).toUInt8, w.toUInt8]

@[simp] theorem State.length_bytes (s : State) : s.bytes.length = 20 := rfl

/-- The message digest. -/
def hash (message : List UInt8) : List UInt8 :=
  (absorb ((pad message).length / 64) initial (pad message)).bytes

@[simp] theorem length_hash (message : List UInt8) : (hash message).length = 20 := rfl

/-- What is behind the first `n` blocks of a padded message. -/
def padTail (n : Nat) (message : List UInt8) : List UInt8 :=
  message.drop (64 * n) ++ closing message.length

/-- The last block of the padded message. -/
def lastBlock (message : List UInt8) : List UInt8 := (pad message).drop ((pad message).length - 64)

theorem pad_eq (n : Nat) (message : List UInt8) :
    pad message = message.take (64 * n) ++ padTail n message := by
  rw [pad, padTail, ← List.append_assoc, List.take_append_drop]

/-- The digest from the hash value of the whole blocks and what is behind them. -/
theorem hash_eq {message : List UInt8} {n : Nat} (le : 64 * n ≤ message.length)
    (lt : message.length < 64 * (n + 1)) :
    hash message =
      (absorb ((message.length - 64 * n + 8) / 64 + 1) (absorb n initial message)
        (padTail n message)).bytes := by
  have hblocks : (pad message).length / 64 = n + ((message.length - 64 * n + 8) / 64 + 1) := by
    rw [pad, List.length_append, length_closing]
    omega
  rw [hash, hblocks, pad_eq n, absorb_append (length_take_blocks le), absorb_take le]

/-- The last block, from what is behind the whole blocks of the message. -/
theorem lastBlock_eq {message : List UInt8} {n : Nat} (le : 64 * n ≤ message.length)
    (lt : message.length < 64 * (n + 1)) :
    lastBlock message = (padTail n message).drop (64 * ((message.length - 64 * n + 8) / 64)) := by
  have hskip : (pad message).length - 64 =
      (message.take (64 * n)).length + 64 * ((message.length - 64 * n + 8) / 64) := by
    rw [length_take_blocks le, pad, List.length_append, length_closing]
    omega
  rw [lastBlock, hskip, pad_eq n, ← List.drop_drop, List.drop_left]

/-- The padding up to the length field, for a message that leaves `room` bytes in its last block. -/
def padBits (room : Nat) : List UInt8 := 0x80 :: List.replicate room 0

@[simp] theorem length_padBits (room : Nat) : (padBits room).length = room + 1 := by
  rw [padBits, List.length_cons, List.length_replicate]

theorem absorb_block {block : List UInt8} (whole : block.length = 64) (H : State) :
    absorb 1 H block = compress H block := by
  show compress H (block.take 64) = _
  rw [List.take_of_length_le (by omega)]

/-- A message that leaves room for the length field ends with its last partial block. -/
theorem hash_short {message : List UInt8} {n : Nat} (le : 64 * n ≤ message.length)
    (lt : message.length < 64 * n + 56) :
    let block := message.drop (64 * n) ++ padBits (55 - (message.length - 64 * n)) ++
      lengthBytes (8 * message.length)
    hash message = (compress (absorb n initial message) block).bytes ∧ lastBlock message = block := by
  intro block
  have hblock : padTail n message = block := by
    have hroom : (119 - message.length % 64) % 64 = 55 - (message.length - 64 * n) := by omega
    simp only [padTail, closing, hroom, block, padBits, List.append_assoc, List.singleton_append]
  have hlength : block.length = 64 := by
    simp only [block, List.length_append, List.length_drop, length_padBits, length_lengthBytes]
    omega
  have hzero : (message.length - 64 * n + 8) / 64 = 0 := by omega
  rw [hash_eq le (by omega), lastBlock_eq le (by omega), hblock, hzero, absorb_block hlength]
  exact ⟨rfl, rfl⟩

/-- Any other message needs one more block for the length field. -/
theorem hash_long {message : List UInt8} {n : Nat} (ge : 64 * n + 56 ≤ message.length)
    (lt : message.length < 64 * (n + 1)) :
    let full := message.drop (64 * n) ++ padBits (63 - (message.length - 64 * n))
    let block := List.replicate 56 0 ++ lengthBytes (8 * message.length)
    hash message = (compress (compress (absorb n initial message) full) block).bytes ∧
      lastBlock message = block := by
  intro full block
  have hsplit : padTail n message = full ++ block := by
    have hroom : (119 - message.length % 64) % 64 = (63 - (message.length - 64 * n)) + 56 := by omega
    simp only [padTail, closing, hroom, full, block, padBits, ← List.replicate_append_replicate,
      List.append_assoc, List.cons_append, List.nil_append]
  have hfull : full.length = 64 * 1 := by
    simp only [full, List.length_append, List.length_drop, length_padBits]
    omega
  have hblock : block.length = 64 := by
    simp only [block, List.length_append, List.length_replicate, length_lengthBytes]
  have hone : (message.length - 64 * n + 8) / 64 = 1 := by omega
  rw [hash_eq (by omega) lt, lastBlock_eq (by omega) lt, hsplit, hone, absorb_append hfull,
    absorb_block hfull, absorb_block hblock, ← hfull, List.drop_left]
  exact ⟨rfl, rfl⟩

/-- The last block ends with the length of the message, and in front of it, from byte 20 on, stand zeros
unless the message or the marker bit reaches into that part. -/
theorem lastBlock_split (message : List UInt8) :
    ∃ front, front.length = 56 ∧ lastBlock message = front ++ lengthBytes (8 * message.length) ∧
      (message.length % 64 < 20 ∨ 56 ≤ message.length % 64 →
        front.drop 20 = List.replicate 36 0) := by
  have hle : 64 * (message.length / 64) ≤ message.length := by omega
  have hlength : (message.drop (64 * (message.length / 64))).length = message.length % 64 := by
    rw [List.length_drop]
    omega
  rcases Nat.lt_or_ge message.length (64 * (message.length / 64) + 56) with hlt | hge
  · refine ⟨_, ?_, (hash_short hle hlt).2, ?_⟩
    · rw [List.length_append, hlength, length_padBits]
      omega
    · intro hquiet
      have hskip : 20 - message.length % 64 = 19 - message.length % 64 + 1 := by omega
      rw [List.drop_append, List.drop_eq_nil_of_le (by omega), List.nil_append, hlength, padBits,
        hskip, List.drop_succ_cons, List.drop_replicate]
      congr 1
      omega
  · refine ⟨_, List.length_replicate, (hash_long hge (by omega)).2, ?_⟩
    intro _
    rw [List.drop_replicate]

/-- A length of seven bytes leaves the first one zero. -/
theorem lengthBytes_zero {n : Nat} (small : n < 2 ^ 56) : 0 ∈ lengthBytes n := by
  apply List.mem_map.mpr
  refine ⟨0, List.mem_range.mpr (by omega), ?_⟩
  rw [Nat.div_eq_of_lt (by omega)]
  rfl

example : hash [0x61, 0x62, 0x63] =
    [0xa9, 0x99, 0x3e, 0x36, 0x47, 0x06, 0x81, 0x6a, 0xba, 0x3e, 0x25, 0x71, 0x78, 0x50, 0xc2, 0x6c,
      0x9c, 0xd0, 0xd8, 0x9d] := by decide +kernel

end Sha1
