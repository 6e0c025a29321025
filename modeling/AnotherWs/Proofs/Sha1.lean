/-
Module: AnotherWs.Proofs.Sha1
Purpose: The hash of sha1.cpp is SHA-1, for a message that comes in any number of pieces, and what
  hash1_final leaves in the block buffer behind the digest.
Trusted boundary: none
Main exports: hash1Transform_state, Absorbed, hash1Write_absorbed, hash1Final_buf, hash1_buf,
  hash1_pieces
-/
import AnotherWs.Core.Sha1
import AnotherWs.Lib.Sha1
import Mathlib.Data.List.GetD

namespace AnotherWs

/-! ### One block

The registers of the unrolled lines carry the working variables of the standard under moving names,
and the sixteen words of `x` carry the last sixteen words of the schedule in a ring. -/

/-- `F1` chooses. -/
theorem sha1F1_eq_ch : sha1F1 = Sha1.ch := by
  funext x y z
  apply UInt32.toBitVec_inj.mp
  apply BitVec.eq_of_getLsbD_eq
  intro i hi
  simp only [sha1F1, Sha1.ch, UInt32.toBitVec_xor, UInt32.toBitVec_and, UInt32.toBitVec_not,
    BitVec.getLsbD_xor, BitVec.getLsbD_and, BitVec.getLsbD_not, hi, decide_true, Bool.true_and]
  cases x.toBitVec.getLsbD i <;> cases y.toBitVec.getLsbD i <;> cases z.toBitVec.getLsbD i <;> rfl

/-- `F3` is the majority. -/
theorem sha1F3_eq_maj : sha1F3 = Sha1.maj := by
  funext x y z
  apply UInt32.toBitVec_inj.mp
  apply BitVec.eq_of_getLsbD_eq
  intro i hi
  simp only [sha1F3, Sha1.maj, UInt32.toBitVec_xor, UInt32.toBitVec_and, UInt32.toBitVec_or,
    BitVec.getLsbD_xor, BitVec.getLsbD_and, BitVec.getLsbD_or]
  cases x.toBitVec.getLsbD i <;> cases y.toBitVec.getLsbD i <;> cases z.toBitVec.getLsbD i <;> rfl

/-- Before line `t`, `x` holds the block, or from line 16 on the sixteen schedule words before
word `t`. -/
structure ScheduleRing (M : List Sha1.Word) (t : Nat) (x : List UInt32) : Prop where
  length_eq : x.length = 16
  holds : ∀ i, i < max t 16 → max t 16 ≤ i + 16 → x.getD (i % 16) 0 = Sha1.word M i

theorem xor_reverse (w₁ w₂ w₃ w₄ : UInt32) :
    w₁ ^^^ w₂ ^^^ w₃ ^^^ w₄ = w₄ ^^^ w₃ ^^^ w₂ ^^^ w₁ := by
  ac_rfl

/-- The operand of line `t` is word `t` of the schedule, and the ring moves on. -/
theorem transformOperand_spec {M : List Sha1.Word} {t : Nat} {x : List UInt32}
    (words : M.length = 16) (ring : ScheduleRing M t x) (lt : t < 80) :
    (transformOperand t x).1 = Sha1.word M t ∧
      ScheduleRing M (t + 1) (transformOperand t x).2 := by
  rcases Nat.lt_or_ge t 16 with hlt | hge
  · rw [transformOperand, if_pos hlt]
    have hfirst := ring.holds t (by omega) (by omega)
    rw [Nat.mod_eq_of_lt hlt] at hfirst
    refine ⟨hfirst, ring.length_eq, ?_⟩
    intro i hi hwindow
    apply ring.holds
    · omega
    · omega
  · have hmod : t % 16 = (t - 16) % 16 := by omega
    have hnew : rol (x.getD (t % 16) 0 ^^^ x.getD ((t - 14) % 16) 0 ^^^ x.getD ((t - 8) % 16) 0 ^^^
        x.getD ((t - 3) % 16) 0) 1 = Sha1.word M t := by
      rw [hmod, ring.holds _ (by omega) (by omega), ring.holds _ (by omega) (by omega),
        ring.holds _ (by omega) (by omega), ring.holds _ (by omega) (by omega),
        Sha1.word_expand words hge lt, rol, Sha1.rotl]
      rw [xor_reverse]
    rw [transformOperand, if_neg (by omega)]
    simp only [hnew]
    refine ⟨trivial, by rw [List.length_set]; exact ring.length_eq, ?_⟩
    intro i hi hwindow
    have hin : i % 16 < x.length := by
      rw [ring.length_eq]
      omega
    rw [List.getD_eq_getElem _ _ (by rw [List.length_set]; exact hin), List.getElem_set]
    split
    · have hi : i = t := by omega
      rw [hi]
    · rw [← List.getD_eq_getElem _ 0 hin]
      apply ring.holds
      · omega
      · omega

/-- The registers under the names of the standard. -/
def TransformLocals.state (locals : TransformLocals) : Sha1.State :=
  ⟨locals.a, locals.b, locals.c, locals.d, locals.e⟩

/-- The locals before line `t`: the ring, and the working variables after `t` rounds. -/
structure AtLine (M : List Sha1.Word) (H : Sha1.State) (t : Nat) (locals : TransformLocals) :
    Prop where
  ring : ScheduleRing M t locals.x
  state_eq : locals.state = Sha1.rounds (Sha1.word M) t H

/-- A line computes what the standard puts into the first variable. -/
theorem transformR_eq (f : UInt32 → UInt32 → UInt32 → UInt32) (k m a b c d e : UInt32) :
    transformR f k m a b c d e =
      (Sha1.rotl 30 b, Sha1.rotl 5 a + f b c d + e + k + m) := by
  have hsum : e + (rol a 5 + f b c d + k + m) = Sha1.rotl 5 a + f b c d + e + k + m := by
    rw [rol, Sha1.rotl]
    ac_rfl
  rw [transformR, hsum]
  rfl

/-- Five lines are five rounds. -/
theorem transformFive_atLine {M : List Sha1.Word} {H : Sha1.State} {t : Nat}
    {f : UInt32 → UInt32 → UInt32 → UInt32} {k : UInt32} {locals : TransformLocals}
    (words : M.length = 16) (lines : t + 5 ≤ 80)
    (same : ∀ i < 5, Sha1.logical (t + i) = f ∧ Sha1.constant (t + i) = k)
    (before : AtLine M H t locals) : AtLine M H (t + 5) (transformFive f k locals t) := by
  obtain ⟨a, b, c, d, e, x⟩ := locals
  obtain ⟨hm0, hring1⟩ := transformOperand_spec words before.ring (by omega)
  obtain ⟨hm1, hring2⟩ := transformOperand_spec words hring1 (by omega)
  obtain ⟨hm2, hring3⟩ := transformOperand_spec words hring2 (by omega)
  obtain ⟨hm3, hring4⟩ := transformOperand_spec words hring3 (by omega)
  obtain ⟨hm4, hring5⟩ := transformOperand_spec words hring4 (by omega)
  have hstate := before.state_eq
  simp only [TransformLocals.state] at hstate
  obtain ⟨hf0, hk0⟩ := same 0 (by omega)
  obtain ⟨hf1, hk1⟩ := same 1 (by omega)
  obtain ⟨hf2, hk2⟩ := same 2 (by omega)
  obtain ⟨hf3, hk3⟩ := same 3 (by omega)
  obtain ⟨hf4, hk4⟩ := same 4 (by omega)
  refine ⟨hring5, ?_⟩
  simp only [transformFive, transformR_eq, hm0, hm1, hm2, hm3, hm4, TransformLocals.state,
    Sha1.rounds, Sha1.round, ← hstate, ← hf0, ← hk0, hf1, hk1, hf2, hk2, hf3, hk3, hf4, hk4,
    Nat.add_zero]

/-- Twenty lines with one logical function and one constant are twenty rounds. -/
theorem transformTwenty_atLine {M : List Sha1.Word} {H : Sha1.State} {t : Nat}
    {f : UInt32 → UInt32 → UInt32 → UInt32} {k : UInt32} {locals : TransformLocals}
    (words : M.length = 16) (lines : t + 20 ≤ 80)
    (same : ∀ i, t ≤ i → i < t + 20 → Sha1.logical i = f ∧ Sha1.constant i = k)
    (before : AtLine M H t locals) :
    AtLine M H (t + 20) ([t, t + 5, t + 10, t + 15].foldl (transformFive f k) locals) := by
  have step : ∀ {s : Nat} {locals : TransformLocals}, t ≤ s → s + 5 ≤ t + 20 →
      AtLine M H s locals → AtLine M H (s + 5) (transformFive f k locals s) := by
    intro s locals hfrom hto hline
    apply transformFive_atLine words (by omega) _ hline
    intro i hi
    apply same
    · omega
    · omega
  simp only [List.foldl_cons, List.foldl_nil]
  apply step (s := t + 15) (by omega) (by omega)
  apply step (s := t + 10) (by omega) (by omega)
  apply step (s := t + 5) (by omega) (by omega)
  apply step (Nat.le_refl t) (by omega)
  exact before

/-- The eighty lines are the eighty rounds. -/
theorem transformLines_atLine {M : List Sha1.Word} {H : Sha1.State} {locals : TransformLocals}
    (words : M.length = 16) (before : AtLine M H 0 locals) :
    AtLine M H 80 (transformLines locals) := by
  simp only [transformLines]
  apply transformTwenty_atLine (t := 60) words (by omega)
  · intro i hfrom _
    exact Sha1.fourth_quarter hfrom
  apply transformTwenty_atLine (t := 40) words (by omega)
  · intro i hfrom hto
    rw [sha1F3_eq_maj]
    exact Sha1.third_quarter hfrom hto
  apply transformTwenty_atLine (t := 20) words (by omega)
  · intro i hfrom hto
    exact Sha1.second_quarter hfrom hto
  apply transformTwenty_atLine (t := 0) words (by omega)
  · intro i _ hto
    rw [sha1F1_eq_ch]
    exact Sha1.first_quarter (by omega)
  exact before

/-- The chaining words of a context. -/
def SHA1Context.state (hd : SHA1Context) : Sha1.State := ⟨hd.h0, hd.h1, hd.h2, hd.h3, hd.h4⟩

/-- `hash1_transform` is the compression of one block. -/
theorem hash1Transform_state (hd : SHA1Context) (data : Bytes) :
    (hash1Transform hd data).state = Sha1.compress hd.state data := by
  have hstart : AtLine (Sha1.blockWords data) hd.state 0
      ⟨hd.h0, hd.h1, hd.h2, hd.h3, hd.h4, transformWords data⟩ := by
    refine ⟨⟨Sha1.length_blockWords data, ?_⟩, rfl⟩
    intro i hi _
    have hlt : i < 16 := by omega
    rw [Nat.mod_eq_of_lt hlt, Sha1.word_of_lt (by rw [Sha1.length_blockWords]; exact hlt)]
    rfl
  have hlast := (transformLines_atLine (Sha1.length_blockWords data) hstart).state_eq
  rw [Sha1.compress, ← hlast]
  rfl

/-! ### A message in pieces -/

/-- The context after `message`, with `n` blocks transformed and the rest in the buffer. -/
structure Absorbed (hd : SHA1Context) (message : Bytes) (n : Nat) : Prop where
  unfinished : hd.bFinal = false
  whole : 64 * n ≤ message.length
  count_eq : hd.count = message.length - 64 * n
  count_le : hd.count ≤ 64
  buffered : hd.buf.take hd.count = message.drop (64 * n)
  state_eq : hd.state = Sha1.absorb n Sha1.initial message
  nblocks_eq : hd.nblocks = UInt32.ofNat n

theorem hash1Reset_absorbed : Absorbed hash1Reset [] 0 where
  unfinished := rfl
  whole := Nat.le_refl 0
  count_eq := rfl
  count_le := Nat.zero_le 64
  buffered := rfl
  state_eq := rfl
  nblocks_eq := rfl

theorem state_rewound (hd : SHA1Context) (count : Nat) (nblocks : UInt32) :
    { hd with count := count, nblocks := nblocks : SHA1Context }.state = hd.state := rfl

theorem nextBlock_eq (hd : SHA1Context) (data : Bytes) :
    hd.nextBlock data =
      { hash1Transform hd data with count := 0, nblocks := (hash1Transform hd data).nblocks + 1 } := by
  rw [SHA1Context.nextBlock]

@[simp] theorem nextBlock_state (hd : SHA1Context) (data : Bytes) :
    (hd.nextBlock data).state = Sha1.compress hd.state data := by
  rw [nextBlock_eq, state_rewound, hash1Transform_state]

@[simp] theorem nextBlock_bFinal (hd : SHA1Context) (data : Bytes) :
    (hd.nextBlock data).bFinal = hd.bFinal := by
  rw [nextBlock_eq, hash1Transform]

@[simp] theorem nextBlock_count (hd : SHA1Context) (data : Bytes) :
    (hd.nextBlock data).count = 0 := by
  rw [nextBlock_eq]

@[simp] theorem nextBlock_nblocks (hd : SHA1Context) (data : Bytes) :
    (hd.nextBlock data).nblocks = hd.nblocks + 1 := by
  rw [nextBlock_eq, hash1Transform]

@[simp] theorem nextBlock_buf (hd : SHA1Context) (data : Bytes) :
    (hd.nextBlock data).buf = hd.buf := by
  rw [nextBlock_eq, hash1Transform]

theorem push_take {hd : SHA1Context} (byte : UInt8) (room : hd.count < 64) :
    (hd.push byte).buf.take (hd.count + 1) = hd.buf.take hd.count ++ [byte] := by
  have hbuf : hd.count < hd.buf.length := by
    rw [hd.buf_length]
    exact room
  show (hd.buf.set hd.count byte).take (hd.count + 1) = _
  rw [List.take_succ_eq_append_getElem (by rw [List.length_set]; exact hbuf),
    List.getElem_set_self, List.take_set_of_le (Nat.le_refl _)]

/-- A byte joins the buffer. -/
theorem push_absorbed {hd : SHA1Context} {message : Bytes} {n : Nat} (byte : UInt8)
    (before : Absorbed hd message n) (room : hd.count < 64) :
    Absorbed (hd.push byte) (message ++ [byte]) n := by
  have hwhole := before.whole
  have hcount := before.count_eq
  refine ⟨before.unfinished, ?_, ?_, room, ?_, ?_, before.nblocks_eq⟩
  · rw [List.length_append]
    omega
  · show hd.count + 1 = _
    rw [List.length_append, List.length_singleton]
    omega
  · rw [List.drop_append_of_le_length hwhole, ← before.buffered]
    exact push_take byte room
  · rw [Sha1.absorb_left hwhole]
    exact before.state_eq

/-- The next block is transformed, be it from the buffer or from the input. -/
theorem nextBlock_absorbed {hd : SHA1Context} {message data : Bytes} {n : Nat}
    (unfinished : hd.bFinal = false) (length_eq : message.length = 64 * (n + 1))
    (block : message.drop (64 * n) = data)
    (state_eq : hd.state = Sha1.absorb n Sha1.initial message)
    (nblocks_eq : hd.nblocks = UInt32.ofNat n) :
    Absorbed (hd.nextBlock data) message (n + 1) := by
  have hdata : data.take 64 = data := by
    apply List.take_of_length_le
    rw [← block, List.length_drop]
    omega
  refine ⟨by rw [nextBlock_bFinal]; exact unfinished, by omega, ?_, ?_, ?_, ?_, ?_⟩
  · rw [nextBlock_count]
    omega
  · rw [nextBlock_count]
    omega
  · rw [nextBlock_count, List.drop_eq_nil_of_le (by omega), List.take_zero]
  · rw [nextBlock_state, Sha1.absorb_succ (by omega), block, hdata, state_eq]
  · rw [nextBlock_nblocks, nblocks_eq, UInt32.ofNat_add]
    rfl

/-- A flush empties a full buffer and leaves any other context alone. -/
theorem hash1Flush_absorbed {hd : SHA1Context} {message : Bytes} {n : Nat}
    (before : Absorbed hd message n) :
    (hd.count = 64 ∧ (hash1Flush hd).count = 0 ∧ Absorbed (hash1Flush hd) message (n + 1)) ∨
      (hd.count < 64 ∧ hash1Flush hd = hd) := by
  have hflush : hash1Flush hd = if hd.count = 64 then hd.nextBlock hd.buf else hd := by
    simp only [hash1Flush, before.unfinished, Bool.false_eq_true, if_false]
  have hwhole := before.whole
  have hcount := before.count_eq
  rcases Nat.lt_or_eq_of_le before.count_le with hlt | hfull
  · right
    rw [hflush, if_neg (by omega)]
    exact ⟨hlt, rfl⟩
  · left
    rw [hflush, if_pos hfull]
    refine ⟨hfull, nextBlock_count hd hd.buf, ?_⟩
    apply nextBlock_absorbed before.unfinished (by omega) _ before.state_eq before.nblocks_eq
    rw [← before.buffered, hfull]
    apply List.take_of_length_le
    rw [hd.buf_length]

/-- The copy loop takes bytes until the buffer is full. -/
theorem fillBuf_absorbed {hd : SHA1Context} {message : Bytes} {n : Nat} (inbuf : Bytes)
    (before : Absorbed hd message n) :
    ∃ taken, inbuf = taken ++ (fillBuf hd inbuf).2 ∧
      Absorbed (fillBuf hd inbuf).1 (message ++ taken) n ∧
      ((fillBuf hd inbuf).2 ≠ [] → (fillBuf hd inbuf).1.count = 64) := by
  induction inbuf generalizing hd message with
  | nil => exact ⟨[], rfl, by rw [List.append_nil]; exact before, fun hne => absurd rfl hne⟩
  | cons byte inbuf ih =>
      by_cases room : hd.count < 64
      · obtain ⟨taken, hsplit, habsorbed, hfull⟩ := ih (push_absorbed byte before room)
        rw [fillBuf, if_pos room]
        refine ⟨byte :: taken, congrArg (byte :: ·) hsplit, ?_, hfull⟩
        rw [List.append_cons]
        exact habsorbed
      · have hfull : hd.count = 64 := by
          have := before.count_le
          omega
        rw [fillBuf, if_neg room]
        exact ⟨[], rfl, by rw [List.append_nil]; exact before, fun _ => hfull⟩

/-- The block loop takes the whole blocks of the input. -/
theorem transformBlocks_absorbed {hd : SHA1Context} {message : Bytes} {n : Nat} {fuel : Nat}
    {inbuf : Bytes} (before : Absorbed hd message n) (empty : hd.count = 0)
    (passes : fuel = inbuf.length / 64) :
    ∃ taken m, inbuf = taken ++ (transformBlocks fuel hd inbuf).2 ∧
      Absorbed (transformBlocks fuel hd inbuf).1 (message ++ taken) m ∧
      (transformBlocks fuel hd inbuf).1.count = 0 ∧
      (transformBlocks fuel hd inbuf).2.length < 64 := by
  induction fuel generalizing hd message n inbuf with
  | zero =>
      refine ⟨[], n, rfl, by rw [List.append_nil]; exact before, empty, ?_⟩
      show inbuf.length < 64
      omega
  | succ fuel ih =>
      have hblock : 64 ≤ inbuf.length := by omega
      have hwhole := before.whole
      have hcount := before.count_eq
      have htaken : (inbuf.take 64).length = 64 := by
        rw [List.length_take]
        omega
      have hnext : Absorbed (hd.nextBlock (inbuf.take 64)) (message ++ inbuf.take 64) (n + 1) := by
        apply nextBlock_absorbed before.unfinished _ _ _ before.nblocks_eq
        · rw [List.length_append, htaken]
          omega
        · rw [List.drop_append_of_le_length hwhole, List.drop_eq_nil_of_le (by omega),
            List.nil_append]
        · rw [Sha1.absorb_left hwhole]
          exact before.state_eq
      have hpasses : fuel = (inbuf.drop 64).length / 64 := by
        rw [List.length_drop]
        omega
      obtain ⟨taken, m, hsplit, habsorbed, hempty, hshort⟩ := ih hnext (nextBlock_count hd _) hpasses
      rw [transformBlocks, if_pos hblock]
      refine ⟨inbuf.take 64 ++ taken, m, ?_, ?_, hempty, hshort⟩
      · rw [List.append_assoc, ← hsplit, List.take_append_drop]
      · rw [← List.append_assoc]
        exact habsorbed

/-- From an empty buffer the two last loops take the whole input. -/
theorem writeBlocks_absorbed {hd : SHA1Context} {message : Bytes} {n : Nat} (inbuf : Bytes)
    (before : Absorbed hd message n) (empty : hd.count = 0) :
    ∃ m, Absorbed (writeBlocks hd inbuf) (message ++ inbuf) m ∧ (writeBlocks hd inbuf).count < 64 := by
  obtain ⟨taken, m, hsplit, habsorbed, hempty, hshort⟩ :=
    @transformBlocks_absorbed _ _ _ _ inbuf before empty rfl
  obtain ⟨taken', hsplit', habsorbed', hfull⟩ :=
    fillBuf_absorbed (transformBlocks (inbuf.length / 64) hd inbuf).2 habsorbed
  have hbefore := habsorbed.whole
  have hcount := habsorbed.count_eq
  have hafter := habsorbed'.count_eq
  have hlength := congrArg List.length hsplit'
  rw [List.length_append] at hlength
  rw [@List.length_append _ (message ++ taken)] at hafter
  have hroom : (writeBlocks hd inbuf).count < 64 := by
    show (fillBuf _ _).1.count < 64
    omega
  have hnil : (fillBuf (transformBlocks (inbuf.length / 64) hd inbuf).1
      (transformBlocks (inbuf.length / 64) hd inbuf).2).2 = [] := by
    by_contra hne
    have hsixtyfour := hfull hne
    omega
  rw [hnil, List.append_nil] at hsplit'
  have hall : message ++ inbuf = message ++ taken ++ taken' := by
    rw [List.append_assoc, ← hsplit', ← hsplit]
  refine ⟨m, ?_, hroom⟩
  rw [hall]
  exact habsorbed'

/-- A buffer with room first takes bytes until it is full. -/
theorem writeInput_absorbed {hd : SHA1Context} {message : Bytes} {n : Nat} (inbuf : Bytes)
    (before : Absorbed hd message n) :
    ∃ m, Absorbed (writeInput hd inbuf) (message ++ inbuf) m ∧ (writeInput hd inbuf).count < 64 := by
  unfold writeInput
  by_cases hempty : hd.count = 0
  · rw [if_neg (not_not_intro hempty)]
    exact writeBlocks_absorbed inbuf before hempty
  · rw [if_pos hempty]
    obtain ⟨taken, hsplit, habsorbed, hfull⟩ := fillBuf_absorbed inbuf before
    by_cases hnil : (fillBuf hd inbuf).2 = []
    · simp only [if_pos hnil]
      rw [hnil, List.append_nil] at hsplit
      rw [← hsplit] at habsorbed
      rcases hash1Flush_absorbed habsorbed with ⟨-, hzero, hflushed⟩ | ⟨hlt, hsame⟩
      · exact ⟨_, hflushed, by rw [hzero]; omega⟩
      · rw [hsame]
        exact ⟨n, habsorbed, hlt⟩
    · simp only [if_neg hnil]
      rcases hash1Flush_absorbed habsorbed with ⟨-, hzero, hflushed⟩ | ⟨hlt, -⟩
      · obtain ⟨m, hall, hcount⟩ := writeBlocks_absorbed (fillBuf hd inbuf).2 hflushed hzero
        rw [List.append_assoc, ← hsplit] at hall
        exact ⟨m, hall, hcount⟩
      · have := hfull hnil
        omega

/-- `hash1_write` appends to the message, however much of it there is. -/
theorem hash1Write_absorbed {hd : SHA1Context} {message : Bytes} {n : Nat} (inbuf : Bytes)
    (before : Absorbed hd message n) :
    ∃ m, Absorbed (hash1Write hd inbuf) (message ++ inbuf) m ∧ (hash1Write hd inbuf).count < 64 := by
  rw [hash1Write]
  rcases hash1Flush_absorbed before with ⟨-, -, hflushed⟩ | ⟨-, hsame⟩
  · exact writeInput_absorbed inbuf hflushed
  · rw [hsame]
    exact writeInput_absorbed inbuf before

/-! ### The digest -/

theorem toNat_shl (w : UInt32) {k : Nat} (lt : k < 32) :
    (w <<< UInt32.ofNat k).toNat = w.toNat * 2 ^ k % 2 ^ 32 := by
  rw [UInt32.toNat_shiftLeft, UInt32.toNat_ofNat', Nat.mod_eq_of_lt (by omega : k < 2 ^ 32),
    Nat.mod_eq_of_lt lt, Nat.shiftLeft_eq]

theorem toNat_shr (w : UInt32) {k : Nat} (lt : k < 32) :
    (w >>> UInt32.ofNat k).toNat = w.toNat / 2 ^ k := by
  rw [UInt32.toNat_shiftRight, UInt32.toNat_ofNat', Nat.mod_eq_of_lt (by omega : k < 2 ^ 32),
    Nat.mod_eq_of_lt lt, Nat.shiftRight_eq_div_pow]

/-- The bit count of a message, in the two words that `hash1_final` computes. -/
theorem bitCount_spec {hd : SHA1Context} {n : Nat} (nblocks_eq : hd.nblocks = UInt32.ofNat n)
    (small : n < 2 ^ 32) (room : hd.count < 64) :
    (bitCount hd).1.toNat * 2 ^ 32 + (bitCount hd).2.toNat = 8 * (64 * n + hd.count) := by
  have hn : hd.nblocks.toNat = n := by
    rw [nblocks_eq, UInt32.toNat_ofNat']
    exact Nat.mod_eq_of_lt small
  have hlsb0 : (hd.nblocks <<< 6).toNat = n * 2 ^ 6 % 2 ^ 32 := by
    rw [← hn]
    exact toNat_shl hd.nblocks (k := 6) (by omega)
  have hmsb0 : (hd.nblocks >>> 26).toNat = n / 2 ^ 26 := by
    rw [← hn]
    exact toNat_shr hd.nblocks (k := 26) (by omega)
  have hcount : (UInt32.ofNat hd.count).toNat = hd.count := by
    rw [UInt32.toNat_ofNat']
    omega
  -- the low word is a multiple of 64, so the count never carries
  have hlsb1 : (hd.nblocks <<< 6 + UInt32.ofNat hd.count).toNat = n * 2 ^ 6 % 2 ^ 32 + hd.count := by
    rw [UInt32.toNat_add, hlsb0, hcount]
    omega
  have hcarry : ¬ hd.nblocks <<< 6 + UInt32.ofNat hd.count < hd.nblocks <<< 6 := by
    rw [UInt32.lt_iff_toNat_lt, hlsb0, hlsb1]
    omega
  have hmsb2 : ((hd.nblocks >>> 26) <<< 3).toNat = n / 2 ^ 26 * 2 ^ 3 % 2 ^ 32 := by
    rw [← hmsb0]
    exact toNat_shl _ (k := 3) (by omega)
  have hlsb2 : ((hd.nblocks <<< 6 + UInt32.ofNat hd.count) <<< 3).toNat =
      (n * 2 ^ 6 % 2 ^ 32 + hd.count) * 2 ^ 3 % 2 ^ 32 := by
    rw [← hlsb1]
    exact toNat_shl _ (k := 3) (by omega)
  have hhigh : ((hd.nblocks <<< 6 + UInt32.ofNat hd.count) >>> 29).toNat =
      (n * 2 ^ 6 % 2 ^ 32 + hd.count) / 2 ^ 29 := by
    rw [← hlsb1]
    exact toNat_shr _ (k := 29) (by omega)
  have hor : ((hd.nblocks >>> 26) <<< 3 ||| (hd.nblocks <<< 6 + UInt32.ofNat hd.count) >>> 29).toNat =
      n / 2 ^ 26 * 2 ^ 3 + (n * 2 ^ 6 % 2 ^ 32 + hd.count) / 2 ^ 29 := by
    rw [UInt32.toNat_or, hmsb2, hhigh, Nat.mod_eq_of_lt (by omega), Nat.mul_comm,
      Nat.two_pow_add_eq_or_of_lt (by omega)]
  simp only [bitCount, if_neg hcarry, hor, hlsb2]
  omega

theorem storeWord_eq (w : UInt32) :
    storeWord w = [UInt8.ofNat (w.toNat / 2 ^ 24), UInt8.ofNat (w.toNat / 2 ^ 16),
      UInt8.ofNat (w.toNat / 2 ^ 8), UInt8.ofNat w.toNat] := by
  have h24 := toNat_shr w (k := 24) (by omega)
  have h16 := toNat_shr w (k := 16) (by omega)
  have h8 := toNat_shr w (k := 8) (by omega)
  rw [← h24, ← h16, ← h8]
  rfl

/-- A number of eight bytes from its two halves. -/
theorem storeWord_lengthBytes {msb lsb : UInt32} {total : Nat}
    (sum : msb.toNat * 2 ^ 32 + lsb.toNat = total) :
    storeWord msb ++ storeWord lsb = Sha1.lengthBytes total := by
  have hmsb := msb.toNat_lt
  have hlsb := lsb.toNat_lt
  have byte : ∀ {i j : Nat}, i % 256 = j % 256 → UInt8.ofNat i = UInt8.ofNat j := by
    intro i j same
    apply UInt8.toNat_inj.mp
    rw [UInt8.toNat_ofNat', UInt8.toNat_ofNat']
    exact same
  rw [storeWord_eq, storeWord_eq, ← sum]
  simp only [Sha1.lengthBytes, List.range, List.range.loop, List.map_cons, List.map_nil,
    List.cons_append, List.nil_append]
  simp only [List.cons_eq_cons]
  refine ⟨byte ?_, byte ?_, byte ?_, byte ?_, byte ?_, byte ?_, byte ?_, byte ?_, trivial⟩ <;> omega

/-- The zeros join the bytes of the buffer and nothing else changes. -/
theorem pushZeros_spec {hd : SHA1Context} {n : Nat} (room : hd.count + n ≤ 64) :
    (pushZeros n hd).count = hd.count + n ∧ (pushZeros n hd).state = hd.state ∧
      (pushZeros n hd).bFinal = hd.bFinal ∧
      (pushZeros n hd).buf.take (hd.count + n) = hd.buf.take hd.count ++ List.replicate n 0 := by
  induction n generalizing hd with
  | zero => exact ⟨rfl, rfl, rfl, by rw [List.replicate_zero, List.append_nil]; rfl⟩
  | succ n ih =>
      have hcount : (hd.push 0).count = hd.count + 1 := rfl
      obtain ⟨hsum, hstate, hfinal, htake⟩ := @ih (hd.push 0) (by omega)
      rw [hcount, push_take 0 (by omega)] at htake
      rw [pushZeros]
      refine ⟨by omega, hstate, hfinal, ?_⟩
      rw [List.replicate_succ, List.append_cons, ← htake]
      congr 1
      omega

/-- The marker bit and the zeros behind it. -/
theorem pushBits_spec {hd : SHA1Context} {limit : Nat} (room : hd.count < limit)
    (le : limit ≤ 64) :
    let padded := pushZeros (limit - (hd.push 0x80).count) (hd.push 0x80)
    padded.count = limit ∧ padded.state = hd.state ∧ padded.bFinal = hd.bFinal ∧
      padded.buf.take limit = hd.buf.take hd.count ++ Sha1.padBits (limit - 1 - hd.count) := by
  have hcount : (hd.push 0x80).count = hd.count + 1 := rfl
  have hzeros : limit - (hd.push 0x80).count = limit - 1 - hd.count := by omega
  obtain ⟨hsum, hstate, hfinal, htake⟩ :=
    @pushZeros_spec (hd.push 0x80) (limit - 1 - hd.count) (by omega)
  have hlimit : (hd.push 0x80).count + (limit - 1 - hd.count) = limit := by omega
  rw [hlimit, hcount, push_take 0x80 (by omega)] at htake
  rw [hzeros]
  refine ⟨by omega, hstate, hfinal, ?_⟩
  rw [htake, Sha1.padBits, List.append_assoc]
  rfl

/-- With room for the length field the padding stays in the buffer. -/
theorem padBuf_short {hd : SHA1Context} (room : hd.count < 56) :
    (padBuf hd).state = hd.state ∧
      (padBuf hd).buf.take 56 = hd.buf.take hd.count ++ Sha1.padBits (55 - hd.count) := by
  obtain ⟨-, hstate, -, htake⟩ := pushBits_spec room (by omega)
  rw [padBuf, if_pos room]
  exact ⟨hstate, htake⟩

/-- Without it the padding fills the block, and the next one is zero. -/
theorem padBuf_long {hd : SHA1Context} (unfinished : hd.bFinal = false) (ge : 56 ≤ hd.count)
    (lt : hd.count < 64) :
    (padBuf hd).state =
        Sha1.compress hd.state (hd.buf.take hd.count ++ Sha1.padBits (63 - hd.count)) ∧
      (padBuf hd).buf.take 56 = List.replicate 56 0 := by
  obtain ⟨hcount, hstate, hfinal, htake⟩ := pushBits_spec lt (Nat.le_refl 64)
  generalize hfilled : pushZeros (64 - (hd.push 0x80).count) (hd.push 0x80) = filled at *
  have hflush : hash1Flush filled = filled.nextBlock filled.buf := by
    rw [hash1Flush]
    simp only [hfinal, unfinished, Bool.false_eq_true, if_false, if_pos hcount]
  have hfull : filled.buf.take 64 = filled.buf := by
    apply List.take_of_length_le
    rw [filled.buf_length]
  rw [hfull] at htake
  have hpad : (padBuf hd).state = (hash1Flush filled).state ∧
      (padBuf hd).buf = List.replicate 56 0 ++ (hash1Flush filled).buf.drop 56 := by
    rw [padBuf, if_neg (by omega), ← hfilled]
    exact ⟨rfl, rfl⟩
  rw [hpad.1, hpad.2, hflush, nextBlock_state, hstate, htake]
  refine ⟨rfl, ?_⟩
  rw [List.take_left' List.length_replicate]

theorem state_bytes (hd : SHA1Context) :
    hd.state.bytes = storeWord hd.h0 ++ storeWord hd.h1 ++ storeWord hd.h2 ++ storeWord hd.h3 ++
      storeWord hd.h4 := rfl

/-- The digest covers the first twenty bytes of the last block and no more. -/
theorem hash1Final_cover (hd : SHA1Context) :
    let padded := padBuf (hash1Flush hd)
    let block := padded.buf.take 56 ++ (storeWord (bitCount (hash1Flush hd)).1 ++
      storeWord (bitCount (hash1Flush hd)).2)
    (hash1Final hd).buf = (Sha1.compress padded.state block).bytes ++ block.drop 20 := by
  intro padded block
  rw [← hash1Transform_state, state_bytes]
  simp only [hash1Final, block, padded, List.append_assoc]

/-- After `hash1_final` the buffer holds the digest and then what is left of the last block. -/
theorem hash1Final_buf {hd : SHA1Context} {message : Bytes} {n : Nat}
    (before : Absorbed hd message n) (room : hd.count < 64) (small : message.length < 2 ^ 38) :
    (hash1Final hd).buf = Sha1.hash message ++ (Sha1.lastBlock message).drop 20 := by
  have hwhole := before.whole
  have hcount := before.count_eq
  have hflush : hash1Flush hd = hd := by
    rcases hash1Flush_absorbed before with ⟨hfull, -, -⟩ | ⟨-, hsame⟩
    · omega
    · exact hsame
  have hlength : storeWord (bitCount hd).1 ++ storeWord (bitCount hd).2 =
      Sha1.lengthBytes (8 * message.length) := by
    apply storeWord_lengthBytes
    rw [bitCount_spec before.nblocks_eq (by omega) room, hcount, Nat.add_sub_cancel' hwhole]
  rw [hash1Final_cover, hflush, hlength]
  rcases Nat.lt_or_ge hd.count 56 with hshort | hlong
  · obtain ⟨hstate, htake⟩ := padBuf_short hshort
    obtain ⟨hhash, hlast⟩ := Sha1.hash_short hwhole (by omega)
    rw [hstate, htake, hhash, hlast, before.state_eq, before.buffered, hcount]
  · obtain ⟨hstate, htake⟩ := padBuf_long before.unfinished hlong room
    obtain ⟨hhash, hlast⟩ := @Sha1.hash_long message n (by omega) (by omega)
    rw [hstate, htake, hhash, hlast, before.state_eq, before.buffered, hcount]

/-- The hash of a message that is written in one piece. -/
theorem hash1_buf {message : Bytes} (small : message.length < 2 ^ 38) :
    (hash1Final (hash1Write hash1Reset message)).buf =
      Sha1.hash message ++ (Sha1.lastBlock message).drop 20 := by
  obtain ⟨m, habsorbed, hroom⟩ := hash1Write_absorbed message hash1Reset_absorbed
  rw [List.nil_append] at habsorbed
  exact hash1Final_buf habsorbed hroom small

/-! ### Any number of pieces -/

/-- What a call of `hash1_write` appends. -/
def pieceBytes (piece : Option Bytes) : Bytes := piece.getD []

/-- A call appends its piece, and leaves room in the buffer. -/
theorem hash1WriteCall_absorbed {hd : SHA1Context} {message : Bytes} {n : Nat} {piece : Option Bytes}
    (before : Absorbed hd message n) (room : hd.count < 64)
    (short : (pieceBytes piece).length < 2 ^ 32) :
    ∃ m, Absorbed (hash1WriteCall hd piece) (message ++ pieceBytes piece) m ∧
      (hash1WriteCall hd piece).count < 64 := by
  cases piece with
  | none =>
      rcases hash1Flush_absorbed before with ⟨hfull, -, -⟩ | ⟨-, hsame⟩
      · omega
      · rw [hash1WriteCall, hsame, pieceBytes, Option.getD_none, List.append_nil]
        exact ⟨n, before, room⟩
  | some inbuf =>
      have hwhole : inbuf.take (inbuf.length % 2 ^ 32) = inbuf := by
        apply List.take_of_length_le
        rw [Nat.mod_eq_of_lt (show inbuf.length < 2 ^ 32 from short)]
      rw [hash1WriteCall, hwhole]
      exact hash1Write_absorbed inbuf before

theorem hash1WriteCalls_absorbed {hd : SHA1Context} {message : Bytes} {n : Nat}
    {pieces : List (Option Bytes)} (before : Absorbed hd message n) (room : hd.count < 64)
    (short : ∀ piece ∈ pieces, (pieceBytes piece).length < 2 ^ 32) :
    ∃ m, Absorbed (pieces.foldl hash1WriteCall hd) (message ++ pieces.flatMap pieceBytes) m ∧
      (pieces.foldl hash1WriteCall hd).count < 64 := by
  induction pieces generalizing hd message n with
  | nil => exact ⟨n, by rw [List.flatMap_nil, List.append_nil]; exact before, room⟩
  | cons piece pieces ih =>
      rw [List.forall_mem_cons] at short
      obtain ⟨m, hpiece, hroom⟩ := hash1WriteCall_absorbed before room short.1
      obtain ⟨m', hrest, hroom'⟩ := ih hpiece hroom short.2
      rw [List.flatMap_cons, ← List.append_assoc]
      exact ⟨m', hrest, hroom'⟩

/-- **SHA-1 of a message in pieces.** However the message is cut, the digest is that of the whole
message. -/
theorem hash1_pieces {pieces : List (Option Bytes)}
    (short : ∀ piece ∈ pieces, (pieceBytes piece).length < 2 ^ 32)
    (small : (pieces.flatMap pieceBytes).length < 2 ^ 38) :
    (hash1Final (pieces.foldl hash1WriteCall hash1Reset)).buf.take 20 =
      Sha1.hash (pieces.flatMap pieceBytes) := by
  obtain ⟨m, habsorbed, hroom⟩ := hash1WriteCalls_absorbed hash1Reset_absorbed (by decide) short
  rw [List.nil_append] at habsorbed
  rw [hash1Final_buf habsorbed hroom small, List.take_left' (Sha1.length_hash _)]

/-- The message `abc` in two pieces, with a null pointer and an empty piece between them. -/
theorem hash1_pieces_two :
    (hash1Final ([some [0x61], none, some [], some [0x62, 0x63]].foldl hash1WriteCall
        hash1Reset)).buf.take 20 = Sha1.hash [0x61, 0x62, 0x63] :=
  @hash1_pieces [some [0x61], none, some [], some [0x62, 0x63]] (by decide) (by decide)

end AnotherWs
