/-
Module: AnotherWs.Proofs.RawMembuf
Purpose: The buffer over raw memory does what the typed buffer does, so it is a byte list; and which
  calls leave the allocation.
Trusted boundary: none
Main exports: Models, Models.reserve, Models.appendData, Models.remove, Valid, membuf_refines_list,
  KeepsInside, membuf_inside_iff
-/
import AnotherWs.Core.RawMembuf

namespace AnotherWs

open Blocks Machines

namespace RawMembuf

/-- The two views of one buffer. -/
structure Models (raw : RawMembuf) (buf : Membuf) : Prop where
  cells_eq : raw.block.cells = buf.data
  size_eq : raw.size = buf.size
  bufferSize_eq : raw.bufferSize = buf.bufferSize
  flag_eq : raw.flag = buf.flag

section Models

variable {raw : RawMembuf} {buf : Membuf} (fresh : Nat → UInt8)

theorem Models.content_eq (models : Models raw buf) : raw.content = buf.content := by
  rw [content, Membuf.content, models.cells_eq, models.size_eq]

theorem Models.length_cells (models : Models raw buf) : raw.block.cells.length = buf.bufferSize := by
  rw [models.cells_eq, buf.data_length]

/-- Whatever fits its allocation has a typed view. -/
theorem exists_models (cells : raw.block.cells.length = raw.bufferSize)
    (size_le : raw.size ≤ raw.bufferSize) : ∃ buf, Models raw buf :=
  ⟨⟨raw.block.cells, raw.size, raw.bufferSize, raw.flag, cells, size_le⟩, rfl, rfl, rfl, rfl⟩

theorem membufInit_models (n : UInt32) : Models (membufInit n) (AnotherWs.membufInit n.toNat) :=
  ⟨rfl, rfl, rfl, rfl⟩

/-- `membuf_clear` -/
theorem Models.clear (models : Models raw buf) (maxSize : Nat) :
    Models (raw.membufClear fresh maxSize) (AnotherWs.membufClear buf maxSize) ∧
      ((raw.membufClear fresh maxSize).block.Sound ↔ raw.block.Sound) := by
  have hlen := models.length_cells
  have hnull : raw.block.cells ≠ [] ↔ buf.bufferSize ≠ 0 := by
    rw [← hlen, ne_eq, ne_eq, List.length_eq_zero_iff]
  unfold membufClear AnotherWs.membufClear
  simp only [hnull, models.size_eq, models.bufferSize_eq]
  by_cases hused : buf.bufferSize ≠ 0 ∧ buf.size ≠ 0
  · rw [if_pos hused, if_pos hused]
    by_cases hshrink : 1 < maxSize ∧ maxSize < buf.bufferSize
    · rw [if_pos hshrink, if_pos hshrink]
      refine ⟨⟨?_, rfl, rfl, models.flag_eq⟩, ?_⟩
      · exact (Block.write_to_end (by simp)).trans (by simp)
      · simp
    · rw [if_neg hshrink, if_neg hshrink]
      refine ⟨⟨?_, rfl, rfl, models.flag_eq⟩, ?_⟩
      · exact (Block.write_to_end (by simp [hlen])).trans (by simp)
      · simp [hlen]
  · rw [if_neg hused, if_neg hused]
    exact ⟨models, Iff.rfl⟩

/-- `membuf_reserve` -/
theorem Models.reserve {buf' : Membuf} {extraSize : Nat} (models : Models raw buf)
    (word : buf.bufferSize < 2 ^ 64)
    (reserved : AnotherWs.membufReserve buf extraSize = .ok buf') :
    ∃ raw', raw.membufReserve fresh extraSize = .ok raw' ∧ Models raw' buf' ∧
      (raw'.block.Sound ↔ raw.block.Sound) := by
  have hlen := models.length_cells
  unfold membufReserve
  unfold AnotherWs.membufReserve at reserved
  rw [models.size_eq, models.bufferSize_eq, sizeSub_eq buf.size_le word]
  by_cases hgrow : buf.bufferSize - buf.size < extraSize
  · rw [if_pos hgrow] at reserved ⊢
    obtain ⟨newBufferSize, hloop, reserved⟩ := bind_eq_ok.mp reserved
    simp only [hloop, ok_bind]
    by_cases hzero : newBufferSize = 0
    · rw [if_pos hzero] at reserved
      cases reserved
    · rw [if_neg hzero] at reserved ⊢
      by_cases hfits : buf.size ≤ newBufferSize
      · rw [dif_pos hfits] at reserved
        cases reserved
        have hend : buf.size + (List.replicate (newBufferSize - buf.size) (0 : UInt8)).length =
            (raw.block.realloc fresh newBufferSize).cells.length := by
          rw [List.length_replicate, Block.length_realloc]
          omega
        rw [if_neg (by omega)]
        refine ⟨_, rfl, ⟨?_, rfl, rfl, models.flag_eq⟩, ?_⟩
        · rw [Block.write_to_end hend, Block.take_realloc hfits (by rw [hlen]; exact buf.size_le),
            models.cells_eq]
        · rw [Block.write_sound, Block.realloc_sound]
          exact and_iff_left (Or.inr (Nat.le_of_eq hend))
      · rw [dif_neg hfits] at reserved
        cases reserved
  · rw [if_neg hgrow] at reserved ⊢
    cases reserved
    exact ⟨raw, rfl, models, Iff.rfl⟩

/-- `membuf_trunc` -/
theorem Models.trunc (models : Models raw buf) :
    Models (raw.membufTrunc fresh) (AnotherWs.membufTrunc buf) ∧
      ((raw.membufTrunc fresh).block.Sound ↔ raw.block.Sound) := by
  have hlen := models.length_cells
  have hsize := buf.size_le
  unfold membufTrunc AnotherWs.membufTrunc
  rw [models.size_eq, models.bufferSize_eq]
  by_cases hother : buf.size + 4 < buf.bufferSize ∨ buf.bufferSize < buf.size + 4
  · rw [if_pos hother, if_pos hother]
    have hend : buf.size + (List.replicate 4 (0 : UInt8)).length =
        (raw.block.realloc fresh (buf.size + 4)).cells.length := by
      rw [List.length_replicate, Block.length_realloc]
    refine ⟨⟨?_, rfl, rfl, models.flag_eq⟩, ?_⟩
    · exact (Block.write_to_end hend).trans
        (by rw [Block.take_realloc (Nat.le_add_right _ _) (by rw [hlen]; exact hsize), models.cells_eq])
    · rw [Block.write_sound, Block.realloc_sound]
      exact and_iff_left (Or.inr (Nat.le_of_eq hend))
  · rw [if_neg hother, if_neg hother]
    exact ⟨models, Iff.rfl⟩

/-- `membuf_append_data` -/
theorem Models.appendData {buf' : Membuf} {bytes : Bytes} (models : Models raw buf)
    (word : buf.bufferSize < 2 ^ 64)
    (appended : AnotherWs.membufAppendData buf bytes = .ok buf') :
    ∃ raw', raw.membufAppendData fresh bytes = .ok raw' ∧ Models raw' buf' ∧
      (raw'.block.Sound ↔ raw.block.Sound) := by
  unfold membufAppendData
  unfold AnotherWs.membufAppendData at appended
  by_cases hnil : bytes = []
  · rw [if_pos hnil] at appended ⊢
    cases appended
    exact ⟨raw, rfl, models, Iff.rfl⟩
  · rw [if_neg hnil] at appended ⊢
    obtain ⟨mid, reserved, appended⟩ := bind_eq_ok.mp appended
    obtain ⟨rawMid, hraw, hmid, hsound⟩ := models.reserve fresh word reserved
    rw [hraw, ok_bind]
    by_cases hfits : mid.size + bytes.length ≤ mid.bufferSize
    · rw [dif_pos hfits] at appended
      cases appended
      have hin : rawMid.size + bytes.length ≤ rawMid.block.cells.length := by
        rw [hmid.size_eq, hmid.length_cells]
        exact hfits
      refine ⟨_, rfl, ⟨?_, ?_, hmid.bufferSize_eq, hmid.flag_eq⟩, ?_⟩
      · exact (Block.write_cells hin).trans (by rw [hmid.cells_eq, hmid.size_eq])
      · exact congrArg (fun n => n + bytes.length) hmid.size_eq
      · rw [Block.write_sound, hsound]
        exact and_iff_left (Or.inr hin)
    · rw [dif_neg hfits] at appended
      cases appended

/-- The first half of `membuf_remove`, when the end of the range does not wrap. -/
theorem Models.closeGap {offset size : Nat} (models : Models raw buf) (word : buf.bufferSize < 2 ^ 64)
    (inside : offset < buf.size) (unwrapped : offset + size < 2 ^ 64) :
    Models (raw.membufCloseGap offset size) (AnotherWs.membufCloseGap buf offset size inside) ∧
      ((raw.membufCloseGap offset size).block.Sound ↔ raw.block.Sound) := by
  have hlen := models.length_cells
  have hsize := buf.size_le
  unfold membufCloseGap AnotherWs.membufCloseGap
  simp only [Nat.mod_eq_of_lt unwrapped, models.size_eq]
  by_cases hcut : buf.size ≤ offset + size
  · rw [if_pos hcut, dif_pos hcut]
    exact ⟨⟨models.cells_eq, rfl, models.bufferSize_eq, models.flag_eq⟩, Iff.rfl⟩
  · have hcount : sizeSub (sizeSub buf.size offset) size = buf.size - offset - size := by
      rw [sizeSub_eq (Nat.le_of_lt inside) (by omega), sizeSub_eq (by omega) (by omega)]
    rw [if_neg hcut, dif_neg hcut, hcount, sizeSub_eq (by omega) (by omega)]
    refine ⟨⟨?_, rfl, models.bufferSize_eq, models.flag_eq⟩, ?_⟩
    · have hmoved : ((raw.block.cells.drop (offset + size)).take (buf.size - offset - size)).length =
          buf.size - offset - size := by
        rw [List.length_take, List.length_drop, hlen]
        omega
      refine (Block.write_cells (by rw [hmoved, hlen]; omega)).trans ?_
      rw [hmoved, models.cells_eq, show offset + (buf.size - offset - size) = buf.size - size by omega]
    · rw [Block.move_sound, hlen]
      exact and_iff_left ⟨Or.inr (by omega), Or.inr (by omega)⟩

/-- `membuf_remove`, where the typed buffer finds nothing wrong with it. -/
theorem Models.remove {buf' : Membuf} {offset size : Nat} (models : Models raw buf)
    (word : buf.bufferSize < 2 ^ 64) (unwrapped : offset + size < 2 ^ 64)
    (removed : AnotherWs.membufRemove buf offset size = .ok buf') :
    Models (raw.membufRemove offset size) buf' ∧
      ((raw.membufRemove offset size).block.Sound ↔ raw.block.Sound) := by
  unfold membufRemove
  unfold AnotherWs.membufRemove at removed
  rw [models.size_eq]
  by_cases hin : offset < buf.size
  · rw [dif_pos hin, AnotherWs.membufTerminate] at removed
    rw [if_neg (by omega)]
    obtain ⟨hgap, hsound⟩ := models.closeGap word hin unwrapped
    have hlen := hgap.length_cells
    by_cases hroom : (AnotherWs.membufCloseGap buf offset size hin).size <
        (AnotherWs.membufCloseGap buf offset size hin).bufferSize
    · rw [if_pos hroom] at removed
      cases removed
      unfold membufTerminate
      rw [hgap.size_eq, hgap.bufferSize_eq, if_pos (Nat.le_of_lt hroom)]
      have hfits : (AnotherWs.membufCloseGap buf offset size hin).size + ([0] : Bytes).length ≤
          (raw.membufCloseGap offset size).block.cells.length := by
        rw [hlen, List.length_singleton]
        exact hroom
      refine ⟨⟨?_, rfl, rfl, hgap.flag_eq⟩, ?_⟩
      · refine (Block.write_cells hfits).trans ?_
        rw [hgap.cells_eq, List.length_singleton, List.append_assoc, List.singleton_append]
        exact (List.set_eq_take_append_cons_drop.trans (if_pos (by
          rw [Membuf.data_length]
          exact hroom))).symm
      · rw [Block.write_sound, hsound]
        exact and_iff_left (Or.inr hfits)
    · rw [if_neg hroom] at removed
      cases removed
  · rw [dif_neg hin] at removed
    cases removed
    rw [if_pos (by omega)]
    exact ⟨models, Iff.rfl⟩

end Models

/-! ### What a call does

A buffer whose lengths are small enough, before and after a call that is asked for such lengths. -/

/-- The allocation is as large as the buffer says and holds the bytes in use; these are at most `2 ^
31`, and the capacity fits a word with room to spare. -/
structure Valid (raw : RawMembuf) : Prop where
  cells : raw.block.cells.length = raw.bufferSize
  size_le : raw.size ≤ raw.bufferSize
  small : raw.size ≤ 2 ^ 31
  word : raw.bufferSize < 2 ^ 33

theorem Models.valid {raw : RawMembuf} {buf : Membuf} (models : Models raw buf)
    (small : buf.size ≤ 2 ^ 31) (word : buf.bufferSize < 2 ^ 33) : Valid raw where
  cells := models.length_cells.trans models.bufferSize_eq.symm
  size_le := by
    rw [models.size_eq, models.bufferSize_eq]
    exact buf.size_le
  small := models.size_eq ▸ small
  word := models.bufferSize_eq ▸ word

theorem membufInit_valid (n : UInt32) : Valid (membufInit n) :=
  (membufInit_models n).valid (Nat.zero_le _) (Nat.lt_trans n.toNat_lt (by decide))

/-- A removal inside the bytes in use leaves room for the terminating zero. -/
def KeepsInside (raw : RawMembuf) : MembufOp → Prop
  | .remove offset size =>
      offset.toNat < raw.size →
        if offset.toNat + size.toNat < 2 ^ 64 then size = 0 → raw.size < raw.bufferSize
        else raw.size + (2 ^ 64 - size.toNat) < raw.bufferSize
  | _ => True

instance (raw : RawMembuf) : ∀ op, Decidable (raw.KeepsInside op)
  | .remove offset size => inferInstanceAs (Decidable (offset.toNat < raw.size →
      if offset.toNat + size.toNat < 2 ^ 64 then size = 0 → raw.size < raw.bufferSize
      else raw.size + (2 ^ 64 - size.toNat) < raw.bufferSize))
  | .appendData _ | .insert _ _ | .clear _ | .reserve _ | .trunc => .isTrue trivial

/-- What one call does: when it stays inside the allocation, when the buffer stays valid, and which
bytes are in use afterwards. -/
structure Performed (raw : RawMembuf) (op : MembufOp) (raw' : RawMembuf) : Prop where
  sound_iff : raw'.block.Sound ↔ raw.block.Sound ∧ raw.KeepsInside op
  valid : raw.KeepsInside op ∨ raw.EndsInWord op → raw'.Valid
  content_eq : raw.EndsInWord op → raw'.content = op.onList raw.content

section Calls

variable {raw : RawMembuf} (fresh : Nat → UInt8)

/-- Room is made without a byte in use being changed. -/
theorem membufReserve_valid {extraSize : Nat} (valid : raw.Valid)
    (small : raw.size + extraSize ≤ 2 ^ 31) :
    ∃ raw', raw.membufReserve fresh extraSize = .ok raw' ∧ raw'.Valid ∧
      raw'.content = raw.content ∧ raw'.size = raw.size ∧
      raw.size + extraSize ≤ raw'.bufferSize ∧ (raw'.block.Sound ↔ raw.block.Sound) := by
  obtain ⟨buf, hmodels⟩ := exists_models valid.cells valid.size_le
  have hword : buf.bufferSize < 2 ^ 33 := hmodels.bufferSize_eq ▸ valid.word
  rw [hmodels.size_eq] at small
  obtain ⟨buf', hreserve, hroom, -⟩ := membufReserve_ok small
  obtain ⟨hcontent, hsize, -⟩ := membufReserve_content hreserve
  obtain ⟨raw', hraw, hmodels', hsound⟩ := hmodels.reserve fresh (by omega) hreserve
  have hword' : buf'.bufferSize < 2 ^ 33 := by
    by_cases hgrow : buf.bufferSize - buf.size < extraSize
    · exact Nat.lt_trans (membufReserve_bufferSize_lt hreserve hgrow) (by decide)
    · rw [AnotherWs.membufReserve, if_neg hgrow] at hreserve
      cases hreserve
      exact hword
  have hsmall : buf'.size ≤ 2 ^ 31 := by
    rw [hsize, ← hmodels.size_eq]
    exact valid.small
  refine ⟨raw', hraw, hmodels'.valid hsmall hword', ?_, ?_, ?_, hsound⟩
  · rw [hmodels'.content_eq, hcontent, hmodels.content_eq]
  · rw [hmodels'.size_eq, hsize, hmodels.size_eq]
  · rw [hmodels.size_eq, hmodels'.bufferSize_eq]
    exact hroom

/-- Bytes go behind those in use. -/
theorem membufAppendData_valid {bytes : Bytes} (valid : raw.Valid)
    (small : raw.size + bytes.length ≤ 2 ^ 31) :
    ∃ raw', raw.membufAppendData fresh bytes = .ok raw' ∧ raw'.Valid ∧
      raw'.content = raw.content ++ bytes ∧ (raw'.block.Sound ↔ raw.block.Sound) := by
  unfold membufAppendData
  by_cases hnil : bytes = []
  · rw [if_pos hnil, hnil, List.append_nil]
    exact ⟨raw, rfl, valid, rfl, Iff.rfl⟩
  · obtain ⟨mid, hreserve, hmid, hcontent, hsize, hroom, hsound⟩ :=
      membufReserve_valid fresh valid small
    rw [if_neg hnil, hreserve, ok_bind]
    have hfits : mid.size + bytes.length ≤ mid.block.cells.length := by
      rw [hmid.cells, hsize]
      exact hroom
    refine ⟨_, rfl, ⟨?_, ?_, ?_, hmid.word⟩, ?_, ?_⟩
    · exact (Block.length_write _ _ _).trans hmid.cells
    · exact hmid.cells ▸ hfits
    · exact hsize.symm ▸ small
    · exact (Block.take_write_end hfits).trans (congrArg (· ++ bytes) hcontent)
    · rw [Block.write_sound, hsound]
      exact and_iff_left (Or.inr hfits)

/-- Bytes go in front of some of those in use, which move up. -/
theorem membufInsert_valid {offset : Nat} {bytes : Bytes} (valid : raw.Valid)
    (inside : offset < raw.size) (small : raw.size + bytes.length ≤ 2 ^ 31) :
    ∃ raw', raw.membufInsert fresh offset bytes = .ok raw' ∧ raw'.Valid ∧
      raw'.content = raw.content.take offset ++ bytes ++ raw.content.drop offset ∧
      (raw'.block.Sound ↔ raw.block.Sound) := by
  obtain ⟨mid, hreserve, hmid, hcontent, hsize, hroom, hsound⟩ :=
    membufReserve_valid fresh valid small
  rw [membufInsert, if_pos inside, hreserve, ok_bind]
  have hcells := hmid.cells
  have hsource : offset + (mid.size - offset) ≤ mid.block.cells.length := by omega
  have htarget : offset + bytes.length + (mid.size - offset) ≤ mid.block.cells.length := by omega
  have hfits : offset + bytes.length ≤
      (mid.block.move (offset + bytes.length) offset (mid.size - offset)).cells.length := by
    rw [Block.length_move]
    omega
  refine ⟨_, rfl, ⟨?_, ?_, ?_, hmid.word⟩, ?_, ?_⟩
  · exact (Block.length_write _ _ _).trans ((Block.length_move _ _ _ _).trans hcells)
  · show mid.size + bytes.length ≤ mid.bufferSize
    omega
  · show mid.size + bytes.length ≤ 2 ^ 31
    omega
  · have hend : mid.size + bytes.length = offset + bytes.length + (mid.size - offset) := by omega
    show List.take (mid.size + bytes.length) _ = _
    rw [hend, Block.take_write_more hfits, Block.take_move (Nat.le_add_right _ _),
      Block.drop_move hsource htarget, ← hcontent, content, List.take_take, List.drop_take,
      Nat.min_eq_left (by omega)]
  · rw [Block.write_sound, Block.move_sound, Block.length_move, hsound]
    constructor
    · exact fun h => h.1.1
    · exact fun h => ⟨⟨h, Or.inr hsource, Or.inr htarget⟩, Or.inr (by omega)⟩

/-- The terminating zero needs a byte behind those in use. -/
theorem membufTerminate_spec (cells : raw.block.cells.length = raw.bufferSize) :
    raw.membufTerminate.block.cells.length = raw.bufferSize ∧
      raw.membufTerminate.size = raw.size ∧ raw.membufTerminate.bufferSize = raw.bufferSize ∧
      raw.membufTerminate.content = raw.content ∧
      (raw.size ≤ raw.bufferSize →
        (raw.membufTerminate.block.Sound ↔ raw.block.Sound ∧ raw.size < raw.bufferSize)) := by
  unfold membufTerminate
  split
  · refine ⟨(Block.length_write _ _ _).trans cells, rfl, rfl, Block.take_write (Nat.le_refl _), ?_⟩
    intro _
    rw [Block.write_sound, cells, List.length_singleton]
    exact and_congr_right fun _ => ⟨fun h => by omega, fun h => Or.inr h⟩
  · rename_i hout
    exact ⟨cells, rfl, rfl, rfl, fun hle => absurd hle hout⟩

theorem membufCloseGap_size (buf : Membuf) {offset : Nat} (size : Nat) (inside : offset < buf.size) :
    (AnotherWs.membufCloseGap buf offset size inside).size =
        (if buf.size ≤ offset + size then offset else buf.size - size) ∧
      (AnotherWs.membufCloseGap buf offset size inside).bufferSize = buf.bufferSize := by
  unfold AnotherWs.membufCloseGap
  split <;> exact ⟨rfl, rfl⟩

/-- A removal whose end does not wrap: the range goes, and no byte is touched outside unless the
buffer is full and nothing is removed. -/
theorem membufRemove_valid {offset size : Nat} (valid : raw.Valid) (inside : offset < raw.size)
    (unwrapped : offset + size < 2 ^ 64) :
    (raw.membufRemove offset size).Valid ∧
      (raw.membufRemove offset size).content =
        raw.content.take offset ++ raw.content.drop (offset + size) ∧
      ((raw.membufRemove offset size).block.Sound ↔
        raw.block.Sound ∧ (size = 0 → raw.size < raw.bufferSize)) := by
  obtain ⟨buf, hmodels⟩ := exists_models valid.cells valid.size_le
  have hword : buf.bufferSize < 2 ^ 33 := hmodels.bufferSize_eq ▸ valid.word
  have hsmall := valid.small
  have hin : offset < buf.size := hmodels.size_eq ▸ inside
  obtain ⟨hgap, hgapSound⟩ := hmodels.closeGap (by omega) hin unwrapped
  have hgapCells : (raw.membufCloseGap offset size).block.cells.length =
      (raw.membufCloseGap offset size).bufferSize := by
    rw [hgap.length_cells, hgap.bufferSize_eq]
  obtain ⟨hsize, hbufferSize⟩ := membufCloseGap_size buf size hin
  have hle := (AnotherWs.membufCloseGap buf offset size hin).size_le
  have hcontent := membufCloseGap_content buf offset size hin
  rw [← hgap.size_eq] at hsize hle
  rw [← hgap.bufferSize_eq, ← hmodels.bufferSize_eq] at hbufferSize
  rw [← hgap.bufferSize_eq] at hle
  rw [← hgap.content_eq, ← hmodels.content_eq] at hcontent
  rw [← hmodels.size_eq] at hsize
  obtain ⟨htermCells, htermSize, htermBufferSize, htermContent, htermSound⟩ :=
    membufTerminate_spec hgapCells
  have hlt : (raw.membufCloseGap offset size).size ≤ raw.size ∧
      ((raw.membufCloseGap offset size).size = raw.size ↔ size = 0) := by
    rw [hsize]
    split <;> omega
  have hfull := valid.size_le
  have hword := valid.word
  rw [membufRemove, if_neg (by omega)]
  refine ⟨⟨?_, ?_, ?_, ?_⟩, ?_, ?_⟩
  · rw [htermCells, htermBufferSize]
  · rw [htermSize, htermBufferSize]
    exact hle
  · rw [htermSize]
    exact Nat.le_trans hlt.1 hsmall
  · rw [htermBufferSize, hbufferSize]
    exact hword
  · rw [htermContent, hcontent]
  · rw [htermSound hle, hgapSound, hbufferSize]
    exact and_congr_right fun _ => by omega

/-- A removal whose end wraps to a place inside: the bytes from there on move up, and the buffer
grows. -/
theorem membufRemove_wrapped {offset size : Nat} (valid : raw.Valid) (inside : offset < raw.size)
    (word : size < 2 ^ 64) (wrapped : 2 ^ 64 ≤ offset + size)
    (small : raw.size + (2 ^ 64 - size) ≤ 2 ^ 31) :
    (raw.size + (2 ^ 64 - size) < raw.bufferSize → (raw.membufRemove offset size).Valid) ∧
      ((raw.membufRemove offset size).block.Sound ↔
        raw.block.Sound ∧ raw.size + (2 ^ 64 - size) < raw.bufferSize) := by
  have hcells := valid.cells
  have hsize := valid.size_le
  have hword := valid.word
  have hsmall := valid.small
  have hstop : (offset + size) % 2 ^ 64 = offset + size - 2 ^ 64 := by
    rw [Nat.mod_eq_sub_mod wrapped, Nat.mod_eq_of_lt (by omega)]
  have hcount : sizeSub (sizeSub raw.size offset) size = raw.size - (offset + size - 2 ^ 64) := by
    rw [sizeSub_eq (Nat.le_of_lt inside) (by omega), sizeSub, Nat.mod_eq_of_lt (by omega)]
    omega
  have hnew : sizeSub raw.size size = raw.size + (2 ^ 64 - size) := by
    rw [sizeSub, Nat.mod_eq_of_lt (by omega)]
    omega
  have hgap : raw.membufCloseGap offset size =
      { raw with
        block := raw.block.move offset (offset + size - 2 ^ 64) (raw.size - (offset + size - 2 ^ 64))
        size := raw.size + (2 ^ 64 - size) } := by
    unfold membufCloseGap
    simp only [hstop, hcount, hnew]
    rw [if_neg (by omega)]
  have hgapCells : (raw.membufCloseGap offset size).block.cells.length =
      (raw.membufCloseGap offset size).bufferSize := by
    rw [hgap]
    exact (Block.length_move _ _ _ _).trans hcells
  have hgapSound : (raw.membufCloseGap offset size).block.Sound ↔
      raw.block.Sound ∧ raw.size + (2 ^ 64 - size) ≤ raw.bufferSize := by
    rw [hgap, Block.move_sound, hcells]
    exact and_congr_right fun _ => by omega
  obtain ⟨htermCells, htermSize, htermBufferSize, -, htermSound⟩ := membufTerminate_spec hgapCells
  have hgapSize : (raw.membufCloseGap offset size).size = raw.size + (2 ^ 64 - size) := by rw [hgap]
  have hgapBufferSize : (raw.membufCloseGap offset size).bufferSize = raw.bufferSize := by rw [hgap]
  rw [hgapSize, hgapBufferSize] at htermSound
  rw [membufRemove, if_neg (by omega)]
  constructor
  · intro room
    refine ⟨by rw [htermCells, htermBufferSize], ?_, ?_, ?_⟩
    · rw [htermSize, htermBufferSize, hgapSize, hgapBufferSize]
      exact Nat.le_of_lt room
    · rw [htermSize, hgapSize]
      exact small
    · rw [htermBufferSize, hgapBufferSize]
      exact hword
  · by_cases hfits : raw.size + (2 ^ 64 - size) ≤ raw.bufferSize
    · rw [htermSound hfits, hgapSound]
      exact ⟨fun h => ⟨h.1.1, h.2⟩, fun h => ⟨⟨h.1, hfits⟩, h.2⟩⟩
    · have hsame : (raw.membufCloseGap offset size).membufTerminate =
          raw.membufCloseGap offset size := by
        rw [membufTerminate, if_neg (by rw [hgapSize, hgapBufferSize]; exact hfits)]
      rw [hsame, hgapSound]
      exact and_congr_right fun _ => by omega

/-- **One call.** On a valid buffer every admitted call comes to an end. -/
theorem perform_ok {op : MembufOp} (valid : raw.Valid) (admitted : raw.Admitted op) :
    ∃ raw', op.perform fresh raw = .ok raw' ∧ Performed raw op raw' := by
  cases op with
  | appendData bytes =>
      obtain ⟨raw', hok, hvalid, hcontent, hsound⟩ := membufAppendData_valid fresh valid admitted
      exact ⟨raw', hok, hsound.trans (and_iff_left trivial).symm, fun _ => hvalid, fun _ => hcontent⟩
  | insert offset bytes =>
      obtain ⟨raw', hok, hvalid, hcontent, hsound⟩ :=
        membufInsert_valid fresh valid admitted.1 admitted.2
      exact ⟨raw', hok, hsound.trans (and_iff_left trivial).symm, fun _ => hvalid, fun _ => hcontent⟩
  | remove offset size =>
      refine ⟨_, rfl, ?_⟩
      have hword := size.toNat_lt
      rcases Nat.lt_or_ge offset.toNat raw.size with hin | hout
      · by_cases hend : offset.toNat + size.toNat < 2 ^ 64
        · obtain ⟨hvalid, hcontent, hsound⟩ := membufRemove_valid valid hin hend
          have hzero : size.toNat = 0 ↔ size = 0 := UInt64.toNat_inj (b := 0)
          refine ⟨hsound.trans (and_congr_right fun _ => ?_), fun _ => hvalid, fun _ => hcontent⟩
          simp only [KeepsInside, hin, hend, if_true, true_implies, hzero]
        · have hsmall : raw.size + (2 ^ 64 - size.toNat) ≤ 2 ^ 31 :=
            (admitted.resolve_left (by omega)).resolve_left hend
          obtain ⟨hvalid, hsound⟩ := membufRemove_wrapped valid hin hword (by omega) hsmall
          have hkeeps : raw.KeepsInside (.remove offset size) ↔
              raw.size + (2 ^ 64 - size.toNat) < raw.bufferSize := by
            simp only [KeepsInside, hin, hend, if_false, true_implies]
          have hends : ¬ raw.EndsInWord (.remove offset size) := by
            simp only [EndsInWord]
            omega
          exact ⟨hsound.trans (and_congr_right fun _ => hkeeps.symm),
            fun h => hvalid (hkeeps.mp (h.resolve_right hends)), fun h => absurd h hends⟩
      · have hsame : raw.membufRemove offset.toNat size.toNat = raw := if_pos hout
        rw [hsame]
        refine ⟨(and_iff_left fun h => absurd h (by omega)).symm, fun _ => valid, fun _ => ?_⟩
        have hlen : raw.content.length ≤ raw.size := List.length_take_le _ _
        show raw.content =
          raw.content.take offset.toNat ++ raw.content.drop (offset.toNat + size.toNat)
        rw [List.take_of_length_le (by omega), List.drop_eq_nil_of_le (by omega), List.append_nil]
  | clear maxSize =>
      obtain ⟨buf, hmodels⟩ := exists_models valid.cells valid.size_le
      obtain ⟨hclear, hsound⟩ := hmodels.clear fresh maxSize.toNat
      have hbufferSize : (AnotherWs.membufClear buf maxSize.toNat).bufferSize ≤ raw.bufferSize := by
        rw [hmodels.bufferSize_eq]
        unfold AnotherWs.membufClear
        split
        · split
          · rename_i hshrink
            exact Nat.le_of_lt hshrink.2
          · exact Nat.le_refl _
        · exact Nat.le_refl _
      have hcontent := membufClear_content buf maxSize.toNat
      have hempty : (AnotherWs.membufClear buf maxSize.toNat).size = 0 := by
        rw [← Membuf.length_content, hcontent, List.length_nil]
      have hword := valid.word
      refine ⟨_, rfl, hsound.trans (and_iff_left trivial).symm, fun _ => ?_, fun _ => ?_⟩
      · exact hclear.valid (by omega) (by omega)
      · rw [hclear.content_eq, hcontent]
        rfl
  | reserve extraSize =>
      obtain ⟨raw', hok, hvalid, hcontent, -, -, hsound⟩ :=
        membufReserve_valid fresh valid admitted
      exact ⟨raw', hok, hsound.trans (and_iff_left trivial).symm, fun _ => hvalid, fun _ => hcontent⟩
  | trunc =>
      obtain ⟨buf, hmodels⟩ := exists_models valid.cells valid.size_le
      obtain ⟨htrunc, hsound⟩ := hmodels.trunc fresh
      obtain ⟨hcontent, hsize, hbufferSize⟩ := membufTrunc_content buf
      have hsmall := valid.small
      rw [hmodels.size_eq] at hsmall
      refine ⟨_, rfl, hsound.trans (and_iff_left trivial).symm, fun _ => ?_, fun _ => ?_⟩
      · exact htrunc.valid (by omega) (by omega)
      · rw [htrunc.content_eq, hcontent, ← hmodels.content_eq]
        rfl

variable {fresh}

/-- An access outside stays on the record, whatever is called. -/
theorem sound_of_perform {op : MembufOp} {raw' : RawMembuf}
    (performed : op.perform fresh raw = .ok raw') (sound : raw'.block.Sound) : raw.block.Sound := by
  have hreserve : ∀ {extraSize : Nat} {mid : RawMembuf},
      raw.membufReserve fresh extraSize = .ok mid → mid.block.Sound → raw.block.Sound := by
    intro extraSize mid reserved hmid
    unfold membufReserve at reserved
    split at reserved
    · obtain ⟨newBufferSize, -, reserved⟩ := bind_eq_ok.mp reserved
      split at reserved
      · cases reserved
      · split at reserved
        · cases reserved
        · cases reserved
          exact ((Block.write_sound _ _ _).mp hmid).1
    · cases reserved
      exact hmid
  cases op with
  | appendData bytes =>
      simp only [MembufOp.perform, membufAppendData] at performed
      split at performed
      · cases performed
        exact sound
      · obtain ⟨mid, reserved, appended⟩ := bind_eq_ok.mp performed
        cases appended
        exact hreserve reserved ((Block.write_sound _ _ _).mp sound).1
  | insert offset bytes =>
      simp only [MembufOp.perform, membufInsert] at performed
      split at performed
      · obtain ⟨mid, reserved, inserted⟩ := bind_eq_ok.mp performed
        cases inserted
        exact hreserve reserved ((Block.move_sound _ _ _ _).mp ((Block.write_sound _ _ _).mp sound).1).1
      · cases performed
  | remove offset size =>
      cases performed
      revert sound
      simp only [membufRemove, membufTerminate, membufCloseGap]
      split
      · exact id
      · split <;> split <;> intro sound
        · exact ((Block.write_sound _ _ _).mp sound).1
        · exact sound
        · exact ((Block.move_sound _ _ _ _).mp ((Block.write_sound _ _ _).mp sound).1).1
        · exact ((Block.move_sound _ _ _ _).mp sound).1
  | clear maxSize =>
      cases performed
      revert sound
      simp only [membufClear]
      split
      · split <;> exact fun sound => ((Block.write_sound _ _ _).mp sound).1
      · exact id
  | reserve extraSize => exact hreserve performed sound
  | trunc =>
      cases performed
      revert sound
      simp only [membufTrunc]
      split
      · exact fun sound => ((Block.write_sound _ _ _).mp sound).1
      · exact id

end Calls

/-! ### Runs -/

section Runs

variable {fresh : Nat → UInt8}

theorem step_eq_some {raw raw' : RawMembuf} {op : MembufOp} :
    (membufMachine fresh).step raw op = some raw' ↔ op.perform fresh raw = .ok raw' := by
  show (op.perform fresh raw).toOption = some raw' ↔ _
  cases op.perform fresh raw with
  | error fault => simp [Except.toOption]
  | ok value => simp [Except.toOption]

/-- Calls whose ends do not wrap change the bytes in use as they change a list. -/
theorem exec_refines {raw : RawMembuf} {ops : List MembufOp} (valid : raw.Valid)
    (admitted : (membufMachine fresh).Guarded (fun raw op => raw.Admitted op ∧ raw.EndsInWord op)
      raw ops) :
    ∃ raw', (membufMachine fresh).exec raw ops = some raw' ∧ raw'.Valid ∧
      raw'.content = ops.foldl MembufOp.onList raw.content := by
  induction ops generalizing raw with
  | nil => exact ⟨raw, rfl, valid, rfl⟩
  | cons op rest ih =>
      obtain ⟨⟨hadmitted, hends⟩, hrest⟩ := admitted
      obtain ⟨mid, hok, hperformed⟩ := perform_ok fresh valid hadmitted
      have hstep := step_eq_some.mpr hok
      obtain ⟨raw', hexec, hvalid, hcontent⟩ := ih (hperformed.valid (Or.inr hends)) (hrest mid hstep)
      refine ⟨raw', Machine.exec_cons.mpr ⟨mid, hstep, hexec⟩, hvalid, ?_⟩
      rw [hcontent, hperformed.content_eq hends, List.foldl_cons]

theorem sound_of_exec {raw raw' : RawMembuf} {ops : List MembufOp}
    (run : (membufMachine fresh).exec raw ops = some raw') (sound : raw'.block.Sound) :
    raw.block.Sound := by
  induction ops generalizing raw with
  | nil =>
      cases run
      exact sound
  | cons op rest ih =>
      obtain ⟨mid, hstep, hrest⟩ := Machine.exec_cons.mp run
      exact sound_of_perform (step_eq_some.mp hstep) (ih hrest)

/-- A run touches nothing outside exactly when each of its calls keeps inside. -/
theorem exec_sound_iff {raw : RawMembuf} {ops : List MembufOp} (valid : raw.Valid)
    (admitted : (membufMachine fresh).Guarded Admitted raw ops) :
    (∃ raw', (membufMachine fresh).exec raw ops = some raw' ∧ raw'.block.Sound) ↔
      raw.block.Sound ∧ (membufMachine fresh).Guarded KeepsInside raw ops := by
  induction ops generalizing raw with
  | nil =>
      constructor
      · rintro ⟨raw', hexec, hsound⟩
        cases hexec
        exact ⟨hsound, trivial⟩
      · exact fun h => ⟨raw, rfl, h.1⟩
  | cons op rest ih =>
      obtain ⟨hadmitted, hrest⟩ := admitted
      obtain ⟨mid, hok, hperformed⟩ := perform_ok fresh valid hadmitted
      have hstep := step_eq_some.mpr hok
      rw [Machine.Guarded.cons_iff hstep]
      by_cases hkeeps : raw.KeepsInside op
      · have hmid := ih (hperformed.valid (Or.inl hkeeps)) (hrest mid hstep)
        rw [hperformed.sound_iff] at hmid
        constructor
        · rintro ⟨raw', hexec, hsound⟩
          obtain ⟨next, hnext, htail⟩ := Machine.exec_cons.mp hexec
          rw [hstep, Option.some.injEq] at hnext
          obtain ⟨⟨hraw, -⟩, hguarded⟩ := hmid.mp ⟨raw', hnext ▸ htail, hsound⟩
          exact ⟨hraw, hkeeps, hguarded⟩
        · rintro ⟨hraw, -, hguarded⟩
          obtain ⟨raw', hexec, hsound⟩ := hmid.mpr ⟨⟨hraw, hkeeps⟩, hguarded⟩
          exact ⟨raw', Machine.exec_cons.mpr ⟨mid, hstep, hexec⟩, hsound⟩
      · refine iff_of_false ?_ fun h => hkeeps h.2.1
        rintro ⟨raw', hexec, hsound⟩
        obtain ⟨next, hnext, htail⟩ := Machine.exec_cons.mp hexec
        rw [hstep, Option.some.injEq] at hnext
        exact hkeeps (hperformed.sound_iff.mp (hnext ▸ sound_of_exec htail hsound)).2

end Runs

end RawMembuf

open RawMembuf

/-- **A buffer is a byte list.** After any calls the bytes in use are what the same calls make of
the empty list, and they fit the buffer. -/
theorem membuf_refines_list (fresh : Nat → UInt8) (capacity : UInt32) {ops : List MembufOp}
    (admitted : (membufMachine fresh).Guarded (fun raw op => raw.Admitted op ∧ raw.EndsInWord op)
      (RawMembuf.membufInit capacity) ops) :
    ∃ raw, (membufMachine fresh).exec (RawMembuf.membufInit capacity) ops = some raw ∧
      raw.content = ops.foldl MembufOp.onList [] ∧ raw.size = (ops.foldl MembufOp.onList []).length ∧
      raw.size ≤ raw.bufferSize := by
  have hvalid := membufInit_valid capacity
  obtain ⟨raw, hexec, hraw, hcontent⟩ := exec_refines hvalid admitted
  have hempty : (RawMembuf.membufInit capacity).content = [] := List.take_zero
  rw [hempty] at hcontent
  refine ⟨raw, hexec, hcontent, ?_, hraw.size_le⟩
  rw [← hcontent, RawMembuf.content, List.length_take, hraw.cells]
  exact (Nat.min_eq_left hraw.size_le).symm

/-- Calls of every kind. -/
def mixedCalls : List MembufOp :=
  [.appendData [1, 2, 3], .insert 1 [9], .remove 0 2, .reserve 5, .trunc, .remove 1 0, .clear 2]

theorem membuf_refines_list_mixed :
    (membufMachine fun _ => 0xff).Guarded (fun raw op => raw.Admitted op ∧ raw.EndsInWord op)
      (RawMembuf.membufInit 1) mixedCalls ∧
    ∃ raw, (membufMachine fun _ => 0xff).exec (RawMembuf.membufInit 1) mixedCalls = some raw ∧
      raw.content = mixedCalls.foldl MembufOp.onList [] ∧
      raw.size = (mixedCalls.foldl MembufOp.onList []).length ∧ raw.size ≤ raw.bufferSize :=
  ⟨by decide +kernel, membuf_refines_list _ 1 (by decide +kernel)⟩

/-- **Bounds.** No call of a run touches a byte outside the allocation exactly when every removal inside
the bytes in use finds room for its terminating zero. -/
theorem membuf_inside_iff (fresh : Nat → UInt8) (capacity : UInt32) {ops : List MembufOp}
    (admitted : (membufMachine fresh).Guarded Admitted (RawMembuf.membufInit capacity) ops) :
    (∃ raw, (membufMachine fresh).exec (RawMembuf.membufInit capacity) ops = some raw ∧
      ∀ a ∈ raw.block.log, a.InBounds) ↔
      (membufMachine fresh).Guarded KeepsInside (RawMembuf.membufInit capacity) ops := by
  have hempty : (RawMembuf.membufInit capacity).block.Sound := fun a ha => absurd ha List.not_mem_nil
  exact (exec_sound_iff (membufInit_valid capacity) admitted).trans (and_iff_right hempty)

theorem membuf_inside_iff_mixed :
    (membufMachine fun _ => 0xff).Guarded Admitted (RawMembuf.membufInit 1) mixedCalls ∧
    ((∃ raw, (membufMachine fun _ => 0xff).exec (RawMembuf.membufInit 1) mixedCalls = some raw ∧
      ∀ a ∈ raw.block.log, a.InBounds) ↔
      (membufMachine fun _ => 0xff).Guarded KeepsInside (RawMembuf.membufInit 1) mixedCalls) :=
  ⟨by decide +kernel, membuf_inside_iff _ 1 (by decide +kernel)⟩

/-- One byte in a buffer of one byte, and a removal of nothing: the zero goes behind the allocation. -/
theorem membufRemove_overruns :
    (membufMachine fun _ => 0xff).Guarded Admitted (RawMembuf.membufInit 1)
      [.appendData [0x41], .remove 0 0] ∧
    ∃ raw, (membufMachine fun _ => 0xff).exec (RawMembuf.membufInit 1)
        [.appendData [0x41], .remove 0 0] = some raw ∧
      ⟨1, 1, 1⟩ ∈ raw.block.log ∧ ¬ ∀ a ∈ raw.block.log, a.InBounds := by
  refine ⟨by decide +kernel,
    ⟨⟨[0x41], [⟨0, 1, 1⟩, ⟨0, 1, 1⟩, ⟨0, 1, 1⟩, ⟨1, 1, 1⟩]⟩, 1, 1, 0⟩, ?_, ?_, ?_⟩
  · decide +kernel
  · decide
  · intro h
    have hlast := h ⟨1, 1, 1⟩ (by decide) 1 (Nat.le_refl _) (by decide)
    exact absurd hlast (by decide)

end AnotherWs
