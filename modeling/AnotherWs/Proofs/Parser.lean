/-
Module: AnotherWs.Proofs.Parser
Purpose: try_parse_protocol follows the frame grammar: on buffered bytes followed by fresh ones it gives
  the verdict of the scanner on their concatenation, and leaves the fields that the concatenation
  determines.
Trusted boundary: none
Main exports: WebsocketHandle.pending, WebsocketHandle.base, tryParseProtocol_more,
  tryParseProtocol_unit, tryParseProtocol_bad, tryParseProtocol_error
-/
import AnotherWs.Spec.FrameGrammar
import AnotherWs.Proofs.Reader

namespace AnotherWs

open Framing

/-! ### Bits of the two header bytes -/

theorem topBit_eq (b : UInt8) : (b >>> 7 != 0) = decide (128 ≤ b.toNat) := by
  rw [Bool.eq_iff_iff]
  simp [bne_iff_ne, ← UInt8.toNat_inj, UInt8.toNat_shiftRight, Nat.shiftRight_eq_div_pow]

theorem lowBits_eq (b : UInt8) : (b &&& 0x7f).toNat = b.toNat % 128 := by
  rw [UInt8.toNat_and]
  exact Nat.and_two_pow_sub_one_eq_mod b.toNat 7

theorem opcode_eq (b : UInt8) : BitVec.ofNat 4 (b &&& 0xF).toNat = BitVec.ofNat 4 b.toNat := by
  have hlow : (b &&& 0xF).toNat = b.toNat % 16 := by
    rw [UInt8.toNat_and]
    exact Nat.and_two_pow_sub_one_eq_mod b.toNat 4
  rw [hlow]
  apply BitVec.eq_of_toNat_eq
  simp

/-- The three low bits of `temp & 0x70` are zero, so the reserved bits are never recorded. -/
theorem dfExt_eq (b : UInt8) : BitVec.ofNat 3 (b &&& 0x70).toNat = 0 := by
  apply BitVec.eq_of_toNat_eq
  rw [UInt8.toNat_and, BitVec.toNat_ofNat, ← Nat.and_two_pow_sub_one_eq_mod, Nat.and_assoc]
  simp

/-! ### Slices of the stream -/

/-- A one-byte read stores the byte under the cursor. -/
theorem stored_byte (w : Bytes) (k : Nat) : ((w.drop k).take 1).getD 0 0 = byteAt w k := by
  simp [byteAt, List.getD_eq_getElem?_getD]

theorem stored_two (w : Bytes) (k : Nat) :
    readTwoByteLength ((w.drop k).take 2) = twoBytesAt w k := by
  simp [readTwoByteLength, twoBytesAt, byteAt, List.getD_eq_getElem?_getD]

theorem stored_four (w : Bytes) (k : Nat) :
    readFourByteLength ((w.drop k).take 4) = fourBytesAt w k := by
  simp [readFourByteLength, fourBytesAt, byteAt, List.getD_eq_getElem?_getD]

/-- Four stored bytes are zero exactly when the number they spell is. -/
theorem stored_zero {w : Bytes} {k : Nat} (h : k + 4 ≤ w.length) :
    (w.drop k).take 4 = [0, 0, 0, 0] ↔ fourBytesAt w k = 0 := by
  have hlen : ((w.drop k).take 4).length = 4 := by
    rw [List.length_take, List.length_drop]
    omega
  have hnumber := stored_four w k
  revert hlen hnumber
  generalize (w.drop k).take 4 = stored
  intro hlen hnumber
  rw [← hnumber]
  obtain ⟨a, b, c, e, rfl⟩ : ∃ a b c e, stored = [a, b, c, e] := by
    rcases stored with _ | ⟨a, _ | ⟨b, _ | ⟨c, _ | ⟨e, _ | ⟨f, rest⟩⟩⟩⟩⟩
    all_goals simp at hlen ⊢
  simp only [readFourByteLength, List.getD_cons_zero, List.getD_cons_succ, List.cons.injEq,
    and_true, ← UInt8.toNat_inj, UInt8.toNat_zero]
  omega

/-- The key bytes that have arrived replace the front of the old mask. -/
theorem storeMask_eq (header : FrameHeader) (w : Bytes) (k : Nat) :
    (header.storeMask ((w.drop k).take 4)).mask =
      fun i : Fin 4 => if k + i < w.length then byteAt w (k + i) else header.mask i := by
  funext i
  have hi := i.isLt
  simp only [FrameHeader.storeMask, byteAt, List.getD_eq_getElem?_getD, List.getElem?_take,
    if_pos hi, List.getElem?_drop]
  split
  · rename_i hin
    rw [List.getElem?_eq_getElem hin]
    rfl
  · rename_i hout
    rw [List.getElem?_eq_none (by omega)]
    rfl

/-! ### Stages of the parser

Throughout, `w` is the stream `p ++ d` of buffered and fresh bytes, and `base` are the header fields
at the start of the frame. -/

section Stages

variable (hd : WebsocketHandle) {cursor : ReadCursor} {p d : Bytes} {base : FrameHeader}

/-- The header after the first two bytes. -/
def twoByteHeader (base : FrameHeader) (w : Bytes) : FrameHeader :=
  (base.setFirstByte (byteAt w 0)).setSecondByte (byteAt w 1)

@[simp] theorem twoByteHeader_hasMask (w : Bytes) :
    (twoByteHeader base w).hasMask = keyed w := topBit_eq _

theorem twoByteHeader_payloadLen (w : Bytes) :
    (twoByteHeader base w).payloadLen.toNat = lengthField w := by
  have hlt := lengthField_lt w
  show (BitVec.ofNat 7 (byteAt w 1 &&& 0x7f).toNat).toNat = lengthField w
  rw [lowBits_eq, BitVec.toNat_ofNat, Nat.mod_mod]
  rfl

/-- The header fields once two bytes have arrived. -/
theorem applyHeader_two {w : Bytes} (hlen : 2 ≤ w.length) :
    applyHeader base w =
      { twoByteHeader base w with
        mask := (applyHeader base w).mask
        realPayloadLen := (applyHeader base w).realPayloadLen } := by
  simp only [applyHeader, twoByteHeader, FrameHeader.setFirstByte, FrameHeader.setSecondByte,
    topBit_eq, dfExt_eq, opcode_eq, lowBits_eq, if_pos (show 1 ≤ w.length by omega), if_pos hlen]
  rfl

/-- Before the length is settled, two bytes are all that shows. -/
theorem applyHeader_of_open {w : Bytes} (hlen : 2 ≤ w.length)
    (hopen : Malformed w ∨ w.length < keyStart w) :
    applyHeader base w = twoByteHeader base w := by
  have hmask : (applyHeader base w).mask = base.mask := by
    funext i
    refine if_neg ?_
    rintro ⟨-, -, -, hgood, hin⟩
    rcases hopen with hbad | hshort
    · exact hgood hbad
    · omega
  have hreal : (applyHeader base w).realPayloadLen = base.realPayloadLen := by
    refine if_neg ?_
    rintro ⟨-, hgood, hin⟩
    rcases hopen with hbad | hshort
    · exact hgood hbad
    · omega
  rw [applyHeader_two hlen, hmask, hreal]
  rfl

/-- Once the length is settled, only the key is missing from the final header. -/
theorem applyHeader_of_length {w : Bytes} (hlen : keyStart w ≤ w.length) (good : ¬ Malformed w) :
    applyHeader base w =
      { (twoByteHeader base w).setLength (payloadSize w) with
        mask := (applyHeader base w).mask } := by
  have htwo := two_le_keyStart w
  have hreal : (applyHeader base w).realPayloadLen = payloadSize w :=
    if_pos ⟨by omega, good, hlen⟩
  conv => lhs; rw [applyHeader_two (by omega), hreal]
  rfl

/-- The header has been read, or all that there is of it: what a parse step answers then, and where its
cursor stands. -/
def HeaderRead (hd : WebsocketHandle) (base : FrameHeader) (p d : Bytes) (cursor : ReadCursor)
    (result : Except Fault ParseStep) : Prop :=
  ∃ cursor',
    result = .ok (if headerLen (p ++ d) ≤ p.length + d.length then
        .next (hd.setHeader (applyHeader base (p ++ d))) cursor' (headerLen (p ++ d))
      else .done false ((hd.setHeader (applyHeader base (p ++ d))).sync cursor')) ∧
    CursorAt cursor' p d (min (headerLen (p ++ d)) (p.length + d.length)) ∧
    cursor'.buf.flag = cursor.buf.flag ∧ (cursor.buf.Doubled → cursor'.buf.Doubled)

/-- What was read in front of it does not show. -/
theorem HeaderRead.after {hd : WebsocketHandle} {base : FrameHeader} {p d : Bytes}
    {cursor cursor₁ : ReadCursor} {result : Except Fault ParseStep}
    (h : HeaderRead hd base p d cursor₁ result) (flag : cursor₁.buf.flag = cursor.buf.flag)
    (doubled : cursor.buf.Doubled → cursor₁.buf.Doubled) : HeaderRead hd base p d cursor result := by
  obtain ⟨cursor', hresult, hat, hflag, hdoubled⟩ := h
  exact ⟨cursor', hresult, hat, hflag.trans flag, hdoubled ∘ doubled⟩

/-- "read mask" stores the key bytes at hand and goes on when the header is complete. -/
theorem readMask_ok (at_ : CursorAt cursor p d (keyStart (p ++ d)))
    (small : p.length ≤ 2 ^ 31) (hfield : lengthField (p ++ d) ≠ 0) (good : ¬ Malformed (p ++ d))
    (hbase : hd.toFrameHeader =
      (twoByteHeader base (p ++ d)).setLength (payloadSize (p ++ d))) :
    HeaderRead hd base p d cursor (readMask hd cursor d (keyStart (p ++ d))) := by
  have hlen : (p ++ d).length = p.length + d.length := List.length_append
  have hstart : keyStart (p ++ d) ≤ (p ++ d).length := by
    rw [hlen]
    exact at_.le
  have hhead := headerLen_le (p ++ d)
  have hkeyed : hd.hasMask = keyed (p ++ d) := by
    rw [hbase]
    exact topBit_eq _
  have hmask : hd.mask = base.mask := by
    rw [hbase]
    rfl
  have hfinal := @applyHeader_of_length base _ hstart good
  rw [← hbase] at hfinal
  unfold readMask
  rw [hkeyed]
  cases hkey : keyed (p ++ d) with
  | false =>
      have hheader : headerLen (p ++ d) = keyStart (p ++ d) := by simp [headerLen, hkey]
      have hsame : (applyHeader base (p ++ d)).mask = hd.mask := by
        rw [hmask]
        funext i
        simp [applyHeader, hkey]
      rw [hsame] at hfinal
      refine ⟨cursor, ?_, ?_, rfl, id⟩
      · rw [if_neg Bool.false_ne_true, hheader, if_pos (by omega), hfinal]
        rfl
      · rw [hheader, Nat.min_eq_left (by omega)]
        exact at_
  | true =>
      have hheader : headerLen (p ++ d) = keyStart (p ++ d) + 4 := by simp [headerLen, hkey]
      have hnew : hd.storeMask (((p ++ d).drop (keyStart (p ++ d))).take 4) =
          applyHeader base (p ++ d) := by
        have htwo := two_le_keyStart (p ++ d)
        rw [hfinal]
        have hstored := storeMask_eq hd.toFrameHeader (p ++ d) (keyStart (p ++ d))
        have hmasks : (hd.storeMask (((p ++ d).drop (keyStart (p ++ d))).take 4)).mask =
            (applyHeader base (p ++ d)).mask := by
          rw [hstored, hmask]
          funext i
          simp only [applyHeader, hkey, true_and]
          by_cases hin : keyStart (p ++ d) + i < (p ++ d).length
          · rw [if_pos hin, if_pos ⟨by omega, hfield, good, hin⟩]
          · rw [if_neg hin, if_neg (fun h => hin h.2.2.2)]
        rw [← hmasks]
        rfl
      obtain ⟨cursor', hread, hat, hflag, hdoubled⟩ :=
        readCharFromBufOrData_ok (n := 4) at_ (by omega)
      refine ⟨cursor', ?_, by rwa [hheader], hflag, hdoubled⟩
      rw [if_pos rfl, hread, ok_bind, hnew, hheader]
      by_cases hin : keyStart (p ++ d) + 4 ≤ p.length + d.length
      · simp [hin]
      · simp [hin]

/-- Running out of bytes before the length is settled, or finding it malformed, leaves the fields of
the first two bytes. -/
theorem setHeader_of_open {w : Bytes} (hlen : 2 ≤ w.length)
    (hbase : hd.toFrameHeader = twoByteHeader base w)
    (hopen : Malformed w ∨ w.length < keyStart w) : hd.setHeader (applyHeader base w) = hd := by
  rw [applyHeader_of_open hlen hopen, ← hbase]
  rfl

/-- A malformed length stops the parser after the upper half. -/
theorem parseLength_bad (at_ : CursorAt cursor p d 2) (small : p.length ≤ 2 ^ 31)
    (bad : Malformed (p ++ d)) (hbase : hd.toFrameHeader = twoByteHeader base (p ++ d)) :
    ∃ cursor',
      parseLength hd cursor d =
        .ok (.done false
          (((hd.setHeader (applyHeader base (p ++ d))).setState .failed).sync cursor')) ∧
      CursorAt cursor' p d 6 ∧ cursor'.buf.flag = cursor.buf.flag ∧
      (cursor.buf.Doubled → cursor'.buf.Doubled) := by
  have hlen : (p ++ d).length = p.length + d.length := List.length_append
  have hpayload : hd.payloadLen.toNat = 127 := by
    rw [hbase, twoByteHeader_payloadLen, bad.1]
  have hsix := bad.2.1
  obtain ⟨cursor', hread, hat, hflag, hdoubled⟩ :=
    readCharFromBufOrData_ok (n := 4) at_ (by omega)
  rw [Nat.min_eq_left (by omega)] at hat
  refine ⟨cursor', ?_, hat, hflag, hdoubled⟩
  have hin : 2 + 4 ≤ p.length + d.length := by omega
  have hne : ¬ ((p ++ d).drop 2).take 4 = [0, 0, 0, 0] := fun h =>
    bad.2.2 ((stored_zero (by omega)).mp h)
  rw [setHeader_of_open hd (by omega) hbase (Or.inl bad)]
  unfold parseLength
  rw [hpayload, if_neg (by omega), if_neg (by omega), if_pos rfl, hread, ok_bind]
  simp only [decide_eq_true hin, if_true, if_neg hne]

/-- An extended length that is cut short. -/
theorem HeaderRead.of_short {n : Nat} (htwo : 2 ≤ (p ++ d).length)
    (hbase : hd.toFrameHeader = twoByteHeader base (p ++ d)) (out : ¬ n ≤ p.length + d.length)
    (hn : n ≤ keyStart (p ++ d)) (hat : CursorAt cursor p d (min n (p.length + d.length))) :
    HeaderRead hd base p d cursor (.ok (.done false (hd.sync cursor))) := by
  have hlen : (p ++ d).length = p.length + d.length := List.length_append
  have hstart := keyStart_le_headerLen (p ++ d)
  refine ⟨cursor, ?_, ?_, rfl, id⟩
  · rw [setHeader_of_open hd htwo hbase (Or.inr (by omega)), if_neg (by omega)]
  · rw [Nat.min_eq_right (by omega)] at hat ⊢
    exact hat

/-- The length stage settles the header or runs out of bytes. -/
theorem parseLength_good (at_ : CursorAt cursor p d 2) (small : p.length ≤ 2 ^ 31)
    (hfield : lengthField (p ++ d) ≠ 0) (good : ¬ Malformed (p ++ d))
    (hbase : hd.toFrameHeader = twoByteHeader base (p ++ d)) :
    HeaderRead hd base p d cursor (parseLength hd cursor d) := by
  have hlen : (p ++ d).length = p.length + d.length := List.length_append
  have htwo : 2 ≤ (p ++ d).length := by
    rw [hlen]
    exact at_.le
  have hpayload : hd.payloadLen.toNat = lengthField (p ++ d) := by
    rw [hbase]
    exact twoByteHeader_payloadLen _
  have hlt := lengthField_lt (p ++ d)
  have hmask : ∀ {cursor₁ : ReadCursor}, CursorAt cursor₁ p d (keyStart (p ++ d)) →
      HeaderRead hd base p d cursor₁
        (readMask (hd.setHeader (hd.setLength (payloadSize (p ++ d)))) cursor₁ d
          (keyStart (p ++ d))) :=
    fun hat => readMask_ok _ hat small hfield good (by rw [← hbase]; rfl)
  unfold parseLength
  rw [hpayload]
  by_cases hsmall : lengthField (p ++ d) < 126
  · have hkey : keyStart (p ++ d) = 2 := by simp [keyStart, lengthSize, hsmall]
    have hsize : payloadSize (p ++ d) = lengthField (p ++ d) := by simp [payloadSize, hsmall]
    have hne : ¬ (hd.setHeader (hd.setLength (payloadSize (p ++ d)))).realPayloadLen = 0 := by
      show ¬ payloadSize (p ++ d) = 0
      omega
    rw [if_pos hsmall, ← hsize, if_neg hne, ← hkey]
    exact hmask (by rwa [hkey])
  · rw [if_neg hsmall]
    by_cases hword : lengthField (p ++ d) = 126
    · have hkey : keyStart (p ++ d) = 4 := by simp [keyStart, lengthSize, hword]
      have hsize : payloadSize (p ++ d) = twoBytesAt (p ++ d) 2 := by simp [payloadSize, hword]
      obtain ⟨cursor₁, hread, hat, hflag, hdoubled⟩ :=
        readCharFromBufOrData_ok (n := 2) at_ (by omega)
      rw [if_pos hword, hread, ok_bind]
      apply HeaderRead.after ?_ hflag hdoubled
      by_cases hin : 2 + 2 ≤ p.length + d.length
      · rw [Nat.min_eq_left hin] at hat
        simp only [decide_eq_true hin, if_true]
        rw [stored_two, ← hsize, ← hkey]
        exact hmask (by rwa [hkey])
      · simp only [decide_eq_false hin, Bool.false_eq_true, if_false]
        exact .of_short _ htwo hbase hin (by omega) hat
    · have hlong : lengthField (p ++ d) = 127 := by omega
      have hkey : keyStart (p ++ d) = 10 := by simp [keyStart, lengthSize, hlong]
      have hsize : payloadSize (p ++ d) = fourBytesAt (p ++ d) 6 := by simp [payloadSize, hlong]
      obtain ⟨cursor₁, hread, hat, hflag, hdoubled⟩ :=
        readCharFromBufOrData_ok (n := 4) at_ (by omega)
      rw [if_neg hword, if_pos hlong, hread, ok_bind]
      apply HeaderRead.after ?_ hflag hdoubled
      by_cases hin : 2 + 4 ≤ p.length + d.length
      · have hzero : fourBytesAt (p ++ d) 2 = 0 := by
          by_contra hne
          exact good ⟨hlong, by omega, hne⟩
        rw [Nat.min_eq_left hin] at hat
        obtain ⟨cursor₂, hread₂, hat₂, hflag₂, hdoubled₂⟩ :=
          readCharFromBufOrData_ok (n := 4) hat (by omega)
        simp only [decide_eq_true hin, if_true, if_pos ((stored_zero (by omega)).mpr hzero)]
        rw [hread₂, ok_bind]
        apply HeaderRead.after ?_ hflag₂ hdoubled₂
        by_cases hten : 6 + 4 ≤ p.length + d.length
        · rw [Nat.min_eq_left hten] at hat₂
          simp only [decide_eq_true hten, if_true]
          rw [stored_four, ← hsize, ← hkey]
          exact hmask (by rwa [hkey])
        · simp only [decide_eq_false hten, Bool.false_eq_true, if_false]
          exact .of_short _ htwo hbase hten (by omega) hat₂
      · simp only [decide_eq_false hin, Bool.false_eq_true, if_false]
        exact .of_short _ htwo hbase hin (by omega) hat

/-- Unmasking in place touches only the bytes behind the header. -/
theorem membufMask_ok (buf : Membuf) {n : Nat} (mask : Fin 4 → UInt8) (inside : n ≤ buf.size) :
    ∃ buf', membufMask buf n mask = .ok buf' ∧
      buf'.content = buf.content.take n ++ doMask (buf.content.drop n) mask ∧
      buf'.flag = buf.flag ∧ buf'.bufferSize = buf.bufferSize := by
  have hlength := buf.data_length
  have hsize := buf.size_le
  rw [membufMask, dif_pos inside]
  refine ⟨_, rfl, ?_, rfl, rfl⟩
  have hbody : (doMask ((buf.data.drop n).take (buf.size - n)) mask).length = buf.size - n := by
    simp only [doMask, List.length_mapIdx, List.length_take, List.length_drop]
    omega
  have hfront : (buf.data.take n).length = n := by
    rw [List.length_take]
    omega
  simp only [Membuf.content]
  rw [List.take_append_of_le_length (by rw [List.length_append, hfront, hbody]; omega),
    List.take_of_length_le (by rw [List.length_append, hfront, hbody]; omega), List.take_take,
    Nat.min_eq_left inside, List.drop_take]

/-- Unmasking leaves the header alone and turns the payload into what was sent. -/
theorem unmaskPayload_ok (header : FrameHeader) {buf : Membuf} {n : Nat} (inside : n ≤ buf.size) :
    ∃ buf', unmaskPayload header buf n = .ok buf' ∧
      buf'.content.drop n =
        (if header.hasMask then doMask (buf.content.drop n) header.mask else buf.content.drop n) ∧
      buf'.flag = buf.flag ∧ buf'.bufferSize = buf.bufferSize := by
  unfold unmaskPayload
  cases header.hasMask with
  | false => exact ⟨buf, rfl, rfl, rfl, rfl⟩
  | true =>
      obtain ⟨buf', hmask, hbytes, hkeep, hcap⟩ := membufMask_ok buf header.mask inside
      refine ⟨buf', hmask, ?_, hkeep, hcap⟩
      have htake : (buf.content.take n).length = n := by
        rw [List.length_take, Membuf.length_content]
        omega
      rw [hbytes, List.drop_append_of_le_length (by omega), List.drop_eq_nil_of_le (by omega)]
      rfl

/-- A payload that has arrived whole is unmasked and its header removed. -/
theorem parsePayload_complete (at_ : CursorAt cursor p d (headerLen (p ++ d)))
    (hlong : p.length ≤ headerLen (p ++ d) + payloadSize (p ++ d))
    (small : headerLen (p ++ d) + payloadSize (p ++ d) ≤ 2 ^ 31)
    (hin : headerLen (p ++ d) + payloadSize (p ++ d) ≤ p.length + d.length)
    (hreal : hd.realPayloadLen = payloadSize (p ++ d)) :
    ∃ cursor', parsePayload hd cursor d (headerLen (p ++ d)) =
        .ok (true, (hd.setState .complete).sync cursor') ∧
      cursor'.buf.content =
        (if hd.hasMask then
          doMask (((p ++ d).take (headerLen (p ++ d) + payloadSize (p ++ d))).drop
            (headerLen (p ++ d))) hd.mask
        else ((p ++ d).take (headerLen (p ++ d) + payloadSize (p ++ d))).drop
            (headerLen (p ++ d))) ∧
      cursor'.realReadNum = headerLen (p ++ d) + payloadSize (p ++ d) - p.length ∧
      cursor'.buf.flag = cursor.buf.flag ∧ (cursor.buf.Doubled → cursor'.buf.Doubled) := by
  have hstart := two_le_keyStart (p ++ d)
  have hhead := keyStart_le_headerLen (p ++ d)
  obtain ⟨cursor₁, hread, hat, hflag, hdoubled⟩ :=
    readCharFromBufOrData_ok (n := payloadSize (p ++ d)) at_ (by omega)
  rw [Nat.min_eq_left hin] at hat
  have hcontent : cursor₁.buf.content =
      (p ++ d).take (headerLen (p ++ d) + payloadSize (p ++ d)) := by
    rw [hat.content_eq, List.take_append, List.take_of_length_le hlong]
  have hinside : headerLen (p ++ d) ≤ cursor₁.buf.size := by
    rw [hat.size_eq]
    omega
  obtain ⟨buf, hmask, hbytes, hkeep, hcap⟩ :=
    unmaskPayload_ok hd.toFrameHeader hinside
  obtain ⟨buf', hremove, hbytes', hkeep', hcap'⟩ :=
    membufRemove_ok buf 0 (show 0 < headerLen (p ++ d) by omega)
  rw [List.take_zero, List.nil_append, Nat.zero_add] at hbytes'
  refine ⟨{ cursor₁ with buf := buf' }, ?_, ?_, hat.realReadNum_eq,
    hkeep'.trans (hkeep.trans hflag), ?_⟩
  · unfold parsePayload
    rw [hreal, hread, ok_bind]
    simp only [decide_eq_true hin, if_true]
    rw [hmask, ok_bind, hremove, ok_bind]
  · rw [hbytes', hbytes, hcontent]
  · intro hd₀
    obtain ⟨k, hk, hpow⟩ := hdoubled hd₀
    exact ⟨k, hk, by rw [hcap', hcap, hpow]⟩

/-- A payload that has not arrived whole stays in the buffer. -/
theorem parsePayload_short (at_ : CursorAt cursor p d (headerLen (p ++ d)))
    (small : p.length + d.length ≤ 2 ^ 31)
    (hout : p.length + d.length < headerLen (p ++ d) + payloadSize (p ++ d))
    (hreal : hd.realPayloadLen = payloadSize (p ++ d)) :
    ∃ cursor', parsePayload hd cursor d (headerLen (p ++ d)) = .ok (false, hd.sync cursor') ∧
      CursorAt cursor' p d (p.length + d.length) ∧
      cursor'.buf.flag = cursor.buf.flag ∧ (cursor.buf.Doubled → cursor'.buf.Doubled) := by
  obtain ⟨cursor', hread, hat, hflag, hdoubled⟩ :=
    readCharFromBufOrData_ok (n := payloadSize (p ++ d)) at_ (by omega)
  rw [Nat.min_eq_right (by omega)] at hat
  refine ⟨cursor', ?_, hat, hflag, hdoubled⟩
  unfold parsePayload
  rw [hreal, hread, ok_bind]
  simp only [decide_eq_false (Nat.not_le.mpr hout), Bool.false_eq_true, if_false]

end Stages

/-! ### One call -/

/-- The bytes of the unfinished frame that the handle carries into the next call. -/
def WebsocketHandle.pending (hd : WebsocketHandle) : Bytes :=
  if hd.parseState = .complete then [] else hd.protoBuf.content

/-- The header fields that the next call starts from. -/
def WebsocketHandle.base (hd : WebsocketHandle) : FrameHeader :=
  if hd.parseState = .complete then { hd.toFrameHeader with mask := fun _ => 0 }
  else hd.toFrameHeader

/-- What one call makes of a handle: the parts of it that depend on the stream, and the parts that
no call touches. -/
structure ParsedAs (hd hd' : WebsocketHandle) (header : FrameHeader) (content : Bytes)
    (state : ParseState) (readCount : Nat) : Prop where
  header_eq : hd'.toFrameHeader = header
  content_eq : hd'.protoBuf.content = content
  state_eq : hd'.parseState = state
  readCount_eq : hd'.readCount = readCount
  flag_eq : hd'.protoBuf.flag = hd.protoBuf.flag
  mergeBuf_eq : hd'.mergeBuf = hd.mergeBuf
  endpointType_eq : hd'.endpointType = hd.endpointType
  doubled : hd.protoBuf.Doubled → hd'.protoBuf.Doubled

theorem beginParse_spec (hd : WebsocketHandle) :
    (beginParse hd).toFrameHeader = hd.base ∧ (beginParse hd).protoBuf.content = hd.pending ∧
      (beginParse hd).parseState = .incomplete ∧
      (beginParse hd).protoBuf.flag = hd.protoBuf.flag ∧
      (beginParse hd).mergeBuf = hd.mergeBuf ∧
      (beginParse hd).endpointType = hd.endpointType ∧
      (hd.protoBuf.Doubled → (beginParse hd).protoBuf.Doubled) := by
  unfold beginParse WebsocketHandle.base WebsocketHandle.pending
  split
  · exact ⟨rfl, membufClear_content _ _, rfl, membufClear_flag _ _, rfl, rfl, membufClear_doubled⟩
  · exact ⟨rfl, rfl, rfl, rfl, rfl, rfl, id⟩

/-- A handle that comes out of a call with header `header` and cursor `cursor`. -/
theorem ParsedAs.of_sync {hd : WebsocketHandle} {header : FrameHeader} {cursor : ReadCursor}
    {state : ParseState} {content : Bytes} {readCount : Nat}
    (hcontent : cursor.buf.content = content) (hread : cursor.realReadNum = readCount)
    (hflag : cursor.buf.flag = (beginParse hd).protoBuf.flag)
    (hdoubled : (beginParse hd).protoBuf.Doubled → cursor.buf.Doubled) :
    ParsedAs hd ((((beginParse hd).setHeader header).setState state).sync cursor) header content
      state readCount := by
  obtain ⟨-, -, -, hflag₀, hmerge, hend, hdoubled₀⟩ := beginParse_spec hd
  exact ⟨rfl, hcontent, rfl, hread, hflag.trans hflag₀, hmerge, hend, hdoubled ∘ hdoubled₀⟩

/-- The two header bytes, or what there is of them. -/
theorem tryParseProtocol_start (hd : WebsocketHandle) {d : Bytes} (hd_ : d ≠ [])
    (small : hd.pending.length ≤ 2 ^ 31) :
    ∃ cursor : ReadCursor,
      tryParseProtocol hd d =
        (if 2 ≤ hd.pending.length + d.length then do
          match ← parseLength ((beginParse hd).setHeader
              (twoByteHeader hd.base (hd.pending ++ d))) cursor d with
          | .done ret hd => .ok (ret, hd)
          | .next hd cursor headerLen => parsePayload hd cursor d headerLen
        else .ok (false, ((beginParse hd).setHeader
          (hd.base.setFirstByte (byteAt (hd.pending ++ d) 0))).sync cursor)) ∧
      CursorAt cursor hd.pending d (min 2 (hd.pending.length + d.length)) ∧
      cursor.buf.flag = (beginParse hd).protoBuf.flag ∧
      ((beginParse hd).protoBuf.Doubled → cursor.buf.Doubled) := by
  obtain ⟨hheader, hcontent, -, -, -, -, -⟩ := beginParse_spec hd
  have hpos : 0 < d.length := List.length_pos_iff.mpr hd_
  have hat₀ : CursorAt ⟨(beginParse hd).protoBuf, 0, 0, 0⟩ hd.pending d 0 := by
    rw [← hcontent]
    exact CursorAt.start _ _
  obtain ⟨cursor₁, hread₁, hat₁, hflag₁, hdoubled₁⟩ :=
    readCharFromBufOrData_ok (n := 1) hat₀ (by omega)
  rw [Nat.min_eq_left (by omega)] at hat₁
  obtain ⟨cursor₂, hread₂, hat₂, hflag₂, hdoubled₂⟩ :=
    readCharFromBufOrData_ok (n := 1) hat₁ (by omega)
  refine ⟨cursor₂, ?_, hat₂, hflag₂.trans hflag₁, hdoubled₂ ∘ hdoubled₁⟩
  unfold tryParseProtocol
  simp only [if_neg hd_]
  rw [hread₁, ok_bind]
  simp only
  rw [hread₂, ok_bind, stored_byte, stored_byte, hheader]
  by_cases htwo : 0 + 1 + 1 ≤ hd.pending.length + d.length
  · simp only [decide_eq_true htwo, if_true, if_pos (show 2 ≤ _ from htwo)]
    rfl
  · simp only [decide_eq_false htwo, Bool.false_eq_true, if_false, if_neg (show ¬ 2 ≤ _ from htwo)]

/-- One byte shows the first fields and nothing else. -/
theorem applyHeader_one (base : FrameHeader) {w : Bytes} (h : w.length = 1) :
    applyHeader base w = base.setFirstByte (byteAt w 0) := by
  have hone : 1 ≤ w.length := by omega
  have htwo : ¬ 2 ≤ w.length := by omega
  simp only [applyHeader, FrameHeader.setFirstByte, topBit_eq, dfExt_eq, opcode_eq, if_pos hone,
    htwo, false_and, if_false]

/-- A settled frame has settled header fields: what follows it does not show. -/
theorem applyHeader_take (base : FrameHeader) {w : Bytes} {n : Nat}
    (h : (frameScan w).size = some n) :
    applyHeader base (w.take n) = applyHeader base w := by
  obtain ⟨-, hle⟩ := frameScan_size h
  have hagree := agreeTo_take w n
  have hlen : (w.take n).length = n := by
    rw [List.length_take]
    omega
  have hscan := frameScanner.scan_take h
  have htwo : 2 ≤ n := by
    cases hw : frameScan w with
    | more =>
        rw [hw] at h
        cases h
    | bad m =>
        rw [hw] at h
        cases h
        obtain ⟨-, rfl⟩ := frameScan_bad hw
        omega
    | unit m =>
        rw [hw] at h
        cases h
        have hs := two_le_keyStart w
        have hk := keyStart_le_headerLen w
        obtain ⟨-, ⟨-, rfl⟩ | ⟨-, -, rfl, -⟩⟩ := frameScan_unit hw <;> omega
  have hbytes : twoByteHeader base (w.take n) = twoByteHeader base w := by
    simp only [twoByteHeader, hagree 0 (by omega), hagree 1 (by omega)]
  have hone := hagree 1 (by omega)
  cases hw : frameScan w with
  | more =>
      rw [hw] at h
      cases h
  | bad m =>
      rw [hw] at h
      cases h
      obtain ⟨hbad, rfl⟩ := frameScan_bad hw
      rw [applyHeader_of_open (by omega) (Or.inl (hbad.congr hagree (by omega))),
        applyHeader_of_open (by omega) (Or.inl hbad), hbytes]
  | unit m =>
      rw [hw] at h
      cases h
      have hstart := two_le_keyStart w
      have hhead := keyStart_le_headerLen w
      have hfield := lengthField_congr hone
      have hkeyed := keyed_congr hone
      have hkey := keyStart_congr hone
      obtain ⟨-, ⟨hzero, rfl⟩ | ⟨hne, good, rfl, -⟩⟩ := frameScan_unit hw
      · have htwoStart : keyStart w = 2 := by simp [keyStart, lengthSize, hzero]
        have good : ¬ Malformed w := fun hb => by
          have := hb.1
          omega
        have good' : ¬ Malformed (w.take 2) := fun hb => by
          have := hb.1
          omega
        have hmask : ∀ v : Bytes, lengthField v = 0 →
            (applyHeader base v).mask = base.mask := by
          intro v hv
          funext i
          simp [applyHeader, hv]
        rw [applyHeader_of_length (by omega) good', applyHeader_of_length (by omega) good,
          hmask _ (by omega), hmask _ hzero, hbytes, payloadSize_congr hagree (by omega)]
      · have good' : ¬ Malformed (w.take (headerLen w + payloadSize w)) := by
          intro hb
          have := frameScan_of_malformed hb
          rw [show frameScan (w.take _) = frameScan w from hscan, hw] at this
          cases this
        have hmask : (applyHeader base (w.take (headerLen w + payloadSize w))).mask =
            (applyHeader base w).mask := by
          funext i
          have hi := i.isLt
          simp only [applyHeader, hkeyed, hfield, hkey]
          by_cases hk : keyed w = true
          · have hheader : headerLen w = keyStart w + 4 := by simp [headerLen, hk]
            rw [if_pos ⟨by omega, hk, hne, good', by omega⟩,
              if_pos ⟨by omega, hk, hne, good, by omega⟩, hagree _ (by omega)]
          · rw [if_neg (fun h => hk h.2.1), if_neg (fun h => hk h.2.1)]
        rw [applyHeader_of_length (by omega) good', applyHeader_of_length (by omega) good,
          hbytes, payloadSize_congr hagree (by omega), hmask]

/-- **An open prefix.** The call takes all of the chunk and waits. -/
theorem tryParseProtocol_more {hd : WebsocketHandle} {d : Bytes} (hd_ : d ≠ [])
    (hscan : frameScan (hd.pending ++ d) = .more)
    (small : hd.pending.length + d.length ≤ 2 ^ 31) :
    ∃ hd', tryParseProtocol hd d = .ok (false, hd') ∧
      ParsedAs hd hd' (applyHeader hd.base (hd.pending ++ d)) (hd.pending ++ d) .incomplete
        d.length := by
  have hpos : 0 < d.length := List.length_pos_iff.mpr hd_
  have hlen : (hd.pending ++ d).length = hd.pending.length + d.length := List.length_append
  obtain ⟨cursor, hcall, hat, hflag, hdoubled⟩ :=
    tryParseProtocol_start hd hd_ (by omega)
  rw [hcall]
  have hstate : ∀ header : FrameHeader, (beginParse hd).setHeader header =
      ((beginParse hd).setHeader header).setState .incomplete := by
    intro header
    obtain ⟨-, -, hincomplete, -⟩ := beginParse_spec hd
    rw [← hincomplete]
    rfl
  -- wherever the bytes ran out, the cursor has consumed them all
  have hall : ∀ {cursor₁ : ReadCursor},
      CursorAt cursor₁ hd.pending d (hd.pending.length + d.length) →
      cursor₁.buf.content = hd.pending ++ d ∧ cursor₁.realReadNum = d.length := by
    intro cursor₁ hat₁
    refine ⟨?_, ?_⟩
    · rw [hat₁.content_eq, List.take_of_length_le (by omega)]
    · rw [hat₁.realReadNum_eq]
      omega
  by_cases htwo : 2 ≤ hd.pending.length + d.length
  · rw [if_pos htwo]
    rw [Nat.min_eq_left htwo] at hat
    have hfield : lengthField (hd.pending ++ d) ≠ 0 := by
      intro hzero
      rw [frameScan_of_empty (by omega) hzero] at hscan
      cases hscan
    have good : ¬ Malformed (hd.pending ++ d) := by
      intro hbad
      rw [frameScan_of_malformed hbad] at hscan
      cases hscan
    have hshort : hd.pending.length + d.length <
        headerLen (hd.pending ++ d) + payloadSize (hd.pending ++ d) := by
      by_contra hge
      rw [frameScan_of_complete (by omega) hfield good] at hscan
      cases hscan
    obtain ⟨cursor₁, hlength, hat₁, hflag₁, hdoubled₁⟩ :=
      parseLength_good ((beginParse hd).setHeader
        (twoByteHeader hd.base (hd.pending ++ d))) hat (by omega) hfield good rfl
    rw [hlength, ok_bind]
    by_cases hheader : headerLen (hd.pending ++ d) ≤ hd.pending.length + d.length
    · simp only [if_pos hheader]
      rw [Nat.min_eq_left hheader] at hat₁
      have hreal : (applyHeader hd.base (hd.pending ++ d)).realPayloadLen =
          payloadSize (hd.pending ++ d) := by
        have hk := keyStart_le_headerLen (hd.pending ++ d)
        exact if_pos ⟨by omega, good, by omega⟩
      obtain ⟨cursor₂, hpayload, hat₂, hflag₂, hdoubled₂⟩ :=
        parsePayload_short ((beginParse hd).setHeader
          (applyHeader hd.base (hd.pending ++ d))) hat₁ small hshort hreal
      obtain ⟨hcontent, hcount⟩ := hall hat₂
      refine ⟨_, hpayload, ?_⟩
      rw [hstate]
      exact ParsedAs.of_sync hcontent hcount (hflag₂.trans (hflag₁.trans hflag))
        (hdoubled₂ ∘ hdoubled₁ ∘ hdoubled)
    · simp only [if_neg hheader]
      rw [Nat.min_eq_right (by omega)] at hat₁
      obtain ⟨hcontent, hcount⟩ := hall hat₁
      refine ⟨_, rfl, ?_⟩
      show ParsedAs hd (((beginParse hd).setHeader _).sync cursor₁) _ _ _ _
      rw [hstate]
      exact ParsedAs.of_sync hcontent hcount (hflag₁.trans hflag) (hdoubled₁ ∘ hdoubled)
  · rw [if_neg htwo]
    rw [Nat.min_eq_right (by omega)] at hat
    obtain ⟨hcontent, hcount⟩ := hall hat
    refine ⟨_, rfl, ?_⟩
    rw [hstate, applyHeader_one hd.base (by omega)]
    exact ParsedAs.of_sync hcontent hcount hflag hdoubled

/-- **A malformed length.** The call stops after six bytes and reports failure. -/
theorem tryParseProtocol_bad {hd : WebsocketHandle} {d : Bytes} (hd_ : d ≠ [])
    (hbad : Malformed (hd.pending ++ d)) (small : hd.pending.length ≤ 2 ^ 31) :
    ∃ hd', tryParseProtocol hd d = .ok (false, hd') ∧
      ParsedAs hd hd' (applyHeader hd.base (hd.pending ++ d))
        (hd.pending ++ d.take (6 - hd.pending.length)) .failed (6 - hd.pending.length) := by
  have hlen : (hd.pending ++ d).length = hd.pending.length + d.length := List.length_append
  have hsix := hbad.2.1
  obtain ⟨cursor, hcall, hat, hflag, hdoubled⟩ := tryParseProtocol_start hd hd_ small
  rw [Nat.min_eq_left (by omega)] at hat
  obtain ⟨cursor₁, hlength, hat₁, hflag₁, hdoubled₁⟩ :=
    parseLength_bad ((beginParse hd).setHeader
      (twoByteHeader hd.base (hd.pending ++ d))) hat small hbad rfl
  refine ⟨_, ?_, ParsedAs.of_sync hat₁.content_eq hat₁.realReadNum_eq (hflag₁.trans hflag)
    (hdoubled₁ ∘ hdoubled)⟩
  rw [hcall, if_pos (by omega), hlength, ok_bind]
  rfl

/-- The early return of an empty frame. -/
theorem parseLength_empty (hd : WebsocketHandle) (base : FrameHeader) {w d : Bytes}
    (cursor : ReadCursor) (hlen : 2 ≤ w.length) (hzero : lengthField w = 0) :
    parseLength (hd.setHeader (twoByteHeader base w)) cursor d =
      .ok (.done true (((hd.setHeader (applyHeader base w)).setState .complete).sync cursor)) := by
  have good : ¬ Malformed w := fun h => by
    have := h.1
    omega
  have hkey : keyStart w = 2 := by simp [keyStart, lengthSize, hzero]
  have hpay : (hd.setHeader (twoByteHeader base w)).payloadLen.toNat = 0 := by
    show (twoByteHeader base w).payloadLen.toNat = 0
    rw [twoByteHeader_payloadLen, hzero]
  have hheader : (twoByteHeader base w).setLength 0 = applyHeader base w := by
    have hmask : (applyHeader base w).mask = base.mask := by
      funext i
      simp [applyHeader, hzero]
    rw [applyHeader_of_length (by omega) good, hmask]
    simp [payloadSize, hzero]
    rfl
  unfold parseLength
  rw [hpay, if_pos (by omega), ← hheader]
  exact if_pos rfl

/-- What is left of a complete frame is what the parser unmasks behind its header. -/
theorem frameContent_of_complete (base : FrameHeader) {w : Bytes} (hfield : lengthField w ≠ 0)
    (good : ¬ Malformed w) (hle : headerLen w + payloadSize w ≤ w.length) :
    frameContent (w.take (headerLen w + payloadSize w)) =
      if (applyHeader base w).hasMask then
        doMask ((w.take (headerLen w + payloadSize w)).drop (headerLen w)) (applyHeader base w).mask
      else (w.take (headerLen w + payloadSize w)).drop (headerLen w) := by
  have hstart := two_le_keyStart w
  have hhead := keyStart_le_headerLen w
  have hone : byteAt (w.take (headerLen w + payloadSize w)) 1 = byteAt w 1 := byteAt_take (by omega)
  have hkeyed : (applyHeader base w).hasMask = keyed w := if_pos (by omega)
  have hne : ¬ lengthField (w.take (headerLen w + payloadSize w)) = 0 := by
    rw [lengthField_congr hone]
    exact hfield
  rw [frameContent, if_neg hne, keyed_congr hone, headerLen_congr hone, keyStart_congr hone, hkeyed]
  cases hk : keyed w with
  | false => rfl
  | true =>
      have hfour : headerLen w = keyStart w + 4 := by simp [headerLen, hk]
      have hmask : (applyHeader base w).mask =
          fun i : Fin 4 => byteAt (w.take (headerLen w + payloadSize w)) (keyStart w + i) := by
        funext i
        have hi := i.isLt
        rw [byteAt_take (by omega)]
        exact if_pos ⟨by omega, hk, hfield, good, by omega⟩
      rw [if_pos rfl, if_pos rfl, hmask]

/-- **A complete frame.** The call takes the frame and nothing behind it. -/
theorem tryParseProtocol_unit {hd : WebsocketHandle} {d : Bytes} {n : Nat} (hd_ : d ≠ [])
    (hscan : frameScan (hd.pending ++ d) = .unit n) (hlong : hd.pending.length ≤ n)
    (small : n ≤ 2 ^ 31) :
    ∃ hd', tryParseProtocol hd d = .ok (true, hd') ∧
      ParsedAs hd hd' (applyHeader hd.base (hd.pending ++ d))
        (frameContent ((hd.pending ++ d).take n)) .complete (n - hd.pending.length) := by
  have hlen : (hd.pending ++ d).length = hd.pending.length + d.length := List.length_append
  obtain ⟨cursor, hcall, hat, hflag, hdoubled⟩ :=
    tryParseProtocol_start hd hd_ (by omega)
  obtain ⟨htwo, hcases⟩ := frameScan_unit hscan
  rw [Nat.min_eq_left (by omega)] at hat
  have hstart := two_le_keyStart (hd.pending ++ d)
  have hhead := keyStart_le_headerLen (hd.pending ++ d)
  rw [hcall, if_pos (by omega)]
  rcases hcases with ⟨hzero, rfl⟩ | ⟨hne, good, rfl, hle⟩
  · have hfield : lengthField ((hd.pending ++ d).take 2) = 0 := by
      rw [lengthField_congr (byteAt_take (by omega)), hzero]
    have hcontent : cursor.buf.content = frameContent ((hd.pending ++ d).take 2) := by
      rw [frameContent, if_pos hfield, hat.content_eq, List.take_append,
        List.take_of_length_le hlong]
    refine ⟨_, ?_, ParsedAs.of_sync hcontent hat.realReadNum_eq hflag hdoubled⟩
    rw [parseLength_empty (beginParse hd) hd.base cursor (by omega) hzero, ok_bind]
  · obtain ⟨cursor₁, hlength, hat₁, hflag₁, hdoubled₁⟩ :=
      parseLength_good ((beginParse hd).setHeader
        (twoByteHeader hd.base (hd.pending ++ d))) hat (by omega) hne good rfl
    have hheader : headerLen (hd.pending ++ d) ≤ hd.pending.length + d.length := by omega
    rw [Nat.min_eq_left hheader] at hat₁
    have hreal : (applyHeader hd.base (hd.pending ++ d)).realPayloadLen =
        payloadSize (hd.pending ++ d) := if_pos ⟨by omega, good, by omega⟩
    obtain ⟨cursor₂, hpayload, hcontent, hcount, hflag₂, hdoubled₂⟩ :=
      parsePayload_complete ((beginParse hd).setHeader
        (applyHeader hd.base (hd.pending ++ d))) hat₁ hlong small (by omega) hreal
    refine ⟨_, ?_, ParsedAs.of_sync ?_ hcount (hflag₂.trans (hflag₁.trans hflag))
      (hdoubled₂ ∘ hdoubled₁ ∘ hdoubled)⟩
    · rw [hlength, ok_bind]
      simp only [if_pos hheader]
      exact hpayload
    · rw [hcontent, frameContent_of_complete hd.base hne good hle]
      rfl

/-- **A frame too long to buffer.** Once a doubled buffer would have to hold more than `2 ^ 31` bytes
of one frame, the call does not come back. -/
theorem tryParseProtocol_error {hd : WebsocketHandle} {d : Bytes} (hd_ : d ≠ [])
    (doubled : hd.protoBuf.Doubled) (small : hd.pending.length ≤ 2 ^ 31)
    (hfield : lengthField (hd.pending ++ d) ≠ 0) (good : ¬ Malformed (hd.pending ++ d))
    (large : 2 ^ 31 < min (headerLen (hd.pending ++ d) + payloadSize (hd.pending ++ d))
      (hd.pending.length + d.length)) :
    ∃ fault, tryParseProtocol hd d = .error fault := by
  have hlen : (hd.pending ++ d).length = hd.pending.length + d.length := List.length_append
  have hhead := headerLen_le (hd.pending ++ d)
  have hkey := keyStart_le_headerLen (hd.pending ++ d)
  obtain ⟨-, -, -, -, -, -, hdoubled₀⟩ := beginParse_spec hd
  obtain ⟨cursor, hcall, hat, -, hdoubled⟩ := tryParseProtocol_start hd hd_ small
  rw [Nat.min_eq_left (by omega)] at hat
  obtain ⟨cursor₁, hlength, hat₁, -, hdoubled₁⟩ :=
    parseLength_good ((beginParse hd).setHeader
      (twoByteHeader hd.base (hd.pending ++ d))) hat small hfield good rfl
  have hheader : headerLen (hd.pending ++ d) ≤ hd.pending.length + d.length := by omega
  rw [Nat.min_eq_left hheader] at hat₁
  have hreal : (applyHeader hd.base (hd.pending ++ d)).realPayloadLen =
      payloadSize (hd.pending ++ d) := if_pos ⟨by omega, good, by omega⟩
  obtain ⟨fault, hread⟩ := readCharFromBufOrData_error
    (n := payloadSize (hd.pending ++ d)) hat₁ (hdoubled₁ (hdoubled (hdoubled₀ doubled))) large
  refine ⟨fault, ?_⟩
  rw [hcall, if_pos (by omega), hlength, ok_bind]
  simp only [if_pos hheader]
  unfold parsePayload
  rw [show (((beginParse hd).setHeader (twoByteHeader hd.base (hd.pending ++ d))).setHeader
    (applyHeader hd.base (hd.pending ++ d))).realPayloadLen = payloadSize (hd.pending ++ d)
    from hreal, hread]
  rfl

end AnotherWs
