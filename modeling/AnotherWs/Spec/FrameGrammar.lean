/-
Module: AnotherWs.Spec.FrameGrammar
Purpose: The frame grammar that the parser demands, stated on one contiguous stream: where a frame ends,
  which header fields a prefix determines, and what the parser leaves as the frame's content.
Trusted boundary: none
Main exports: headerLen, payloadSize, Malformed, frameScan, frameScanner, applyHeader, opcode, isFinal,
  frameContent, applyHeader_append
-/
import AnotherWs.Core.Protocol
import AnotherWs.Lib.Framing

namespace AnotherWs

open Framing

/-- The byte at an index, zero past the end. -/
def byteAt (w : Bytes) (i : Nat) : UInt8 := w.getD i 0

theorem byteAt_append {w : Bytes} {i : Nat} (x : Bytes) (h : i < w.length) :
    byteAt (w ++ x) i = byteAt w i := by
  simp [byteAt, List.getD_eq_getElem?_getD, List.getElem?_append_left h]

theorem byteAt_take {w : Bytes} {i n : Nat} (h : i < n) : byteAt (w.take n) i = byteAt w i := by
  simp [byteAt, List.getD_eq_getElem?_getD, h]

theorem byteAt_drop (w : Bytes) (k i : Nat) : byteAt (w.drop k) i = byteAt w (k + i) := by
  simp [byteAt, List.getD_eq_getElem?_getD]

/-- The MASK bit of the second byte. -/
def keyed (w : Bytes) : Bool := decide (128 ≤ (byteAt w 1).toNat)

/-- The 7-bit length of the second byte. -/
def lengthField (w : Bytes) : Nat := (byteAt w 1).toNat % 128

/-- The number of extended length bytes. -/
def lengthSize (w : Bytes) : Nat :=
  if lengthField w < 126 then 0 else if lengthField w = 126 then 2 else 8

/-- Two bytes in network order from an index. -/
def twoBytesAt (w : Bytes) (i : Nat) : Nat :=
  (byteAt w i).toNat * 2 ^ 8 + (byteAt w (i + 1)).toNat

/-- Four bytes in network order from an index. -/
def fourBytesAt (w : Bytes) (i : Nat) : Nat :=
  (byteAt w i).toNat * 2 ^ 24 + (byteAt w (i + 1)).toNat * 2 ^ 16 +
    (byteAt w (i + 2)).toNat * 2 ^ 8 + (byteAt w (i + 3)).toNat

/-- The payload length that the header states. -/
def payloadSize (w : Bytes) : Nat :=
  if lengthField w < 126 then lengthField w
  else if lengthField w = 126 then twoBytesAt w 2
  else fourBytesAt w 6

/-- Where the masking key begins. -/
def keyStart (w : Bytes) : Nat := 2 + lengthSize w

/-- The length of the header, masking key included. -/
def headerLen (w : Bytes) : Nat := keyStart w + if keyed w then 4 else 0

/-- A 64-bit length whose upper half is not zero, once that half has arrived. -/
def Malformed (w : Bytes) : Prop :=
  lengthField w = 127 ∧ 6 ≤ w.length ∧ fourBytesAt w 2 ≠ 0

instance (w : Bytes) : Decidable (Malformed w) := inferInstanceAs (Decidable (_ ∧ _ ∧ _))

/-- Where the first frame of a stream ends. A frame whose 7-bit length is zero ends after two bytes,
MASK bit or not. -/
def frameScan (w : Bytes) : Verdict :=
  if w.length < 2 then .more
  else if lengthField w = 0 then .unit 2
  else if Malformed w then .bad 6
  else if w.length < keyStart w then .more
  else if w.length < headerLen w + payloadSize w then .more
  else .unit (headerLen w + payloadSize w)

/-! ### Which bytes each part depends on -/

theorem keyed_congr {v w : Bytes} (h : byteAt v 1 = byteAt w 1) : keyed v = keyed w := by
  simp only [keyed, h]

theorem lengthField_congr {v w : Bytes} (h : byteAt v 1 = byteAt w 1) :
    lengthField v = lengthField w := by
  simp only [lengthField, h]

theorem lengthField_lt (w : Bytes) : lengthField w < 128 := Nat.mod_lt _ (by omega)

theorem keyStart_congr {v w : Bytes} (h : byteAt v 1 = byteAt w 1) : keyStart v = keyStart w := by
  simp only [keyStart, lengthSize, lengthField_congr h]

theorem headerLen_congr {v w : Bytes} (h : byteAt v 1 = byteAt w 1) : headerLen v = headerLen w := by
  simp only [headerLen, keyStart_congr h, keyed_congr h]

theorem keyStart_le_headerLen (w : Bytes) : keyStart w ≤ headerLen w := Nat.le_add_right _ _

theorem two_le_keyStart (w : Bytes) : 2 ≤ keyStart w := Nat.le_add_right _ _

theorem headerLen_le (w : Bytes) : headerLen w ≤ 14 := by
  simp only [headerLen, keyStart, lengthSize]
  split <;> split <;> (try split) <;> omega

/-- Two streams that agree on the first `n` bytes. -/
def AgreeTo (n : Nat) (v w : Bytes) : Prop := ∀ i < n, byteAt v i = byteAt w i

theorem agreeTo_append {w : Bytes} (x : Bytes) {n : Nat} (h : n ≤ w.length) :
    AgreeTo n (w ++ x) w := fun _ hi => byteAt_append x (by omega)

theorem agreeTo_take (w : Bytes) (n : Nat) : AgreeTo n (w.take n) w := fun _ hi => byteAt_take hi

theorem twoBytesAt_congr {v w : Bytes} {i n : Nat} (h : AgreeTo n v w) (hi : i + 2 ≤ n) :
    twoBytesAt v i = twoBytesAt w i := by
  simp only [twoBytesAt, h i (by omega), h (i + 1) (by omega)]

theorem fourBytesAt_congr {v w : Bytes} {i n : Nat} (h : AgreeTo n v w) (hi : i + 4 ≤ n) :
    fourBytesAt v i = fourBytesAt w i := by
  simp only [fourBytesAt, h i (by omega), h (i + 1) (by omega), h (i + 2) (by omega),
    h (i + 3) (by omega)]

/-- The stated length is settled once the extended length has arrived. -/
theorem payloadSize_congr {v w : Bytes} {n : Nat} (h : AgreeTo n v w) (hn : keyStart w ≤ n) :
    payloadSize v = payloadSize w := by
  have htwo := two_le_keyStart w
  have hfield := lengthField_congr (h 1 (by omega))
  simp only [payloadSize, hfield]
  simp only [keyStart, lengthSize] at hn
  split
  · rfl
  · rename_i hge
    rw [if_neg hge] at hn
    split
    · rename_i heq
      rw [if_pos heq] at hn
      exact twoBytesAt_congr h (by omega)
    · rename_i hne
      rw [if_neg hne] at hn
      exact fourBytesAt_congr h (by omega)

theorem Malformed.congr {v w : Bytes} (h : AgreeTo 6 v w) (hv : 6 ≤ v.length)
    (malformed : Malformed w) : Malformed v := by
  obtain ⟨hfield, -, hupper⟩ := malformed
  refine ⟨?_, hv, ?_⟩
  · rw [lengthField_congr (h 1 (by omega)), hfield]
  · rw [fourBytesAt_congr h (by omega)]
    exact hupper

/-! ### The scanner -/

theorem frameScan_unit {w : Bytes} {n : Nat} (h : frameScan w = .unit n) :
    2 ≤ w.length ∧
      ((lengthField w = 0 ∧ n = 2) ∨
        (lengthField w ≠ 0 ∧ ¬ Malformed w ∧ n = headerLen w + payloadSize w ∧ n ≤ w.length)) := by
  unfold frameScan at h
  split at h
  · cases h
  · rename_i hlen
    refine ⟨by omega, ?_⟩
    split at h
    · rename_i hzero
      cases h
      exact Or.inl ⟨hzero, rfl⟩
    · rename_i hfield
      split at h
      · cases h
      · rename_i hmalformed
        split at h
        · cases h
        · split at h
          · cases h
          · cases h
            exact Or.inr ⟨hfield, hmalformed, rfl, by omega⟩

theorem frameScan_bad {w : Bytes} {n : Nat} (h : frameScan w = .bad n) : Malformed w ∧ n = 6 := by
  unfold frameScan at h
  split at h
  · cases h
  · split at h
    · cases h
    · split at h
      · cases h
        exact ⟨‹_›, rfl⟩
      · split at h
        · cases h
        · split at h <;> cases h

theorem frameScan_of_malformed {w : Bytes} (h : Malformed w) : frameScan w = .bad 6 := by
  obtain ⟨hfield, hlen, hupper⟩ := h
  rw [frameScan, if_neg (by omega), if_neg (by omega), if_pos ⟨hfield, hlen, hupper⟩]

theorem frameScan_of_empty {w : Bytes} (hlen : 2 ≤ w.length) (h : lengthField w = 0) :
    frameScan w = .unit 2 := by
  rw [frameScan, if_neg (by omega), if_pos h]

theorem frameScan_of_complete {w : Bytes} (hlen : headerLen w + payloadSize w ≤ w.length)
    (hfield : lengthField w ≠ 0) (hmalformed : ¬ Malformed w) :
    frameScan w = .unit (headerLen w + payloadSize w) := by
  have hstart := two_le_keyStart w
  have hheader := keyStart_le_headerLen w
  rw [frameScan, if_neg (by omega), if_neg hfield, if_neg hmalformed, if_neg (by omega),
    if_neg (by omega)]

/-- Verdicts carry over to any stream that agrees on the bytes they rest on. -/
theorem frameScan_congr {v w : Bytes} {n : Nat} (h : (frameScan w).size = some n)
    (agree : AgreeTo n v w) (hv : n ≤ v.length) : frameScan v = frameScan w := by
  cases hscan : frameScan w with
  | more =>
      rw [hscan] at h
      cases h
  | bad m =>
      rw [hscan] at h
      cases h
      obtain ⟨hmalformed, rfl⟩ := frameScan_bad hscan
      exact frameScan_of_malformed (hmalformed.congr agree hv)
  | unit m =>
      rw [hscan] at h
      cases h
      obtain ⟨hlen, ⟨hzero, rfl⟩ | ⟨hfield, hmalformed, rfl, hcomplete⟩⟩ := frameScan_unit hscan
      · refine frameScan_of_empty hv ?_
        rw [lengthField_congr (agree 1 (by omega)), hzero]
      · have hstart := two_le_keyStart w
        have hheader := keyStart_le_headerLen w
        have hone := agree 1 (by omega)
        have hhead : headerLen v = headerLen w := headerLen_congr hone
        have hpayload : payloadSize v = payloadSize w := payloadSize_congr agree (by omega)
        rw [← hhead, ← hpayload]
        refine frameScan_of_complete (by omega) (by rwa [lengthField_congr hone]) ?_
        intro hbad
        -- a stream long enough for a 64-bit length agrees on its upper half
        have hfield127 : lengthField w = 127 := by rw [← lengthField_congr hone]; exact hbad.1
        have hten : keyStart w = 10 := by simp [keyStart, lengthSize, hfield127]
        exact hmalformed (hbad.congr (fun i hi => (agree i (by omega)).symm) (by omega))

/-- A settled verdict counts at least one byte and none that has not arrived. -/
theorem frameScan_size {w : Bytes} {n : Nat} (h : (frameScan w).size = some n) :
    0 < n ∧ n ≤ w.length := by
  cases hscan : frameScan w with
  | more =>
      rw [hscan] at h
      cases h
  | bad m =>
      rw [hscan] at h
      cases h
      obtain ⟨⟨-, hlen, -⟩, rfl⟩ := frameScan_bad hscan
      exact ⟨by omega, hlen⟩
  | unit m =>
      rw [hscan] at h
      cases h
      have hstart := two_le_keyStart w
      have hheader := keyStart_le_headerLen w
      obtain ⟨hlen, ⟨-, rfl⟩ | ⟨-, -, rfl, hle⟩⟩ := frameScan_unit hscan
      · exact ⟨by omega, hlen⟩
      · exact ⟨by omega, hle⟩

/-- A complete frame has at least its two header bytes. -/
theorem two_le_of_unit {w : Bytes} {n : Nat} (h : frameScan w = .unit n) : 2 ≤ n := by
  have hstart := two_le_keyStart w
  have hhead := keyStart_le_headerLen w
  obtain ⟨-, ⟨-, rfl⟩ | ⟨-, -, rfl, -⟩⟩ := frameScan_unit h <;> omega

/-- The frame grammar as a scanner. -/
def frameScanner : Scanner UInt8 where
  scan := frameScan
  size_pos h := (frameScan_size h).1
  size_le h := (frameScan_size h).2
  scan_append x h :=
    have hle := (frameScan_size h).2
    frameScan_congr h (agreeTo_append x hle) (by rw [List.length_append]; omega)
  scan_take := by
    intro w n h
    have hle := (frameScan_size h).2
    exact frameScan_congr h (agreeTo_take w n) (by rw [List.length_take]; omega)

/-! ### Frames too long to buffer -/

/-- A frame longer than the buffer can grow, once that many bytes of it are there. -/
def Overlong (w : Bytes) : Prop :=
  lengthField w ≠ 0 ∧ ¬ Malformed w ∧ 2 ^ 31 < min (headerLen w + payloadSize w) w.length

instance (w : Bytes) : Decidable (Overlong w) := inferInstanceAs (Decidable (_ ∧ _ ∧ _))

/-- An open frame of more than `2 ^ 31` bytes is overlong. -/
theorem Overlong.of_more {w : Bytes} (hscan : frameScan w = .more) (hlen : 2 ^ 31 < w.length) :
    Overlong w := by
  have hstart := headerLen_le w
  have hkey := keyStart_le_headerLen w
  have hfield : lengthField w ≠ 0 := by
    intro hzero
    rw [frameScan_of_empty (by omega) hzero] at hscan
    cases hscan
  have good : ¬ Malformed w := by
    intro hbad
    rw [frameScan_of_malformed hbad] at hscan
    cases hscan
  refine ⟨hfield, good, ?_⟩
  by_contra hshort
  rw [frameScan_of_complete (by omega) hfield good] at hscan
  cases hscan

/-- A complete frame of more than `2 ^ 31` bytes is overlong. -/
theorem Overlong.of_unit {w : Bytes} {n : Nat} (hscan : frameScan w = .unit n)
    (hlen : 2 ^ 31 < n) : Overlong w := by
  obtain ⟨-, ⟨-, rfl⟩ | ⟨hfield, good, rfl, hle⟩⟩ := frameScan_unit hscan
  · omega
  · exact ⟨hfield, good, by omega⟩

/-! ### What a prefix determines

A call that starts again from the first byte writes every header field that the bytes at hand settle
and leaves the others alone. `applyHeader` is that effect, and the point of `applyHeader_append` is
that an earlier call on a shorter prefix leaves no trace. -/

/-- The header fields after the parser has seen the stream `w` from its first byte. -/
def applyHeader (header : FrameHeader) (w : Bytes) : FrameHeader where
  isEof := if 1 ≤ w.length then decide (128 ≤ (byteAt w 0).toNat) else header.isEof
  dfExt := if 1 ≤ w.length then 0 else header.dfExt
  type := if 1 ≤ w.length then BitVec.ofNat 4 (byteAt w 0).toNat else header.type
  hasMask := if 2 ≤ w.length then keyed w else header.hasMask
  payloadLen := if 2 ≤ w.length then BitVec.ofNat 7 (lengthField w) else header.payloadLen
  mask := fun i =>
    if 2 ≤ w.length ∧ keyed w ∧ lengthField w ≠ 0 ∧ ¬ Malformed w ∧ keyStart w + i < w.length then
      byteAt w (keyStart w + i)
    else header.mask i
  realPayloadLen :=
    if 2 ≤ w.length ∧ ¬ Malformed w ∧ keyStart w ≤ w.length then payloadSize w
    else header.realPayloadLen

/-- A key byte or an extended length that has arrived lies behind a settled upper half. -/
theorem not_malformed_append {p : Bytes} (x : Bytes) (hlen : 2 ≤ p.length)
    (hstart : keyStart p ≤ p.length) (h : ¬ Malformed p) : ¬ Malformed (p ++ x) := by
  intro hbad
  have hfield : lengthField p = 127 := by
    rw [← lengthField_congr (byteAt_append x (by omega))]
    exact hbad.1
  have hten : keyStart p = 10 := by simp [keyStart, lengthSize, hfield]
  exact h (hbad.congr (fun i hi => (byteAt_append x (by omega)).symm) (by omega))

/-- A second pass over a longer stream overwrites everything the first pass wrote. -/
theorem applyHeader_append (header : FrameHeader) (p x : Bytes) :
    applyHeader (applyHeader header p) (p ++ x) = applyHeader header (p ++ x) := by
  have hlen : p.length ≤ (p ++ x).length := by rw [List.length_append]; omega
  by_cases hone : 1 ≤ p.length
  · by_cases htwo : 2 ≤ p.length
    · have hbyte : byteAt (p ++ x) 1 = byteAt p 1 := byteAt_append x (by omega)
      have hkeyed := keyed_congr hbyte
      have hfield := lengthField_congr hbyte
      have hstart := keyStart_congr hbyte
      have hmask : ∀ i : Fin 4,
          (2 ≤ p.length ∧ keyed p ∧ lengthField p ≠ 0 ∧ ¬ Malformed p ∧
            keyStart p + i < p.length) →
          (2 ≤ (p ++ x).length ∧ keyed (p ++ x) ∧ lengthField (p ++ x) ≠ 0 ∧
            ¬ Malformed (p ++ x) ∧ keyStart (p ++ x) + i < (p ++ x).length) := by
        rintro i ⟨-, hkey, hne, hgood, hin⟩
        rw [hkeyed, hfield, hstart]
        exact ⟨by omega, hkey, hne, not_malformed_append x htwo (by omega) hgood, by omega⟩
      have hreal : (2 ≤ p.length ∧ ¬ Malformed p ∧ keyStart p ≤ p.length) →
          (2 ≤ (p ++ x).length ∧ ¬ Malformed (p ++ x) ∧ keyStart (p ++ x) ≤ (p ++ x).length) := by
        rintro ⟨-, hgood, hin⟩
        rw [hstart]
        exact ⟨by omega, not_malformed_append x htwo hin hgood, by omega⟩
      simp only [applyHeader, if_pos (show 1 ≤ (p ++ x).length by omega),
        if_pos (show 2 ≤ (p ++ x).length by omega), FrameHeader.mk.injEq, true_and]
      constructor
      · funext i
        split
        · rfl
        · rename_i hnot
          exact if_neg (fun h => hnot (hmask i h))
      · split
        · rfl
        · rename_i hnot
          exact if_neg (fun h => hnot (hreal h))
    · simp [applyHeader, htwo, hone, show 1 ≤ p.length + x.length by omega]
  · have hnil : p = [] := List.eq_nil_of_length_eq_zero (by omega)
    subst hnil
    simp [applyHeader]

/-- The opcode of a frame. -/
def opcode (u : Bytes) : Nat := (byteAt u 0).toNat % 16

/-- The FIN bit of a frame. -/
def isFinal (u : Bytes) : Bool := decide (128 ≤ (byteAt u 0).toNat)

theorem applyHeader_type (header : FrameHeader) {u : Bytes} (h : 1 ≤ u.length) :
    (applyHeader header u).type.toNat = opcode u := by
  simp only [applyHeader, if_pos h, BitVec.toNat_ofNat, opcode]

theorem applyHeader_isEof (header : FrameHeader) {u : Bytes} (h : 1 ≤ u.length) :
    (applyHeader header u).isEof = isFinal u := if_pos h

/-- What the parser leaves in the buffer after the frame `u`: the payload, unmasked. A frame whose
7-bit length is zero leaves its two header bytes. -/
def frameContent (u : Bytes) : Bytes :=
  if lengthField u = 0 then u
  else if keyed u then
    doMask (u.drop (headerLen u)) (fun i => byteAt u (keyStart u + i))
  else u.drop (headerLen u)

end AnotherWs
