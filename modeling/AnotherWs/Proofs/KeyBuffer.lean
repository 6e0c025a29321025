/-
Module: AnotherWs.Proofs.KeyBuffer
Purpose: Which first chunks leave the server's key buffer intact.
Trusted boundary: libuv suggests a buffer of 65536 bytes.
Main exports: serverBuffer, KeyBufferSafe, EndsSoon, keyBuffer_safe_iff
-/
import AnotherWs.Proofs.HeadScan
import AnotherWs.Proofs.Handshake

namespace AnotherWs

/-- What `on_uv_alloc` of the server allocates for a read. -/
def readBufferSize : Nat := 65536

/-- The buffer of a read of the server: the chunk, and the zeros of `calloc`. -/
def serverBuffer (chunk : Bytes) : Bytes :=
  chunk ++ List.replicate (readBufferSize - chunk.length) 0

/-- The copies of a key stay inside `akey`, and it ends with a zero. -/
def KeyFits (key : Bytes) : Prop :=
  key.length + 36 < 100 ∧ ∃ akey, fillAkey key = .ok akey ∧ akey.length = 100 ∧ 0 ∈ akey

/-- Whatever key is found in the chunk fits. -/
def KeyBufferSafe (chunk : Bytes) : Prop :=
  ∀ key mem', (parseHttpHeadsScan readBufferSize CWSServer.keyField).run (serverBuffer chunk) =
    some (some key, mem') → KeyFits key

/-- What stands behind the name of the key field, one character and white space in the buffer, with
the head cut at offset `k` and the name at offset `j`. -/
def keyText (chunk : Bytes) (k j : Nat) : Bytes :=
  (((serverBuffer chunk).set k 0).drop (j + (CWSServer.keyField.length + 1))).dropWhile isspace

/-- If a carriage return or a zero follows at all, one of the next 64 bytes is one. -/
def EndsSoon (chunk : Bytes) : Prop :=
  ∀ k j, Search.offset headEnd ((serverBuffer chunk).takeWhile (· ≠ 0)) = some k →
    Search.offset CWSServer.keyField ((serverBuffer chunk).take k) = some j →
    (∃ c ∈ keyText chunk k j, StopsValue c) → ∃ c ∈ (keyText chunk k j).take 64, StopsValue c

/-- A value is shorter than `n` when what stops it stands within `n` bytes. -/
theorem length_takeWhile_lt_iff {text : Bytes} (stops : ∃ c ∈ text, StopsValue c) (n : Nat) :
    (text.takeWhile fun c => c ≠ 0x0d && c ≠ 0).length < n ↔
      ∃ c ∈ text.take n, StopsValue c := by
  induction text generalizing n with
  | nil =>
      obtain ⟨c, hc, -⟩ := stops
      exact absurd hc List.not_mem_nil
  | cons d text ih =>
      cases n with
      | zero => simp
      | succ n =>
          rw [List.take_succ_cons]
          by_cases hd : StopsValue d
          · have hpass : ¬ (d ≠ 0x0d && d ≠ 0) = true := by
              rcases hd with rfl | rfl <;> decide
            rw [List.takeWhile_cons_of_neg (p := fun c : UInt8 => c ≠ 0x0d && c ≠ 0) hpass]
            exact iff_of_true (Nat.succ_pos n) ⟨d, List.mem_cons_self, hd⟩
          · have hpass : (d ≠ 0x0d && d ≠ 0) = true := by
              rw [StopsValue, not_or] at hd
              simp [hd]
            have hrest : ∃ c ∈ text, StopsValue c := by
              obtain ⟨c, hc, hstop⟩ := stops
              rcases List.mem_cons.mp hc with rfl | hc
              · exact absurd hstop hd
              · exact ⟨c, hc, hstop⟩
            rw [List.takeWhile_cons_of_pos (p := fun c : UInt8 => c ≠ 0x0d && c ≠ 0) hpass,
              List.length_cons, Nat.add_lt_add_iff_right, ih hrest n]
            simp [hd]

/-- A key fits when it is shorter than 64 characters. -/
theorem keyFits_iff (key : Bytes) : KeyFits key ↔ key.length < 64 := by
  have hsuffix : wsKeySuffix.length = 36 := rfl
  constructor
  · rintro ⟨hfits, -⟩
    omega
  · intro hshort
    refine ⟨by omega, _, fillAkey_eq (by omega), ?_, ?_⟩
    · simp only [List.length_append, List.length_cons, List.length_replicate]
      omega
    · exact List.mem_append_right _ List.mem_cons_self

/-- **The key buffer.** The key of a chunk fits exactly when its end follows soon. -/
theorem keyBuffer_safe_iff {chunk : Bytes} (fits : chunk.length ≤ 65536) :
    KeyBufferSafe chunk ↔ EndsSoon chunk := by
  have hlen : (serverBuffer chunk).length ≤ readBufferSize := by
    rw [serverBuffer, List.length_append, List.length_replicate, readBufferSize]
    omega
  obtain ⟨htext, hnonempty⟩ : 0 ∉ CWSServer.keyField ∧ CWSServer.keyField ≠ [] :=
    handshakeField_text .server
  obtain ⟨hsome, hnone⟩ := parseHttpHeadsScan_run htext hnonempty hlen
  constructor
  · intro safe k j hend hname hstops
    obtain ⟨mem', hrun⟩ := hsome ((stops_of_settled hend hname).mpr hstops)
    rw [headValue_eq hend hname] at hrun
    exact (length_takeWhile_lt_iff hstops 64).mp ((keyFits_iff _).mp (safe _ _ hrun))
  · intro soon key mem' hrun
    by_cases hsettled : Settled CWSServer.keyField (serverBuffer chunk)
    · obtain ⟨mem', hrun'⟩ := hsome hsettled
      rw [hrun, Option.some.injEq, Prod.mk.injEq] at hrun'
      obtain ⟨k, hend, hvalue⟩ := Option.bind_eq_some_iff.mp hrun'.1.symm
      obtain ⟨j, hname, -⟩ := Option.map_eq_some_iff.mp hvalue
      have hstops := (stops_of_settled hend hname).mp hsettled
      have hkey := hrun'.1.trans (headValue_eq hend hname)
      cases hkey
      exact (keyFits_iff _).mpr ((length_takeWhile_lt_iff hstops 64).mpr (soon k j hend hname hstops))
    · rw [hnone hsettled] at hrun
      cases hrun

/-- A request with a key of 64 characters. -/
def longKeyRequest : Bytes :=
  ascii "GET / HTTP/1.1\r\nSec-WebSocket-Key: " ++ List.replicate 64 0x41 ++ headEnd

theorem keyBuffer_safe_iff_long :
    longKeyRequest.length ≤ 65536 ∧ (KeyBufferSafe longKeyRequest ↔ EndsSoon longKeyRequest) :=
  ⟨by decide +kernel, keyBuffer_safe_iff (by decide +kernel)⟩

/-- Its key is found and does not fit. -/
theorem keyBuffer_overrun :
    (∃ mem', (parseHttpHeadsScan readBufferSize CWSServer.keyField).run (serverBuffer longKeyRequest) =
      some (some (List.replicate 64 0x41), mem')) ∧
    ¬ KeyBufferSafe longKeyRequest := by
  have hlen : longKeyRequest.length = 103 := by decide +kernel
  have hbuffer : serverBuffer longKeyRequest = zeroFilled longKeyRequest 65432 := by
    rw [serverBuffer, hlen]
    rfl
  have hvalue : headValue CWSServer.keyField longKeyRequest = some (List.replicate 64 0x41) := by
    decide +kernel
  obtain ⟨htext, hnonempty⟩ : 0 ∉ CWSServer.keyField ∧ CWSServer.keyField ≠ [] :=
    handshakeField_text .server
  have hrun : ∃ mem', (parseHttpHeadsScan readBufferSize CWSServer.keyField).run
      (serverBuffer longKeyRequest) = some (some (List.replicate 64 0x41), mem') := by
    refine parseHttpHeadsScan_of_ok htext hnonempty ?_ ?_
    · rw [serverBuffer, List.length_append, List.length_replicate, hlen, readBufferSize]
    · rw [hbuffer, parseHttpHeads_eq, hvalue]
  refine ⟨hrun, fun safe => ?_⟩
  obtain ⟨mem', hrun⟩ := hrun
  have hshort := (keyFits_iff _).mp (safe _ _ hrun)
  rw [List.length_replicate] at hshort
  omega

end AnotherWs
