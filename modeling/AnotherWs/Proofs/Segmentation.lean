/-
Module: AnotherWs.Proofs.Segmentation
Purpose: How a stream is cut into chunks does not show: neither in the callbacks nor in what the handle
  holds at the end.
Trusted boundary: none
Main exports: onRead_segmentation_independent
-/
import AnotherWs.Proofs.ReadLoop

namespace AnotherWs

open Framing

/-- A frame that fits is taken, and the merge buffer grows by no more than the frame. -/
theorem receiver_takes {s : HandleView} {u : Bytes}
    (fits : s.merge.length + u.length ≤ receiver.limit) :
    ∃ s' events, receiver.handle s u = some (s', events) ∧
      s'.merge.length ≤ s.merge.length + u.length := by
  have hcontent := frameContent_length_le u
  have hmerge : (s.accept u).merge = s.merge := rfl
  have hproto : (s.accept u).proto = frameContent u := rfl
  obtain ⟨⟨s', events⟩, hdispatch⟩ := dispatch_isSome (s := s.accept u) (by
    rw [hmerge, hproto]
    exact Nat.le_trans (Nat.add_le_add_left hcontent _) fits)
  obtain ⟨-, -, -, hgrown⟩ := dispatch_spec hdispatch
  rw [hmerge, hproto] at hgrown
  exact ⟨s', _, receiver_handle hdispatch, by omega⟩

/-- A stream that fits the buffers, none of whose prefixes ends in `PARSE_FAILED`, leaves the receiver
waiting. -/
theorem receiver_waits {endpoint : EndpointType} {hd : WebsocketHandle} {s : HandleView}
    {p stream : Bytes} (stands : Stands hd s p) (alive : ¬ Malformed p)
    (fits : s.merge.length + (p ++ stream).length ≤ 2 ^ 31)
    (good : ∀ front rest, stream = front ++ rest → front ≠ [] → ∀ trace,
      onReadWebsocket endpoint hd front = .ok trace → trace.handle.parseState ≠ .failed) :
    ∃ p', (receiver.run s (p ++ stream)).halt = .waiting p' := by
  have hsurvives := Decoder.run_within (D := receiver) (fun s => s.merge.length)
    (fun _ h => receiver_takes h) fits
  cases hhalt : (receiver.run s (p ++ stream)).halt with
  | waiting p' => exact ⟨p', rfl⟩
  | failed => exact absurd hhalt hsurvives
  | rejected rest =>
      -- the call on the chunk that ends with the malformed length would have failed
      exfalso
      obtain ⟨front, n, hsplit, hscan, hrun⟩ := Decoder.rejected_prefix hhalt
      obtain ⟨hbad, rfl⟩ := frameScan_bad hscan
      have hsix : (rest.take 6).length = 6 := by
        have := hbad.2.1
        rw [List.length_take]
        omega
      have hcut : Malformed (rest.take 6) := hbad.congr (agreeTo_take rest 6) (by omega)
      have hmore : frameScan p = .more := stands.unfinished.resolve_right fun h => alive h.1
      -- the bytes of an unfinished frame do not reach that far
      have hbeyond : ∀ y, p ≠ (front ++ rest.take 6) ++ y := by
        rintro y rfl
        have hwait := Decoder.run_more (D := receiver) (s := s) hmore
        rw [Decoder.run_append, hrun, if_pos (show _ ≤ receiver.limit from stands.small)] at hwait
        have hhalts := congrArg Run.halt hwait
        cases hhalts
      have hbefore : front ++ rest.take 6 <+: p ++ stream := by
        refine ⟨rest.drop 6, ?_⟩
        rw [List.append_assoc, List.take_append_drop, hsplit]
      rcases List.prefix_or_prefix_of_prefix (List.prefix_append p stream) hbefore with
        ⟨chunk, hchunk⟩ | ⟨y, hy⟩
      · have hne : chunk ≠ [] := by
          rintro rfl
          exact hbeyond [] (by rw [List.append_nil, ← hchunk, List.append_nil])
        have hstream : stream = chunk ++ rest.drop 6 := by
          have hboth : p ++ stream = p ++ (chunk ++ rest.drop 6) := by
            rw [← List.append_assoc, hchunk, hsplit, List.append_assoc, List.take_append_drop]
          exact List.append_cancel_left hboth
        rw [← hchunk] at hrun
        have hfinish : finish (receiver.run s (p ++ chunk)).halt =
            some (rest.take 6, [(6, [.twCloseClient])]) := by
          rw [hrun]
          exact if_pos (by omega)
        obtain ⟨trace, hcall, hstands, -⟩ := onReadWebsocket_ok endpoint stands hne hfinish
        exact good chunk _ hstream hne trace hcall (hstands.failed_iff.mpr hcut)
      · exact hbeyond y hy.symm

/-- **Segmentation independence.** From any handle of a connection that has not failed, a stream that
fits the buffers and of which no prefix leads to `PARSE_FAILED` causes the same callbacks and the same
final handle, however it is cut. -/
theorem onRead_segmentation_independent {endpoint : EndpointType} {hd : WebsocketHandle}
    (reachable : Reachable endpoint hd) (alive : hd.parseState ≠ .failed) {stream : Bytes}
    (small : stream.length + hd.pending.length + hd.mergeBuf.size ≤ 2 ^ 31)
    (good : ∀ front rest, stream = front ++ rest → front ≠ [] → ∀ trace,
      onReadWebsocket endpoint hd front = .ok trace → trace.handle.parseState ≠ .failed)
    {first second : List Bytes} (hfirst : first.flatten = stream) (hsecond : second.flatten = stream)
    (nonempty : ∀ chunk ∈ first ++ second, chunk ≠ []) :
    ∃ events hd₁ hd₂, feedChunks endpoint hd first = .ok (hd₁, events) ∧
      feedChunks endpoint hd second = .ok (hd₂, events) ∧ hd₁.view = hd₂.view := by
  obtain ⟨s, p, stands, -⟩ := reachable_stands endpoint reachable
  have hpending := stands.pending_eq
  have hmerge : hd.mergeBuf.size = s.merge.length := by
    rw [← stands.merge_eq, Membuf.length_content]
  obtain ⟨p', hwaits⟩ := receiver_waits stands
    (fun hbad => alive (stands.failed_iff.mpr hbad))
    (by rw [List.length_append, ← hmerge, ← hpending]; omega) good
  have hwaits₁ : (receiver.run s (p ++ first.flatten)).halt = .waiting p' := by
    rw [hfirst]
    exact hwaits
  have hwaits₂ : (receiver.run s (p ++ second.flatten)).halt = .waiting p' := by
    rw [hsecond]
    exact hwaits
  obtain ⟨hd₁, hcall₁, hstands₁⟩ := feedChunks_ok endpoint stands
    (fun chunk h => nonempty chunk (List.mem_append_left _ h)) hwaits₁
  obtain ⟨hd₂, hcall₂, hstands₂⟩ := feedChunks_ok endpoint stands
    (fun chunk h => nonempty chunk (List.mem_append_right _ h)) hwaits₂
  rw [hfirst] at hcall₁ hstands₁
  rw [hsecond] at hcall₂ hstands₂
  exact ⟨_, hd₁, hd₂, hcall₁, hcall₂, hstands₁.view_eq.trans hstands₂.view_eq.symm⟩

/-- A one-byte text frame, cut behind its first byte and not cut at all. -/
theorem onRead_segmentation_independent_text :
    ∃ events hd₁ hd₂,
      feedChunks .server (newHandle .server) [[0x81], [0x01, 0x61]] = .ok (hd₁, events) ∧
      feedChunks .server (newHandle .server) [[0x81, 0x01, 0x61]] = .ok (hd₂, events) ∧
      hd₁.view = hd₂.view := by
  refine onRead_segmentation_independent
    (.allocated (newHandle_allocated .server)) (by decide) (by decide) ?_ rfl rfl (by decide)
  intro front rest hsplit hne trace hcall
  have hstate : ∀ k, (onReadWebsocket .server (newHandle .server)
      (([0x81, 0x01, 0x61] : Bytes).take (k + 1))).toOption.all
        (fun trace => decide (trace.handle.parseState ≠ .failed)) = true := by
    intro k
    rcases k with _ | _ | k
    · decide +kernel
    · decide +kernel
    · rw [List.take_of_length_le (by simp)]
      decide +kernel
  have hfront : ([0x81, 0x01, 0x61] : Bytes).take (front.length - 1 + 1) = front := by
    have := List.length_pos_iff.mpr hne
    rw [Nat.sub_add_cancel this, show ([0x81, 0x01, 0x61] : Bytes) = front ++ rest from hsplit,
      List.take_left]
  have hdone := hstate (front.length - 1)
  rw [hfront, hcall] at hdone
  exact of_decide_eq_true hdone

end AnotherWs
