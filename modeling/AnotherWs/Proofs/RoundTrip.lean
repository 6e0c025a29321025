/-
Module: AnotherWs.Proofs.RoundTrip
Purpose: What generate_websocket_frame writes, on_read_websocket delivers, wherever the stream is
  cut and whatever ping and pong frames stand between the fragments.
Trusted boundary: none
Main exports: ControlUnit, messageFrames_eq_message, encodeMessage, message_round_trip
-/
import AnotherWs.Proofs.ReadLoop
import AnotherWs.Proofs.Conversation
import AnotherWs.Proofs.Encoder

namespace AnotherWs

open Framing

/-- A ping or pong frame whose header states exactly the 1 to 125 payload bytes that follow. -/
def ControlUnit (u : Bytes) : Prop :=
  (opcode u = 9 ∨ opcode u = 10) ∧ 1 ≤ lengthField u ∧ lengthField u ≤ 125 ∧
    u.length = headerLen u + lengthField u

instance (u : Bytes) : Decidable (ControlUnit u) := inferInstanceAs (Decidable (_ ∧ _ ∧ _ ∧ _))

theorem ControlUnit.isUnit {u : Bytes} (control : ControlUnit u) : receiver.IsUnit u := by
  obtain ⟨-, hpos, hshort, hlen⟩ := control
  have hhead := headerLen_le u
  have hsize : payloadSize u = lengthField u := if_pos (by omega)
  have good : ¬ Malformed u := fun hbad => by
    have := hbad.1
    omega
  refine ⟨?_, ?_⟩
  · have hscan := frameScan_of_complete (w := u) (by omega) (by omega) good
    rwa [hsize, ← hlen] at hscan
  · rw [receiver_limit]
    omega

/-! ### The encoder's fragments are the fragments of a message -/

/-- Behind the first fragment the encoder writes continuations. -/
theorem fragmentFrames_eq_continuation (op : UInt8) {data : Bytes} (hne : data ≠ []) :
    ∃ gs, gs ≠ [] ∧ fragmentFrames op false data = continuationFrames gs ∧
      gs.flatMap Fragment.payload = data ∧ ∀ g ∈ gs, g.payload ≠ [] := by
  induction hlen : data.length using Nat.strongRecOn generalizing data with
  | ind n ih =>
      subst hlen
      have hpos := List.length_pos_iff.mpr hne
      have hcap : 0 < dataFrameMaxLen := by decide
      by_cases hmore : dataFrameMaxLen < data.length
      · have hdrop : (data.drop dataFrameMaxLen).length = data.length - dataFrameMaxLen :=
          List.length_drop
        have hrest : data.drop dataFrameMaxLen ≠ [] := List.length_pos_iff.mp (by omega)
        obtain ⟨gs, hgs, hframes, hpayload, hnonempty⟩ :=
          ih (data.drop dataFrameMaxLen).length (by omega) hrest rfl
        refine ⟨⟨none, data.take dataFrameMaxLen⟩ :: gs, by simp, ?_, ?_, ?_⟩
        · rw [fragmentFrames_more hmore, hframes]
          cases gs with
          | nil => exact absurd rfl hgs
          | cons g gs => rfl
        · rw [List.flatMap_cons, hpayload, List.take_append_drop]
        · intro g hg
          rcases List.mem_cons.mp hg with rfl | hg
          · refine List.length_pos_iff.mp ?_
            simp only [List.length_take]
            omega
          · exact hnonempty g hg
      · refine ⟨[⟨none, data⟩], by simp, ?_, by simp, ?_⟩
        · rw [fragmentFrames_last (Nat.not_lt.mp hmore)]
          rfl
        · intro g hg
          rw [List.mem_singleton.mp hg]
          exact hne

/-- The frames of a text or binary message are those of a message of the grammar. -/
theorem messageFrames_eq_message {op : UInt8} {data : Bytes}
    (hop : op = wsTextFrame ∨ op = wsBinFrame) (hne : data ≠ []) :
    ∃ m : Message, messageFrames op data = m.frames ∧ m.payload = data ∧
      ∀ g ∈ m.fragments, g.payload ≠ [] := by
  have hbyte : ∃ binary : Bool, Fin.ofNat 16 op.toNat = if binary then 2 else 1 := by
    rcases hop with rfl | rfl
    · exact ⟨false, rfl⟩
    · exact ⟨true, rfl⟩
  obtain ⟨binary, hbinary⟩ := hbyte
  have hpos := List.length_pos_iff.mpr hne
  have hcap : 0 < dataFrameMaxLen := by decide
  rw [messageFrames, if_neg hne]
  by_cases hmore : dataFrameMaxLen < data.length
  · have hdrop : (data.drop dataFrameMaxLen).length = data.length - dataFrameMaxLen :=
      List.length_drop
    have hrest : data.drop dataFrameMaxLen ≠ [] := List.length_pos_iff.mp (by omega)
    obtain ⟨gs, hgs, hframes, hpayload, hnonempty⟩ := fragmentFrames_eq_continuation op hrest
    refine ⟨⟨binary, ⟨none, data.take dataFrameMaxLen⟩, gs⟩, ?_, ?_, ?_⟩
    · rw [fragmentFrames_more hmore, hframes, if_pos rfl, hbinary]
      cases gs with
      | nil => exact absurd rfl hgs
      | cons g gs => rfl
    · rw [Message.payload, Message.fragments, List.flatMap_cons, hpayload, List.take_append_drop]
    · intro g hg
      rcases List.mem_cons.mp hg with rfl | hg
      · refine List.length_pos_iff.mp ?_
        simp only [List.length_take]
        omega
      · exact hnonempty g hg
  · refine ⟨⟨binary, ⟨none, data⟩, []⟩, ?_, ?_, ?_⟩
    · rw [fragmentFrames_last (Nat.not_lt.mp hmore), if_pos rfl, hbinary]
      rfl
    · simp [Message.payload, Message.fragments]
    · intro g hg
      rw [List.mem_singleton.mp hg]
      exact hne

/-- The frames of all messages, one after the other. -/
def sentFrames (msgs : List (UInt8 × Bytes)) : List WireFrame :=
  msgs.flatMap fun m => messageFrames m.1 m.2

theorem sentFrames_eq_messages {msgs : List (UInt8 × Bytes)}
    (hop : ∀ m ∈ msgs, m.1 = wsTextFrame ∨ m.1 = wsBinFrame) (hne : ∀ m ∈ msgs, m.2 ≠ []) :
    ∃ ms : List Message, sentFrames msgs = ms.flatMap Message.frames ∧
      ms.map Message.payload = msgs.map Prod.snd ∧
      (∀ m ∈ ms, ∀ g ∈ m.fragments, g.payload ≠ []) ∧
      ∀ m ∈ ms, ∃ sent ∈ msgs, m.frames = messageFrames sent.1 sent.2 := by
  induction msgs with
  | nil => exact ⟨[], rfl, rfl, by simp, by simp⟩
  | cons sent msgs ih =>
      rw [List.forall_mem_cons] at hop hne
      obtain ⟨m, hframes, hpayload, hnonempty⟩ := messageFrames_eq_message hop.1 hne.1
      obtain ⟨ms, hall, hpayloads, hnonempties, hfrom⟩ := ih hop.2 hne.2
      refine ⟨m :: ms, ?_, ?_, ?_, ?_⟩
      · rw [sentFrames, List.flatMap_cons, hframes, List.flatMap_cons, ← hall]
        rfl
      · rw [List.map_cons, List.map_cons, hpayload, hpayloads]
      · exact List.forall_mem_cons.mpr ⟨hnonempty, hnonempties⟩
      · refine List.forall_mem_cons.mpr ⟨⟨sent, List.mem_cons_self .., hframes.symm⟩, ?_⟩
        intro m' hm'
        obtain ⟨sent', hsent', heq⟩ := hfrom m' hm'
        exact ⟨sent', List.mem_cons_of_mem _ hsent', heq⟩

/-- A frame is no longer than the stream it is part of. -/
theorem encode_length_le {f : WireFrame} {frames : List WireFrame} (h : f ∈ frames) :
    f.encode.length ≤ (encodeAll frames).length := by
  induction frames with
  | nil => exact absurd h List.not_mem_nil
  | cons g frames ih =>
      rw [encodeAll_cons, List.length_append]
      rcases List.mem_cons.mp h with rfl | h
      · omega
      · have := ih h
        omega

/-- What is left of some frames is no longer than the frames. -/
theorem leftOver_length_le (frames : List WireFrame) :
    (leftOver frames).length ≤ (encodeAll frames).length := by
  induction frames with
  | nil => exact Nat.le_refl _
  | cons f frames ih =>
      have := frameContent_length_le f.encode
      rw [leftOver_cons, encodeAll_cons, List.length_append, List.length_append]
      omega

/-- A message whose fragments all say something leaves its payload. -/
theorem Message.leftOver_frames {m : Message} (h : ∀ g ∈ m.fragments, g.payload ≠ []) :
    leftOver m.frames = m.payload := by
  rw [m.payload_eq]
  refine leftOver_eq_payload ?_
  intro f hf
  have hmem : f.payload ∈ m.fragments.map Fragment.payload := by
    rw [← m.frames_payload]
    exact List.mem_map_of_mem hf
  obtain ⟨g, hg, heq⟩ := List.mem_map.mp hmem
  rw [← heq]
  exact h g hg

/-- **Round trip.** The encoder writes the frames of each message. Whatever ping and pong frames are put
between the frames and wherever the stream is cut, the receive loop of a fresh handle delivers each
message once, in order, and ends between two frames. -/
theorem message_round_trip {endpoint : EndpointType} {msgs : List (UInt8 × Bytes)}
    (hop : ∀ m ∈ msgs, m.1 = wsTextFrame ∨ m.1 = wsBinFrame) (hne : ∀ m ∈ msgs, m.2 ≠ [])
    (small : ∀ m ∈ msgs, (encodeAll (messageFrames m.1 m.2)).length ≤ 2 ^ 31) :
    (∀ m ∈ msgs, ∃ buf, generateWebsocketFrame (membufInit 128) m.2 m.1 = .ok buf ∧
      buf.content = encodeAll (messageFrames m.1 m.2)) ∧
    ∀ pieces chunks hd, Interleaved ControlUnit ((sentFrames msgs).map WireFrame.encode) pieces →
      chunks.flatten = pieces.flatten → (∀ chunk ∈ chunks, chunk ≠ []) → Fresh hd →
      ∃ hd' events, feedChunks endpoint hd chunks = .ok (hd', events) ∧
        payloads events = msgs.map Prod.snd ∧ hd'.parseState = .complete := by
  refine ⟨?_, ?_⟩
  · intro m hm
    have hlt : m.1.toNat < 16 := by
      rcases hop m hm with h | h <;> rw [h] <;> decide
    obtain ⟨buf, hcall, hcontent⟩ := generateWebsocketFrame_ok (membufInit 128) m.2
      hlt (by
        have := small m hm
        rw [show (membufInit 128).size = 0 from rfl]
        omega)
    exact ⟨buf, hcall, by rw [hcontent, membufInit_content, List.nil_append]⟩
  · intro pieces chunks hd interleaved hcut hchunks fresh
    obtain ⟨ms, hframes, hpayloads, hnonempty, hfrom⟩ := sentFrames_eq_messages hop hne
    rw [hframes] at interleaved
    have hms : ∀ m ∈ ms, (encodeAll m.frames).length ≤ 2 ^ 31 := by
      intro m hm
      obtain ⟨sent, hsent, heq⟩ := hfrom m hm
      rw [heq]
      exact small sent hsent
    have hcontrol : ∀ c, ControlUnit c → 3 ≤ opcode c := by
      rintro c ⟨h | h, -⟩ <;> omega
    -- every piece is a complete frame
    have units : ∀ u ∈ pieces, receiver.IsUnit u := by
      intro u hu
      rcases interleaved.mem hu with hframe | hctl
      · obtain ⟨f, hf, rfl⟩ := List.mem_map.mp hframe
        obtain ⟨m, hm, hfm⟩ := List.mem_flatMap.mp hf
        have hlen := Nat.le_trans (encode_length_le hfm) (hms m hm)
        have hwhole := f.encode_length
        have hpayload : f.payload ≠ [] := by
          have hmem : f.payload ∈ m.fragments.map Fragment.payload := by
            rw [← m.frames_payload]
            exact List.mem_map_of_mem hfm
          obtain ⟨g, hg, heq⟩ := List.mem_map.mp hmem
          rw [← heq]
          exact hnonempty m hm g hg
        exact ⟨WireFrame.scan_encode hpayload (by omega), hlen⟩
      · exact hctl.isUnit
    have fits : MergeFits hd.view.merge.length pieces := by
      have hempty : hd.view.merge = [] := fresh.mergeBuf_empty
      rw [hempty, List.length_nil, mergeFits_conversation hcontrol interleaved (Nat.zero_le _)]
      intro m hm _
      exact Nat.le_trans (leftOver_length_le m.frames) (hms m hm)
    obtain ⟨hhalt, hstate, -, hdeliver⟩ :=
      run_units_deliver (s := hd.view) fresh.parseState_eq units fits
    have stands : Stands hd hd.view [] := .of_complete fresh.parseState_eq
    have hrests : (receiver.run hd.view ([] ++ chunks.flatten)).halt = .waiting [] := by
      rw [List.nil_append, hcut, hhalt]
    obtain ⟨hd', hfeed, hstands⟩ := feedChunks_ok endpoint stands hchunks hrests
    rw [List.nil_append, hcut] at hfeed hstands
    refine ⟨hd', _, hfeed, ?_, ?_⟩
    · rw [hdeliver, deliver_conversation hcontrol interleaved, ← hpayloads]
      exact List.map_congr_left fun m hm => Message.leftOver_frames (hnonempty m hm)
    · exact (congrArg HandleView.parseState hstands.view_eq).trans hstate

/-- A text and a binary message with a masked ping between them, cut inside every header. -/
theorem message_round_trip_two :
    ∃ hd' events,
      feedChunks .server (newHandle .server)
        [[0x81], [0x01, 0x61, 0x89], [0x81, 0, 0, 0, 0, 0x55, 0x82], [0x02, 0x62, 0x63]] =
          .ok (hd', events) ∧
      payloads events = [[0x61], [0x62, 0x63]] ∧ hd'.parseState = .complete := by
  have hfirst : messageFrames 1 [0x61] = [⟨true, 1, none, [0x61]⟩] := by
    rw [messageFrames, if_neg (by decide), fragmentFrames_last (by decide)]
    rfl
  have hsecond : messageFrames 2 [0x62, 0x63] = [⟨true, 2, none, [0x62, 0x63]⟩] := by
    rw [messageFrames, if_neg (by decide), fragmentFrames_last (by decide)]
    rfl
  have hframes : (sentFrames [(1, [0x61]), (2, [0x62, 0x63])]).map WireFrame.encode =
      [[0x81, 0x01, 0x61], [0x82, 0x02, 0x62, 0x63]] := by
    simp only [sentFrames, List.flatMap_cons, List.flatMap_nil, hfirst, hsecond]
    rfl
  have hop : ∀ m ∈ [((1 : UInt8), ([0x61] : Bytes)), (2, [0x62, 0x63])],
      m.1 = wsTextFrame ∨ m.1 = wsBinFrame := by decide
  refine (message_round_trip hop (by decide) ?_).2
    [[0x81, 0x01, 0x61], [0x89, 0x81, 0, 0, 0, 0, 0x55], [0x82, 0x02, 0x62, 0x63]]
    _ _ ?_ rfl (by decide) (newHandle_allocated .server).toFresh
  · simp only [List.forall_mem_cons, hfirst, hsecond]
    exact ⟨by decide, by decide, by simp⟩
  · rw [hframes]
    exact .frame _ (.control _ (by decide) (.frame _ .nil))

end AnotherWs
