/-
Module: AnotherWs.Proofs.Conformance
Purpose: Whether the receive loop reads the streams of a conformant peer as they are meant. It does, as
  long as no data frame is empty, no empty frame carries a key, and everything fits the buffers.
Trusted boundary: none
Main exports: ConformantControl, ReadsConversation, Readable, readsConversation_iff,
  masked_empty_ping_misread
-/
import AnotherWs.Proofs.ReadLoop
import AnotherWs.Proofs.RoundTrip

namespace AnotherWs

open Framing

/-- A ping or pong frame of at most 125 payload bytes, masked or not. -/
def ConformantControl (f : WireFrame) : Prop :=
  f.fin = true ∧ (f.op = 9 ∨ f.op = 10) ∧ f.payload.length ≤ 125

/-- One call on the concatenated frames takes exactly the bytes of each frame, and delivers each message
once, as the concatenation of its fragments. -/
def ReadsConversation (endpoint : EndpointType) (hd : WebsocketHandle) (pieces : List WireFrame)
    (msgs : List Message) : Prop :=
  ∃ trace, onReadWebsocket endpoint hd (encodeAll pieces) = .ok trace ∧
    trace.passes.map Prod.fst = pieces.map (fun f => f.encode.length) ∧
    payloads trace.events = msgs.map Message.payload

/-- Frames and fragmented messages fit the buffers, and an empty frame is a control frame without a
key. -/
def Readable (pieces : List WireFrame) (msgs : List Message) : Prop :=
  (∀ f ∈ pieces, f.encode.length ≤ 2 ^ 31 ∧
    (f.payload = [] → f.key = none ∧ (f.op = 9 ∨ f.op = 10))) ∧
  ∀ m ∈ msgs, m.rest ≠ [] → m.payload.length ≤ 2 ^ 31

/-- A frame that the parser takes for what it is. -/
theorem isUnit_encode {f : WireFrame} (hplain : f.payload ≠ [] ∨ f.key = none)
    (hlen : f.encode.length ≤ 2 ^ 31) : receiver.IsUnit f.encode := by
  have hwhole := f.encode_length
  exact ⟨WireFrame.scan_encode_plain hplain (by omega), hlen⟩

/-- Plain frames that fit are complete frames on the stream. -/
theorem isUnit_of_plain {fs : List WireFrame}
    (plain : ∀ f ∈ fs, (f.payload ≠ [] ∨ f.key = none) ∧ f.encode.length ≤ 2 ^ 31) :
    ∀ u ∈ fs.map WireFrame.encode, receiver.IsUnit u := by
  intro u hu
  obtain ⟨f, hf, rfl⟩ := List.mem_map.mp hu
  exact isUnit_encode (plain f hf).1 (plain f hf).2

/-- The call comes back, and its passes take the given numbers of bytes. -/
def PassesTake (s : HandleView) (w : Bytes) (counts : List Nat) : Prop :=
  ∃ p tail, finish (receiver.run s w).halt = some (p, tail) ∧
    ((receiver.run s w).events ++ tail).map Prod.fst = counts

/-- The first pass takes the first frame. -/
theorem PassesTake.of_unit {s : HandleView} {w : Bytes} {n count : Nat} {counts : List Nat}
    (takes : PassesTake s w (count :: counts)) (hscan : frameScan w = .unit n) :
    n = count ∧ n ≤ 2 ^ 31 ∧ ∃ s', PassesTake s' (w.drop n) counts := by
  obtain ⟨p, tail, rests, hcounts⟩ := takes
  have hle : n ≤ w.length := Scanner.unit_le (S := frameScanner) hscan
  have hcut : (w.take n).length = n := by
    rw [List.length_take]
    omega
  rw [Decoder.run_unit (D := receiver) (s := s) (w := w) hscan] at rests hcounts
  by_cases hfits : n ≤ receiver.limit
  · rw [if_pos hfits] at rests hcounts
    cases hdispatch : (s.accept (w.take n)).dispatch with
    | none =>
        rw [show receiver.handle s (w.take n) = none by simp [receiver, hdispatch]] at rests
        cases rests
    | some next =>
        obtain ⟨s', events⟩ := next
        rw [receiver_handle hdispatch] at rests hcounts
        simp only [Run.after_halt, Run.after_events, hcut, List.cons_append, List.nil_append,
          List.map_cons, List.cons.injEq] at rests hcounts
        exact ⟨hcounts.1, hfits, s', p, tail, rests, hcounts.2⟩
  · rw [if_neg hfits] at rests
    cases rests

/-- When every pass takes the bytes of its frame, every frame was taken for what it is. -/
theorem PassesTake.plain {fs : List WireFrame} (lengths : ∀ f ∈ fs, f.payload.length < 2 ^ 63)
    {s : HandleView} (takes : PassesTake s (encodeAll fs) (fs.map fun f => f.encode.length)) :
    ∀ f ∈ fs, (f.payload ≠ [] ∨ f.key = none) ∧ f.encode.length ≤ 2 ^ 31 := by
  induction fs generalizing s with
  | nil => simp
  | cons f fs ih =>
      rw [List.forall_mem_cons] at lengths ⊢
      rw [encodeAll_cons, List.map_cons] at takes
      have hwhole := f.encode_length
      have htwo := f.two_le_header
      by_cases hnil : f.payload = []
      · -- two bytes are taken, so the frame must have no key
        obtain ⟨hcount, -, s', hrest⟩ := takes.of_unit (WireFrame.scan_encode_empty hnil _)
        have hkey : f.key = none := by
          cases hk : f.key with
          | none => rfl
          | some key =>
              have hsix : f.encode.length = 6 := by
                simp [WireFrame.encode, WireFrame.header, hnil, hk, WireFrame.longLength,
                  WireFrame.keyBytes, WireFrame.maskPayload, doMask]
              omega
        rw [hcount, List.drop_left] at hrest
        exact ⟨⟨Or.inr hkey, by omega⟩, ih lengths.2 hrest⟩
      · by_cases hsmall : f.payload.length < 2 ^ 32
        · have hscan : frameScan (f.encode ++ encodeAll fs) = .unit f.encode.length :=
            Scanner.unit_append (S := frameScanner) (w := f.encode)
              (WireFrame.scan_encode hnil hsmall) _
          obtain ⟨-, hfits, s', hrest⟩ := takes.of_unit hscan
          rw [List.drop_left] at hrest
          exact ⟨⟨Or.inl hnil, hfits⟩, ih lengths.2 hrest⟩
        · -- a length of 2 ^ 32 or more is refused with bytes left over
          exfalso
          obtain ⟨p, tail, rests, -⟩ := takes
          have hbad := (WireFrame.malformed_encode_iff f (encodeAll fs)
            (by omega)).mpr (Nat.le_of_not_lt hsmall)
          rw [Decoder.run_bad (D := receiver) (frameScan_of_malformed hbad), if_pos (by decide)]
            at rests
          have hlong : ¬ (f.encode ++ encodeAll fs).length ≤ 6 := by
            rw [List.length_append]
            omega
          simp only [finish, if_neg hlong] at rests
          cases rests

/-- A message that is delivered as it was meant has no empty frame. -/
theorem Message.nonempty_of_leftOver {m : Message} (h : leftOver m.frames = m.payload) :
    ∀ f ∈ m.frames, f.payload ≠ [] := by
  intro f hf hnil
  have hlt := leftOver_length ⟨f, hf, hnil⟩
  rw [h, m.payload_eq] at hlt
  omega

/-- The frames of a message have payloads when its fragments have, and the other way round. -/
theorem Message.leftOver_of_nonempty {m : Message} (h : ∀ f ∈ m.frames, f.payload ≠ []) :
    leftOver m.frames = m.payload := by
  rw [leftOver_eq_payload h, m.payload_eq]

section Reading

variable {endpoint : EndpointType} {hd : WebsocketHandle} {pieces : List WireFrame}
  {msgs : List Message}

theorem conformantControl_opcode (u : Bytes)
    (h : ∃ f, ConformantControl f ∧ f.encode = u) : 3 ≤ opcode u := by
  obtain ⟨f, ⟨-, hop, -⟩, rfl⟩ := h
  rw [opcode_of_encode]
  rcases hop with h | h <;> rw [h] <;> decide

/-- A stream of frames is not empty. -/
theorem encodeAll_ne_nil (nonempty : pieces ≠ []) : encodeAll pieces ≠ [] := by
  intro hnil
  have hmany := length_le_encodeAll pieces
  rw [hnil, List.length_nil] at hmany
  exact nonempty (List.eq_nil_of_length_eq_zero (Nat.le_zero.mp hmany))

/-- A call that reads a conversation is a run in which every frame was taken for what it is. -/
theorem ReadsConversation.plain (reads : ReadsConversation endpoint hd pieces msgs)
    (allocated : Allocated hd) (nonempty : pieces ≠ [])
    (lengths : ∀ f ∈ pieces, f.payload.length < 2 ^ 63) :
    (∀ f ∈ pieces, (f.payload ≠ [] ∨ f.key = none) ∧ f.encode.length ≤ 2 ^ 31) ∧
      ∃ p tail, finish (receiver.run hd.view (encodeAll pieces)).halt = some (p, tail) ∧
        payloads (((receiver.run hd.view (encodeAll pieces)).events ++ tail).flatMap Prod.snd) =
          msgs.map Message.payload := by
  obtain ⟨trace, hcall, hcounts, hpayloads⟩ := reads
  have stands : Stands hd hd.view [] := .of_complete allocated.parseState_eq
  have hdata := encodeAll_ne_nil nonempty
  obtain ⟨⟨p, tail⟩, hfinish⟩ :=
    (readLoop_terminates_iff endpoint stands allocated.sized hdata).mp ⟨_, trace, hcall⟩
  obtain ⟨trace', hcall', -, hpasses, -⟩ :=
    onReadWebsocket_ok endpoint stands hdata hfinish
  rw [hcall] at hcall'
  cases hcall'
  rw [List.length_nil, countFrom_zero, List.nil_append] at hpasses
  rw [List.nil_append] at hfinish
  refine ⟨PassesTake.plain lengths ⟨p, tail, hfinish, hpasses ▸ hcounts⟩, p, tail, hfinish, ?_⟩
  rw [← hpasses]
  exact hpayloads

/-- **Conformant peers.** On a fresh handle, the stream of a conformant peer is read as it is meant
exactly when it is readable. -/
theorem readsConversation_iff (allocated : Allocated hd)
    (interleaved : Interleaved ConformantControl (msgs.flatMap Message.frames) pieces)
    (nonempty : pieces ≠ []) (lengths : ∀ f ∈ pieces, f.payload.length < 2 ^ 63) :
    ReadsConversation endpoint hd pieces msgs ↔ Readable pieces msgs := by
  have stands : Stands hd hd.view [] := .of_complete allocated.parseState_eq
  have hmerge : hd.view.merge = [] := allocated.mergeBuf_empty
  have hbytes : Interleaved (fun u => ∃ f, ConformantControl f ∧ f.encode = u)
      ((msgs.flatMap Message.frames).map WireFrame.encode) (pieces.map WireFrame.encode) :=
    interleaved.map fun c hc => ⟨c, hc, rfl⟩
  constructor
  · intro reads
    obtain ⟨hplain, p, tail, hfinish, hpayloads⟩ := reads.plain allocated nonempty lengths
    have hunits := isUnit_of_plain hplain
    have hsurvives : (receiver.run hd.view ((pieces.map WireFrame.encode).flatten ++ [])).halt ≠
        .failed := by
      rw [List.append_nil]
      intro hfailed
      rw [show encodeAll pieces = (pieces.map WireFrame.encode).flatten from rfl, hfailed] at hfinish
      cases hfinish
    obtain ⟨s', out, hall, -⟩ := Decoder.run_units_some (fun u hu => (hunits u hu).1) hsurvives
    obtain ⟨-, hdeliver, -, hfits, -⟩ := handleAll_deliver hunits hall (by simp [hmerge])
    have hrun := Decoder.run_units [] hunits hall
    rw [List.append_nil, Decoder.run_nil] at hrun
    rw [show encodeAll pieces = (pieces.map WireFrame.encode).flatten from rfl, hrun]
      at hfinish hpayloads
    cases hfinish
    -- so each message was delivered as what is left of its frames
    simp only [Run.after_events, List.append_nil] at hpayloads
    rw [hdeliver, deliver_conversation conformantControl_opcode hbytes] at hpayloads
    have hmessages : ∀ m ∈ msgs, leftOver m.frames = m.payload := List.map_inj_left.mp hpayloads
    rw [hmerge, List.length_nil,
      mergeFits_conversation conformantControl_opcode hbytes (Nat.zero_le _)] at hfits
    refine ⟨fun f hf => ⟨(hplain f hf).2, fun hnil => ?_⟩, fun m hm hrest => ?_⟩
    · refine ⟨(hplain f hf).1.resolve_left (not_not_intro hnil), ?_⟩
      rcases interleaved.mem hf with hframe | hcontrol
      · obtain ⟨m, hm, hfm⟩ := List.mem_flatMap.mp hframe
        exact absurd hnil (Message.nonempty_of_leftOver (hmessages m hm) f hfm)
      · exact hcontrol.2.1
    · rw [← hmessages m hm]
      exact hfits m hm hrest
  · rintro ⟨hframes, hmsgs⟩
    have hnonempty : ∀ m ∈ msgs, ∀ f ∈ m.frames, f.payload ≠ [] := by
      intro m hm f hf hnil
      have hmem := interleaved.frame_mem (List.mem_flatMap.mpr ⟨m, hm, hf⟩)
      have hdata := m.frames_op f hf
      rcases ((hframes f hmem).2 hnil).2 with h | h <;> rw [h] at hdata <;> omega
    have units : ∀ u ∈ pieces.map WireFrame.encode, receiver.IsUnit u := by
      refine isUnit_of_plain fun f hf => ⟨?_, (hframes f hf).1⟩
      by_cases hnil : f.payload = []
      · exact Or.inr ((hframes f hf).2 hnil).1
      · exact Or.inl hnil
    have hleft : ∀ m ∈ msgs, leftOver m.frames = m.payload := fun m hm =>
      Message.leftOver_of_nonempty (hnonempty m hm)
    have fits : MergeFits hd.view.merge.length (pieces.map WireFrame.encode) := by
      rw [hmerge, List.length_nil,
        mergeFits_conversation conformantControl_opcode hbytes (Nat.zero_le _)]
      intro m hm hrest
      rw [hleft m hm]
      exact hmsgs m hm hrest
    obtain ⟨hhalt, -, hcounts, hdeliver⟩ :=
      run_units_deliver (s := hd.view) allocated.parseState_eq units fits
    have hfinish : finish (receiver.run hd.view ([] ++ encodeAll pieces)).halt = some ([], []) := by
      rw [List.nil_append, encodeAll, hhalt]
      rfl
    obtain ⟨trace, hcall, -, hpasses, -⟩ := onReadWebsocket_ok endpoint stands
      (encodeAll_ne_nil nonempty) hfinish
    rw [List.length_nil, countFrom_zero, List.nil_append, List.append_nil, encodeAll] at hpasses
    refine ⟨trace, hcall, ?_, ?_⟩
    · rw [hpasses, hcounts, List.map_map]
      rfl
    · rw [Trace.events, hpasses, hdeliver, deliver_conversation conformantControl_opcode hbytes]
      exact List.map_congr_left hleft

end Reading

/-- A text message in two masked fragments with an empty pong between them. -/
theorem readsConversation_iff_fragments :
    ReadsConversation .server (newHandle .server)
        [⟨false, 1, some fun _ => 0x11, [0x61]⟩, ⟨true, 10, none, []⟩,
          ⟨true, 0, some fun _ => 0x22, [0x62]⟩]
        [⟨false, ⟨some fun _ => 0x11, [0x61]⟩, [⟨some fun _ => 0x22, [0x62]⟩]⟩] ↔
      Readable
        [⟨false, 1, some fun _ => 0x11, [0x61]⟩, ⟨true, 10, none, []⟩,
          ⟨true, 0, some fun _ => 0x22, [0x62]⟩]
        [⟨false, ⟨some fun _ => 0x11, [0x61]⟩, [⟨some fun _ => 0x22, [0x62]⟩]⟩] :=
  readsConversation_iff (newHandle_allocated .server)
    (.frame _ (.control _ ⟨rfl, Or.inr rfl, by decide⟩ (.frame _ .nil))) (by simp)
    (by simp)

/-- An empty ping with a key, in front of a one-byte text message: the key is read as frames. -/
theorem masked_empty_ping_misread :
    Interleaved ConformantControl
        ([(⟨false, ⟨none, [0x61]⟩, []⟩ : Message)].flatMap Message.frames)
        [⟨true, 9, some fun _ => 0x11, []⟩, ⟨true, 1, none, [0x61]⟩] ∧
      ¬ ReadsConversation .server (newHandle .server)
        [⟨true, 9, some fun _ => 0x11, []⟩, ⟨true, 1, none, [0x61]⟩]
        [⟨false, ⟨none, [0x61]⟩, []⟩] := by
  refine ⟨.control _ ⟨rfl, Or.inl rfl, by decide⟩ (.frame _ .nil), ?_⟩
  intro reads
  obtain ⟨hplain, -⟩ := reads.plain (newHandle_allocated .server) (by simp) (by simp)
  obtain ⟨hempty | hkey, -⟩ := hplain _ (List.mem_cons_self ..)
  · exact hempty rfl
  · cases hkey

end AnotherWs
