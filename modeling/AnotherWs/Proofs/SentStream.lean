/-
Module: AnotherWs.Proofs.SentStream
Purpose: The stream that an endpoint writes when it sends messages. No encoding of a message begins with
  another one, and of a stream that breaks off the peer hears exactly the messages that are whole.
Trusted boundary: none
Main exports: Sendable, encoding, sendable_encodes, encoding_prefix_free,
  front_of_messages, CarriesData, carries_sent, hears_sent
-/
import AnotherWs.Proofs.Carriage
import AnotherWs.Proofs.RoundTrip

namespace AnotherWs

open Framing

/-- A message that `sendWebsocketMsg` sends: its opcode and its bytes. -/
structure Sendable (m : UInt8 × Bytes) : Prop where
  op_eq : m.1 = wsTextFrame ∨ m.1 = wsBinFrame
  nonempty : m.2 ≠ []
  small : (encodeAll (messageFrames m.1 m.2)).length ≤ 2 ^ 31

/-- A text of one letter can be sent. -/
theorem sendable_letter (c : UInt8) : Sendable (1, [c]) where
  op_eq := Or.inl rfl
  nonempty := List.cons_ne_nil _ _
  small := by
    have hframes : messageFrames 1 [c] = [⟨true, 1, none, [c]⟩] := by
      rw [messageFrames, if_neg (List.cons_ne_nil _ _), fragmentFrames_last]
      · rfl
      · exact show 1 ≤ dataFrameMaxLen by decide
    rw [hframes, encodeAll_cons, encodeAll_nil, List.append_nil]
    exact show 3 ≤ 2 ^ 31 by decide

/-- The bytes of a message on the wire. -/
def encoding (m : UInt8 × Bytes) : Bytes := encodeAll (messageFrames m.1 m.2)

/-- The encoder writes the encoding. -/
theorem sendable_encodes {m : UInt8 × Bytes} (sendable : Sendable m) :
    ∃ buf, generateWebsocketFrame (membufInit 128) m.2 m.1 = .ok buf ∧ buf.content = encoding m := by
  have hlt : m.1.toNat < 16 := by
    rcases sendable.op_eq with h | h <;> rw [h] <;> decide
  obtain ⟨buf, hcall, hcontent⟩ := generateWebsocketFrame_ok (membufInit 128) m.2 hlt (by
    have := sendable.small
    rw [show (membufInit 128).size = 0 from rfl]
    omega)
  exact ⟨buf, hcall, by rw [hcontent, membufInit_content, List.nil_append, encoding]⟩

/-! ### Frames of one message -/

/-- Fragments end with FIN. -/
theorem fragmentFrames_final (op : UInt8) (first : Bool) (data : Bytes) :
    ∃ front last, fragmentFrames op first data = front ++ [last] ∧ last.fin = true := by
  fun_induction fragmentFrames op first data with
  | case1 first data op' more ih =>
      obtain ⟨front, last, hframes, hfin⟩ := ih
      exact ⟨_ :: front, last, by rw [hframes, List.cons_append], hfin⟩
  | case2 first data op' whole => exact ⟨[], _, rfl, rfl⟩

section Message

variable {m m' : UInt8 × Bytes}

/-- The frames of a message on the wire. -/
def units (m : UInt8 × Bytes) : List Bytes := (messageFrames m.1 m.2).map WireFrame.encode

theorem encoding_eq (m : UInt8 × Bytes) : encoding m = (units m).flatten := rfl

/-- The frames are those of a message of the grammar. -/
theorem Sendable.message (sendable : Sendable m) :
    ∃ msg : Message, messageFrames m.1 m.2 = msg.frames ∧ msg.payload = m.2 ∧
      ∀ g ∈ msg.fragments, g.payload ≠ [] :=
  messageFrames_eq_message sendable.op_eq sendable.nonempty

/-- Every frame says something and fits a buffer. -/
theorem Sendable.plain (sendable : Sendable m) :
    ∀ f ∈ messageFrames m.1 m.2, f.payload ≠ [] ∧ f.encode.length ≤ 2 ^ 31 := by
  obtain ⟨msg, hframes, -, hnonempty⟩ := sendable.message
  intro f hf
  refine ⟨?_, Nat.le_trans (encode_length_le hf) sendable.small⟩
  have hmem : f.payload ∈ msg.fragments.map Fragment.payload := by
    rw [← msg.frames_payload]
    exact List.mem_map_of_mem (hframes ▸ hf)
  obtain ⟨g, hg, heq⟩ := List.mem_map.mp hmem
  rw [← heq]
  exact hnonempty g hg

theorem Sendable.isUnit (sendable : Sendable m) : ∀ u ∈ units m, receiver.IsUnit u :=
  isUnit_of_plain fun f hf => ⟨Or.inl (sendable.plain f hf).1, (sendable.plain f hf).2⟩

theorem Sendable.encoding_ne_nil (sendable : Sendable m) : encoding m ≠ [] := by
  obtain ⟨front, last, hframes, -⟩ := fragmentFrames_final m.1 true m.2
  intro hnil
  have hle := length_le_encodeAll (messageFrames m.1 m.2)
  rw [← encoding, hnil, messageFrames, if_neg sendable.nonempty, hframes, List.length_append] at hle
  simp at hle

/-- What stands in front of a frame of a message is the beginning of the message. -/
theorem Sendable.begun (sendable : Sendable m) {us ws : List Bytes} (split : units m = us ++ ws)
    (more : ws ≠ []) : ∃ begun, Begun begun ∧ us = begun.map WireFrame.encode ∧
      (leftOver begun).length ≤ 2 ^ 31 := by
  obtain ⟨msg, hframes, -, -⟩ := sendable.message
  obtain ⟨begun, rest, hcut, hus, hws⟩ := List.map_eq_append_iff.mp split
  cases rest with
  | nil => exact absurd hws.symm more
  | cons next rest =>
      refine ⟨begun, ⟨msg, next, rest, by rw [← hframes, hcut]⟩, hus.symm, ?_⟩
      have hleft := leftOver_length_le begun
      have hsmall := sendable.small
      rw [hcut, encodeAll_append, List.length_append] at hsmall
      omega

/-- **A code.** An encoding that begins with another one is that one. -/
theorem encoding_prefix_free (sendable : Sendable m) (sendable' : Sendable m') {x : Bytes}
    (same : encoding m ++ x = encoding m') : x = [] := by
  obtain ⟨ws, hsplit, rfl⟩ := Scanner.units_cancel (S := frameScanner)
    (fun u hu => (sendable.isUnit u hu).1) (fun u hu => (sendable'.isUnit u hu).1) same
  cases ws with
  | nil => rfl
  | cons w ws =>
      -- the last frame of `m` carries FIN, and would stand inside `m'`
      exfalso
      obtain ⟨begun, hbegun, hus, -⟩ := sendable'.begun hsplit (List.cons_ne_nil w ws)
      obtain ⟨front, last, hframes, hfin⟩ := fragmentFrames_final m.1 true m.2
      have hlast : last.encode ∈ units m := by
        refine List.mem_map_of_mem ?_
        rw [messageFrames, if_neg sendable.nonempty, hframes]
        exact List.mem_append_right front (List.mem_singleton_self last)
      rw [hus] at hlast
      obtain ⟨f, hf, hencode⟩ := List.mem_map.mp hlast
      have hopen := hbegun.unfinished f hf
      rw [← isFinal_of_encode, hencode, isFinal_of_encode, hfin] at hopen
      cases hopen

end Message

/-! ### Messages one after the other -/

/-- The encodings of some messages are the encoded frames of all of them. -/
theorem encoding_flatten (msgs : List (UInt8 × Bytes)) :
    (msgs.map encoding).flatten = encodeAll (sentFrames msgs) := by
  induction msgs with
  | nil => rfl
  | cons m msgs ih =>
      have hsent : sentFrames (m :: msgs) = messageFrames m.1 m.2 ++ sentFrames msgs := rfl
      rw [List.map_cons, List.flatten_cons, ih, hsent, encodeAll_append]
      rfl

/-- Nothing, or the front of a message. -/
def Unfinished (part : Bytes) : Prop :=
  part = [] ∨ ∃ m rest, Sendable m ∧ part ++ rest = encoding m ∧ rest ≠ []

/-- The front of some messages is the first ones of them and nothing, or the front of the next one. -/
theorem front_of_messages {said : List (UInt8 × Bytes)} (sendable : ∀ m ∈ said, Sendable m)
    {wire : Bytes} (front : wire <+: (said.map encoding).flatten) :
    ∃ (told : List (UInt8 × Bytes)) (part : Bytes), told <+: said ∧ Unfinished part ∧
      wire = (told.map encoding).flatten ++ part := by
  induction said generalizing wire with
  | nil => exact ⟨[], [], List.prefix_refl _, Or.inl rfl, List.prefix_nil.mp front⟩
  | cons m said ih =>
      obtain ⟨x, hx⟩ := front
      rw [List.map_cons, List.flatten_cons] at hx
      rcases List.append_eq_append_iff.mp hx with ⟨rest, hm, -⟩ | ⟨behind, hw, hrest⟩
      · by_cases hrest : rest = []
        · rw [hrest, List.append_nil] at hm
          exact ⟨[m], [], ⟨said, rfl⟩, Or.inl rfl, by simp [hm]⟩
        · exact ⟨[], wire, List.nil_prefix, Or.inr ⟨m, rest, sendable m List.mem_cons_self,
            hm.symm, hrest⟩, rfl⟩
      · obtain ⟨told, part, ⟨more, hsaid⟩, hpart, hbehind⟩ :=
          ih (fun d hd => sendable d (List.mem_cons_of_mem _ hd)) ⟨x, hrest.symm⟩
        refine ⟨m :: told, part, ⟨more, by rw [List.cons_append, hsaid]⟩, hpart, ?_⟩
        rw [hw, hbehind, List.map_cons, List.flatten_cons, List.append_assoc]

/-- The stream is a number of whole data frames, and the beginning of another frame. The frames fit the
buffers and deliver the messages. -/
def CarriesData (stream : Bytes) (messages : List Bytes) : Prop :=
  ∃ us rest, stream = us.flatten ++ rest ∧ (∀ u ∈ us, receiver.IsUnit u) ∧
    (∀ u ∈ us, opcode u ≤ 2) ∧ frameScan rest = .more ∧ rest.length ≤ 2 ^ 31 ∧ MergeFits 0 us ∧
    deliver [] us = messages

theorem CarriesData.carries {stream : Bytes} {messages : List Bytes}
    (data : CarriesData stream messages) : Carries stream messages := by
  obtain ⟨us, rest, hsplit, hunits, hdata, hopen, hshort, hfits, hdeliver⟩ := data
  refine ⟨us, rest, hsplit, hunits, fun u hu h => ?_, hopen, hshort, hfits, hdeliver⟩
  have := hdata u hu
  omega

/-- Data frames are not answered. -/
theorem CarriesData.unanswered {s : HandleView} (fresh : s.merge = []) {stream : Bytes}
    {messages : List Bytes} (data : CarriesData stream messages) (bytes : Bytes) :
    .sendDataWithAsync bytes ∉ (receiver.run s stream).events.flatMap Prod.snd := by
  obtain ⟨us, rest, rfl, hunits, hdata, hopen, hshort, hfits, -⟩ := data
  have hsize : s.merge.length = 0 := by rw [fresh]; rfl
  obtain ⟨s', out, hall⟩ := handleAll_isSome (s := s) hunits (by rwa [hsize])
  have hrun := Decoder.run_units (D := receiver) rest hunits hall
  rw [Decoder.run_more (D := receiver) hopen] at hrun
  rw [hrun, Run.after_events, List.append_nil]
  have hagainst := Decoder.handleAll_forall₂ (D := receiver)
    (P := fun (u : Bytes) (pass : Nat × List Event) =>
      opcode u ≠ 9 ↔ ∀ bytes, .sendDataWithAsync bytes ∉ pass.2)
    (by
      intro s u s' events hunit hhandle
      have hlen := two_le_of_unit hunit.1
      obtain ⟨calls, hdispatch, rfl⟩ := receiver_handle_eq_some hhandle
      refine ⟨_, rfl, ?_⟩
      cases dispatch_cases (by omega) hdispatch with
      | continuation op fits =>
          rw [op]
          split <;> simp
      | whole flag op flag_eq final | first flag op flag_eq final =>
          rcases op with op | op <;> simp [op]
      | close op => simp [op]
      | ping op => simp [op]
      | other op noClose noPing => simp [noPing]) hunits hall
  intro hmem
  obtain ⟨pass, hpass, hcall⟩ := List.mem_flatMap.mp hmem
  refine (forall₂_forall_iff hagainst fun u pass h => h).mp (fun u hu h => ?_) pass hpass bytes hcall
  have := hdata u hu
  omega

/-- **What a peer hears.** A stream of messages that breaks off inside one carries those that are
whole. -/
theorem carries_sent {msgs : List (UInt8 × Bytes)} (sendable : ∀ m ∈ msgs, Sendable m) {part : Bytes}
    (unfinished : Unfinished part) :
    CarriesData ((msgs.map encoding).flatten ++ part) (msgs.map Prod.snd) := by
  -- the frames of the last message that have arrived, and what there is of the next one
  obtain ⟨begun, p, hbegun, hfits, hpart, hopen, hunits, hshort⟩ :
      ∃ begun p, Begun begun ∧ (leftOver begun).length ≤ 2 ^ 31 ∧
        part = (begun.map WireFrame.encode).flatten ++ p ∧ frameScan p = .more ∧
        (∀ u ∈ begun.map WireFrame.encode, receiver.IsUnit u) ∧ p.length ≤ 2 ^ 31 := by
    rcases unfinished with rfl | ⟨m, rest, hm, hcut, hrest⟩
    · exact ⟨[], [], ⟨⟨false, ⟨none, []⟩, []⟩, _, _, rfl⟩, Nat.zero_le _, rfl, rfl,
        (fun u hu => absurd hu List.not_mem_nil), Nat.zero_le _⟩
    · rw [encoding_eq] at hcut
      obtain ⟨us, p, ws, hsplit, hfront, hopen, hbehind⟩ := Scanner.front_of_units
        (S := frameScanner) (fun u hu => (hm.isUnit u hu).1) hcut
      have hmore : ws ≠ [] := by
        rintro rfl
        exact hrest (List.append_eq_nil_iff.mp hbehind).2
      obtain ⟨begun, hbegun, rfl, hleft⟩ := hm.begun hsplit hmore
      refine ⟨begun, p, hbegun, hleft, hfront, hopen, ?_, ?_⟩
      · intro u hu
        exact hm.isUnit u (hsplit ▸ List.mem_append_left _ hu)
      · have hsmall := hm.small
        have hlen := congrArg List.length hcut
        rw [← encoding_eq, encoding, List.length_append, hfront, List.length_append] at hlen
        omega
  obtain ⟨ms, hframes, hpayloads, hnonempty, hfrom⟩ :=
    sentFrames_eq_messages (fun m hm => (sendable m hm).op_eq) (fun m hm => (sendable m hm).nonempty)
  have hleft : ∀ m ∈ ms, leftOver m.frames = m.payload := fun m hm =>
    Message.leftOver_frames (hnonempty m hm)
  refine ⟨(ms.flatMap Message.frames).map WireFrame.encode ++ begun.map WireFrame.encode, p, ?_, ?_, ?_,
    hopen, hshort, ?_, ?_⟩
  · rw [encoding_flatten, hframes, hpart, List.flatten_append, List.append_assoc]
    rfl
  · intro u hu
    rcases List.mem_append.mp hu with hu | hu
    · obtain ⟨f, hf, rfl⟩ := List.mem_map.mp hu
      obtain ⟨m, hm, hfm⟩ := List.mem_flatMap.mp hf
      obtain ⟨sent, hsent, heq⟩ := hfrom m hm
      exact (sendable sent hsent).isUnit _ (List.mem_map_of_mem (heq ▸ hfm))
    · exact hunits u hu
  · have hdata : ∀ f : WireFrame, f.op.val ≤ 2 → opcode f.encode ≤ 2 := by
      intro f hf
      rwa [opcode_of_encode]
    intro u hu
    rcases List.mem_append.mp hu with hu | hu
    · obtain ⟨f, hf, rfl⟩ := List.mem_map.mp hu
      obtain ⟨m, -, hfm⟩ := List.mem_flatMap.mp hf
      exact hdata f (m.frames_op f hfm)
    · obtain ⟨f, hf, rfl⟩ := List.mem_map.mp hu
      exact hdata f (hbegun.op f hf)
  · apply mergeFits_messages_append (Nat.zero_le _)
    · intro m hm _
      obtain ⟨sent, hsent, heq⟩ := hfrom m hm
      exact Nat.le_trans (leftOver_length_le m.frames) (heq ▸ (sendable sent hsent).small)
    · intro size hsize
      exact hbegun.mergeFits hfits hsize
  · have hquiet : ∀ u ∈ begun.map WireFrame.encode, isFinal u = false := by
      intro u hu
      obtain ⟨f, hf, rfl⟩ := List.mem_map.mp hu
      rw [isFinal_of_encode, hbegun.unfinished f hf]
    obtain ⟨merge', hdeliver⟩ := deliver_messages_append ms [] (begun.map WireFrame.encode)
    rw [hdeliver, deliver_unfinished hquiet, List.append_nil, ← hpayloads]
    exact List.map_congr_left hleft

/-- The receive loop of a fresh handle delivers the whole messages of such a stream and closes nothing,
however the stream is cut. -/
theorem hears_sent (endpoint : EndpointType) {hd : WebsocketHandle} (fresh : Fresh hd)
    {chunks : List Bytes} {stream : Bytes} (cut : chunks.flatten = stream)
    (nonempty : ∀ chunk ∈ chunks, chunk ≠ []) {msgs : List (UInt8 × Bytes)}
    (sendable : ∀ m ∈ msgs, Sendable m) {part : Bytes} (unfinished : Unfinished part)
    (stream_eq : stream = (msgs.map encoding).flatten ++ part) :
    ∃ hd' events, feedChunks endpoint hd chunks = .ok (hd', events) ∧ .twCloseClient ∉ events ∧
      payloads events = msgs.map Prod.snd := by
  obtain ⟨p', hhalt, hopen, hpayloads⟩ :=
    (@carries_iff hd.view fresh.mergeBuf_empty _ _).mp (carries_sent sendable unfinished).carries
  rw [← stream_eq, ← cut] at hhalt hopen hpayloads
  have stands : Stands hd hd.view [] := .of_complete fresh.parseState_eq
  obtain ⟨hd', hfeed, -⟩ := feedChunks_ok endpoint stands nonempty hhalt
  exact ⟨hd', _, hfeed, hopen, hpayloads⟩

end AnotherWs
