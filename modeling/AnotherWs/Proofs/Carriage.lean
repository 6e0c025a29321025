/-
Module: AnotherWs.Proofs.Carriage
Purpose: Which messages a stream of frames carries, as a property of its bytes, and that the receiver
  hears exactly these. Conversations whose last message may still be open carry their messages.
Trusted boundary: none
Main exports: Carries, carries_iff, Conversation, Conversation.carries
-/
import AnotherWs.Proofs.Conformance
import AnotherWs.Proofs.Peer

namespace AnotherWs

open Framing

/-- The stream is a number of whole frames, none of which closes, and the beginning of another one. The
frames fit the buffers and deliver the messages. -/
def Carries (stream : Bytes) (messages : List Bytes) : Prop :=
  ∃ us rest, stream = us.flatten ++ rest ∧ (∀ u ∈ us, receiver.IsUnit u) ∧
    (∀ u ∈ us, opcode u ≠ 8) ∧ frameScan rest = .more ∧ rest.length ≤ 2 ^ 31 ∧ MergeFits 0 us ∧
    deliver [] us = messages

/-- **What a stream carries** is what a receiver without fragments hears of it. -/
theorem carries_iff {s : HandleView} (fresh : s.merge = []) {stream : Bytes} {messages : List Bytes} :
    Carries stream messages ↔
      ∃ p', (receiver.run s stream).halt = .waiting p' ∧
        .twCloseClient ∉ (receiver.run s stream).events.flatMap Prod.snd ∧
        payloads ((receiver.run s stream).events.flatMap Prod.snd) = messages := by
  have hsize : s.merge.length = 0 := by rw [fresh]; rfl
  constructor
  · rintro ⟨us, rest, rfl, hunits, hopen, hmore, hsmall, hfits, hdeliver⟩
    obtain ⟨s', out, hall⟩ := handleAll_isSome (s := s) hunits (by rwa [hsize])
    obtain ⟨-, hpayloads, -, -, -⟩ := handleAll_deliver hunits hall (by omega)
    rw [fresh, hdeliver] at hpayloads
    have hrun := Decoder.run_units (D := receiver) rest hunits hall
    rw [Decoder.run_more (D := receiver) hmore, if_pos (show rest.length ≤ receiver.limit from hsmall)]
      at hrun
    have hevents : (receiver.run s (us.flatten ++ rest)).events = out := by
      rw [hrun, Run.after_events, List.append_nil]
    rw [hevents]
    refine ⟨rest, by rw [hrun]; rfl, ?_, hpayloads⟩
    intro hclose
    obtain ⟨u, hu, hop⟩ := (handleAll_closes_iff hunits hall).mp hclose
    exact hopen u hu hop
  · rintro ⟨p', hhalt, hopen, hpayloads⟩
    obtain ⟨us, rest, hsplit, hunits, hall, hstuck⟩ := receiver.run_split s stream
    obtain ⟨-, hdeliver, -, hfits, -⟩ := handleAll_deliver hunits hall (by omega)
    rw [hhalt] at hstuck
    cases hstuck with
    | waiting scan fits =>
        refine ⟨us, p', hsplit, hunits, ?_, scan, fits, hsize ▸ hfits, ?_⟩
        · intro u hu hop
          exact hopen ((handleAll_closes_iff hunits hall).mpr ⟨u, hu, hop⟩)
        · rw [← hpayloads, hdeliver, fresh]

/-- Nothing carries no message. -/
theorem Carries.of_nil {messages : List Bytes} (h : Carries [] messages) : messages = [] := by
  obtain ⟨-, -, -, hpayloads⟩ := (carries_iff (s := (newHandle .client).view)
    (newHandle_allocated .client).mergeBuf_empty).mp h
  rw [Decoder.run_nil] at hpayloads
  exact hpayloads.symm

/-! ### Conversations -/

/-- Messages that fit leave room for what fits behind them. -/
theorem mergeFits_messages_append {msgs : List Message} {size : Nat} (start : size ≤ 2 ^ 31)
    (fits : ∀ m ∈ msgs, m.rest ≠ [] → (leftOver m.frames).length ≤ 2 ^ 31) {us : List Bytes}
    (behind : ∀ size ≤ 2 ^ 31, MergeFits size us) :
    MergeFits size ((msgs.flatMap Message.frames).map WireFrame.encode ++ us) := by
  induction msgs generalizing size with
  | nil => exact behind size start
  | cons m msgs ih =>
      rw [List.forall_mem_cons] at fits
      rw [List.flatMap_cons, List.map_append, List.append_assoc, m.mergeFits_frames _ start]
      apply ih ?_ fits.2
      split
      · exact start
      · exact fits.1 ‹_›

/-- Frames without FIN deliver nothing. -/
theorem deliver_unfinished {us : List Bytes} (h : ∀ u ∈ us, isFinal u = false) (merge : Bytes) :
    deliver merge us = [] := by
  induction us generalizing merge with
  | nil => rfl
  | cons u us ih =>
      rw [List.forall_mem_cons] at h
      have hstep : (deliverStep merge u).2 = [] := by
        unfold deliverStep
        rw [h.1]
        split
        · rfl
        · split <;> rfl
      rw [deliver, hstep, ih h.2]
      rfl

/-- Frames fit when all that they leave does. -/
theorem mergeFits_of_total {us : List Bytes} {size : Nat}
    (total : size + (us.flatMap frameContent).length ≤ 2 ^ 31) : MergeFits size us := by
  induction us generalizing size with
  | nil => exact total
  | cons u us ih =>
      rw [List.flatMap_cons, List.length_append] at total
      have hstep : mergeStep size u ≤ size + (frameContent u).length := by
        unfold mergeStep
        split
        · exact Nat.le_refl _
        · split <;> omega
      exact ⟨by omega, ih (by omega)⟩

/-- Before the last fragment there is no FIN. -/
theorem continuationFrames_unfinished {gs : List Fragment} {begun rest : List WireFrame}
    {next : WireFrame} (h : continuationFrames gs = begun ++ next :: rest) :
    ∀ f ∈ begun, f.fin = false := by
  fun_induction continuationFrames gs generalizing begun with
  | case1 => exact absurd h.symm (by simp)
  | case2 last =>
      cases begun with
      | nil => exact fun f hf => absurd hf List.not_mem_nil
      | cons f begun => simp at h
  | case3 fragment more gs ih =>
      cases begun with
      | nil => exact fun f hf => absurd hf List.not_mem_nil
      | cons f begun =>
          rw [List.cons_append, List.cons.injEq] at h
          exact List.forall_mem_cons.mpr ⟨h.1 ▸ rfl, ih h.2⟩

/-- The first fragments of a message that is not complete. -/
def Begun (begun : List WireFrame) : Prop :=
  ∃ (m : Message) (next : WireFrame) (rest : List WireFrame), m.frames = begun ++ next :: rest

theorem Begun.op {begun : List WireFrame} (h : Begun begun) : ∀ f ∈ begun, f.op.val ≤ 2 := by
  obtain ⟨m, next, rest, hframes⟩ := h
  intro f hf
  exact m.frames_op f (hframes ▸ List.mem_append_left _ hf)

/-- No fragment of it carries FIN. -/
theorem Begun.unfinished {begun : List WireFrame} (h : Begun begun) : ∀ f ∈ begun, f.fin = false := by
  obtain ⟨m, next, rest, hframes⟩ := h
  cases begun with
  | nil => exact nofun
  | cons f begun =>
      rw [Message.frames, List.cons_append, List.cons.injEq] at hframes
      refine List.forall_mem_cons.mpr ⟨?_, continuationFrames_unfinished hframes.2⟩
      rw [← hframes.1]
      show m.rest.isEmpty = false
      cases hrest : m.rest with
      | nil =>
          have hnil := hframes.2
          rw [hrest] at hnil
          exact absurd hnil.symm (by simp [continuationFrames])
      | cons g gs => rfl

/-- It fits when its fragments together do. -/
theorem Begun.mergeFits {begun : List WireFrame} (h : Begun begun)
    (fits : (leftOver begun).length ≤ 2 ^ 31) {size : Nat} (start : size ≤ 2 ^ 31) :
    MergeFits size (begun.map WireFrame.encode) := by
  have hunfinished := h.unfinished
  obtain ⟨m, next, rest, hframes⟩ := h
  cases begun with
  | nil => exact start
  | cons f begun =>
      rw [Message.frames, List.cons_append, List.cons.injEq] at hframes
      have hstep : mergeStep size f.encode = (frameContent f.encode).length := by
        rw [mergeStep_data size (hframes.1 ▸ m.firstFrame_op), hunfinished f (List.mem_cons_self ..)]
        rfl
      refine ⟨start, ?_⟩
      rw [hstep]
      apply mergeFits_of_total
      rw [leftOver_cons, List.length_append] at fits
      rw [List.flatMap_map]
      exact fits

/-- What a peer may say: messages, perhaps the beginning of another one, and pings and pongs anywhere
between the fragments. No frame is empty, and none closes. -/
structure Conversation where
  pieces : List WireFrame
  msgs : List Message
  begun : List WireFrame
  unfinished : Begun begun
  interleaved : Interleaved ConformantControl (msgs.flatMap Message.frames ++ begun) pieces
  nonempty : ∀ f ∈ pieces, f.payload ≠ []

namespace Conversation

variable (c : Conversation)

/-- The frames on the wire. -/
def bytes : Bytes := encodeAll c.pieces

/-- What the messages say. -/
def messages : List Bytes := c.msgs.map Message.payload

/-- Frames and fragmented messages fit the buffers. -/
structure Fits : Prop where
  frames : ∀ f ∈ c.pieces, f.encode.length ≤ 2 ^ 31
  msgs : ∀ m ∈ c.msgs, m.rest ≠ [] → m.payload.length ≤ 2 ^ 31
  begun : (c.begun.flatMap WireFrame.payload).length ≤ 2 ^ 31

/-- No frame of a conversation closes. -/
theorem opcode_ne : ∀ u ∈ c.pieces.map WireFrame.encode, opcode u ≠ 8 := by
  intro u hu
  obtain ⟨f, hf, rfl⟩ := List.mem_map.mp hu
  rw [opcode_of_encode]
  rcases c.interleaved.mem hf with hframe | ⟨-, hop, -⟩
  · have hle : f.op.val ≤ 2 := by
      rcases List.mem_append.mp hframe with hmsg | hbegun
      · obtain ⟨m, -, hfm⟩ := List.mem_flatMap.mp hmsg
        exact m.frames_op f hfm
      · exact c.unfinished.op f hbegun
    omega
  · rcases hop with h | h <;> rw [h] <;> decide

/-- **A conversation that fits** carries its messages. -/
theorem carries (fits : c.Fits) : Carries c.bytes c.messages := by
  have hbytes : Interleaved (fun u => ∃ f, ConformantControl f ∧ f.encode = u)
      ((c.msgs.flatMap Message.frames).map WireFrame.encode ++ c.begun.map WireFrame.encode)
      (c.pieces.map WireFrame.encode) := by
    rw [← List.map_append]
    exact c.interleaved.map fun f hf => ⟨f, hf, rfl⟩
  have hnonempty : ∀ f ∈ c.msgs.flatMap Message.frames ++ c.begun, f.payload ≠ [] := fun f hf =>
    c.nonempty f (c.interleaved.frame_mem hf)
  have hleft : ∀ m ∈ c.msgs, leftOver m.frames = m.payload := fun m hm =>
    Message.leftOver_of_nonempty fun f hf =>
      hnonempty f (List.mem_append_left _ (List.mem_flatMap.mpr ⟨m, hm, hf⟩))
  refine ⟨c.pieces.map WireFrame.encode, [], (List.append_nil _).symm, ?_, c.opcode_ne, rfl,
    Nat.zero_le _, ?_, ?_⟩
  · exact isUnit_of_plain fun f hf => ⟨Or.inl (c.nonempty f hf), fits.frames f hf⟩
  · rw [mergeFits_interleaved conformantControl_opcode hbytes]
    apply mergeFits_messages_append (Nat.zero_le _)
    · intro m hm hrest
      rw [hleft m hm]
      exact fits.msgs m hm hrest
    · intro size hsize
      apply c.unfinished.mergeFits ?_ hsize
      rw [leftOver_eq_payload fun f hf => hnonempty f (List.mem_append_right _ hf)]
      exact fits.begun
  · obtain ⟨merge', hdeliver⟩ :=
      deliver_messages_append c.msgs [] (c.begun.map WireFrame.encode)
    have hbegun : ∀ u ∈ c.begun.map WireFrame.encode, isFinal u = false := by
      intro u hu
      obtain ⟨f, hf, rfl⟩ := List.mem_map.mp hu
      rw [isFinal_of_encode, c.unfinished.unfinished f hf]
    rw [deliver_interleaved conformantControl_opcode hbytes, hdeliver, deliver_unfinished hbegun,
      List.append_nil, messages]
    exact List.map_congr_left hleft

end Conversation

end AnotherWs
