/-
Module: AnotherWs.Proofs.TypeFlag
Purpose: The type argument of onData over whole connections. The flags of both buffers are only ever
  or-ed into, so the type of an earlier message shows in the later ones.
Trusted boundary: none
Main exports: flagsOf, handleAll_flags, TypesRight, Message.Mislabels, typesRight_iff,
  binary_after_text
-/
import AnotherWs.Proofs.Callbacks
import AnotherWs.Proofs.Conversation

namespace AnotherWs

open Framing

/-- The flag that a text or binary frame sets. -/
def typeFlag (u : Bytes) : UInt8 := if opcode u = 1 then flagWebsocketText else flagWebsocketBin

/-- The flags of the two buffers after a frame, and the type argument when it is delivered. -/
def flagStep (flags : UInt8 × UInt8) (u : Bytes) : (UInt8 × UInt8) × List UInt8 :=
  if opcode u = 0 then (flags, if isFinal u then [flags.2] else [])
  else if opcode u = 1 ∨ opcode u = 2 then
    if isFinal u then ((flags.1 ||| typeFlag u, flags.2), [flags.1 ||| typeFlag u])
    else ((flags.1 ||| typeFlag u, flags.2 ||| typeFlag u), [])
  else (flags, [])

/-- The type arguments of a sequence of frames. -/
def flagsOf : UInt8 × UInt8 → List Bytes → List UInt8
  | _, [] => []
  | flags, u :: us => (flagStep flags u).2 ++ flagsOf (flagStep flags u).1 us

/-- The flags of the two buffers. -/
def HandleView.flags (s : HandleView) : UInt8 × UInt8 := (s.protoFlag, s.mergeFlag)

/-- A handled frame changes the flags and delivers with them as `flagStep` says. -/
theorem dispatch_flags {s s' : HandleView} {u : Bytes} {events : List Event} (h : 1 ≤ u.length)
    (handled : (s.accept u).dispatch = some (s', events)) :
    s'.flags = (flagStep s.flags u).1 ∧
      (onDataCalls events).map Prod.snd = (flagStep s.flags u).2 := by
  unfold flagStep
  cases dispatch_cases h handled with
  | continuation op fits =>
      rw [if_pos op]
      cases isFinal u with
      | true => exact ⟨rfl, rfl⟩
      | false => exact ⟨rfl, rfl⟩
  | whole flag op flag_eq final =>
      rw [if_neg (by omega), if_pos op, if_pos final, flag_eq]
      exact ⟨rfl, rfl⟩
  | first flag op flag_eq final =>
      rw [if_neg (by omega), if_pos op, final, if_neg Bool.false_ne_true, flag_eq]
      exact ⟨rfl, rfl⟩
  | close op | ping op | other op =>
      rw [if_neg (by omega), if_neg (by omega)]
      exact ⟨rfl, rfl⟩

/-- **Handled frames** deliver with the flags that `flagsOf` says. -/
theorem handleAll_flags {s s' : HandleView} {us : List Bytes} {out : List (Nat × List Event)}
    (units : ∀ u ∈ us, receiver.IsUnit u) (handled : receiver.handleAll s us = some (s', out)) :
    (onDataCalls (out.flatMap Prod.snd)).map Prod.snd = flagsOf s.flags us := by
  induction us generalizing s out with
  | nil =>
      cases handled
      rfl
  | cons u us ih =>
      obtain ⟨mid, first, more, hfirst, hmore, rfl⟩ := Decoder.handleAll_cons handled
      have hlen := two_le_of_unit (units u (List.mem_cons_self ..)).1
      obtain ⟨events, hdispatch, rfl⟩ := receiver_handle_eq_some hfirst
      obtain ⟨hflags, hcalls⟩ := dispatch_flags (by omega) hdispatch
      have hrest := ih (fun v hv => units v (List.mem_cons_of_mem _ hv)) hmore
      rw [List.flatMap_append, onDataCalls_append, List.map_append, hrest, hflags, flagsOf,
        List.flatMap_singleton, hcalls]

/-! ### Messages -/

theorem flagsOf_append (flags : UInt8 × UInt8) (us vs : List Bytes) :
    ∃ flags', flagsOf flags (us ++ vs) = flagsOf flags us ++ flagsOf flags' vs := by
  induction us generalizing flags with
  | nil => exact ⟨flags, rfl⟩
  | cons u us ih =>
      obtain ⟨flags', happend⟩ := ih (flagStep flags u).1
      exact ⟨flags', by rw [List.cons_append, flagsOf, happend, flagsOf, List.append_assoc]⟩

/-- A frame that ends a message. -/
def endsMessage (u : Bytes) : Bool := opcode u ≤ 2 && isFinal u

/-- There is one type argument for every message that ends. -/
theorem flagsOf_length (flags : UInt8 × UInt8) (us : List Bytes) :
    (flagsOf flags us).length = us.countP endsMessage := by
  induction us generalizing flags with
  | nil => rfl
  | cons u us ih =>
      have hstep : (flagStep flags u).2.length = if endsMessage u then 1 else 0 := by
        unfold flagStep endsMessage
        by_cases hzero : opcode u = 0
        · cases hfin : isFinal u <;> simp [hzero]
        · by_cases hdata : opcode u = 1 ∨ opcode u = 2
          · have hlow : opcode u ≤ 2 := by omega
            cases hfin : isFinal u <;> simp [hzero, hdata, hlow]
          · have hhigh : ¬ opcode u ≤ 2 := by omega
            simp [hzero, hdata, hhigh]
      rw [flagsOf, List.length_append, hstep, ih, List.countP_cons, Nat.add_comm]

theorem deliver_append (merge : Bytes) (us vs : List Bytes) :
    ∃ merge', deliver merge (us ++ vs) = deliver merge us ++ deliver merge' vs := by
  induction us generalizing merge with
  | nil => exact ⟨merge, rfl⟩
  | cons u us ih =>
      obtain ⟨merge', happend⟩ := ih (deliverStep merge u).1
      exact ⟨merge', by rw [List.cons_append, deliver, happend, deliver, List.append_assoc]⟩

/-- There is one payload for every message that ends. -/
theorem deliver_length (merge : Bytes) (us : List Bytes) :
    (deliver merge us).length = us.countP endsMessage := by
  induction us generalizing merge with
  | nil => rfl
  | cons u us ih =>
      have hstep : (deliverStep merge u).2.length = if endsMessage u then 1 else 0 := by
        unfold deliverStep endsMessage
        by_cases hzero : opcode u = 0
        · cases hfin : isFinal u <;> simp [hzero]
        · by_cases hdata : opcode u = 1 ∨ opcode u = 2
          · have hlow : opcode u ≤ 2 := by omega
            cases hfin : isFinal u <;> simp [hzero, hdata, hlow]
          · have hhigh : ¬ opcode u ≤ 2 := by omega
            simp [hzero, hdata, hhigh]
      rw [deliver, List.length_append, hstep, ih, List.countP_cons, Nat.add_comm]

/-- Control frames carry no type. -/
theorem flagsOf_interleaved {control : Bytes → Prop} {frames pieces : List Bytes}
    (hcontrol : ∀ c, control c → 3 ≤ opcode c) (h : Interleaved control frames pieces)
    (flags : UInt8 × UInt8) : flagsOf flags pieces = flagsOf flags frames := by
  induction h generalizing flags with
  | nil => rfl
  | frame f rest ih => simp [flagsOf, ih]
  | control c isControl rest ih =>
      have hop := hcontrol c isControl
      rw [flagsOf, flagStep, if_neg (by omega), if_neg (by omega)]
      exact ih flags

/-- The flag that names the type of a message. -/
def Message.typeFlag (m : Message) : UInt8 :=
  if m.binary then flagWebsocketBin else flagWebsocketText

/-- The buffer's flags after a message. -/
def Message.flagsAfter (m : Message) (flags : UInt8 × UInt8) : UInt8 × UInt8 :=
  (flags.1 ||| m.typeFlag, if m.rest = [] then flags.2 else flags.2 ||| m.typeFlag)

/-- The type argument of a message: of its only frame, or of the merge buffer. -/
def Message.flag (m : Message) (flags : UInt8 × UInt8) : UInt8 :=
  if m.rest = [] then (m.flagsAfter flags).1 else (m.flagsAfter flags).2

/-- The type arguments of some messages. -/
def messageFlags : UInt8 × UInt8 → List Message → List UInt8
  | _, [] => []
  | flags, m :: msgs => m.flag flags :: messageFlags (m.flagsAfter flags) msgs

theorem flagStep_continuation (flags : UInt8 × UInt8) {f : WireFrame} (h : f.op = 0) :
    flagStep flags f.encode = (flags, if f.fin then [flags.2] else []) := by
  rw [flagStep, opcode_of_encode, isFinal_of_encode,
    if_pos (show f.op.val = 0 from congrArg Fin.val h)]

/-- The fragments behind the first one are delivered with the merge buffer's flag. -/
theorem flagsOf_continuation (flags : UInt8 × UInt8) (us : List Bytes) {gs : List Fragment}
    (hne : gs ≠ []) :
    flagsOf flags ((continuationFrames gs).map WireFrame.encode ++ us) =
      flags.2 :: flagsOf flags us := by
  fun_induction continuationFrames gs with
  | case1 => exact absurd rfl hne
  | case2 last =>
      rw [List.map_singleton, List.singleton_append, flagsOf, flagStep_continuation flags rfl]
      rfl
  | case3 fragment next more ih =>
      rw [List.map_cons, List.cons_append, flagsOf, flagStep_continuation flags rfl]
      exact ih (List.cons_ne_nil _ _)

theorem Message.flagStep_first (m : Message) (flags : UInt8 × UInt8) :
    flagStep flags m.firstFrame.encode =
      (m.flagsAfter flags, if m.rest = [] then [m.flag flags] else []) := by
  have htype : AnotherWs.typeFlag m.firstFrame.encode = m.typeFlag := by
    rw [AnotherWs.typeFlag, Message.typeFlag, opcode_of_encode, firstFrame]
    cases m.binary <;> rfl
  have hop : opcode m.firstFrame.encode = 1 ∨ opcode m.firstFrame.encode = 2 := by
    rw [opcode_of_encode]
    exact m.firstFrame_op.imp (congrArg Fin.val) (congrArg Fin.val)
  rw [flagStep, if_neg (by omega), if_pos hop, isFinal_of_encode, htype, flag, flagsAfter]
  by_cases hrest : m.rest = []
  · rw [show m.firstFrame.fin = true by rw [firstFrame, hrest]; rfl]
    simp [hrest]
  · rw [show m.firstFrame.fin = false by simp [firstFrame, hrest]]
    simp [hrest]

/-- **A message is delivered with one type argument.** -/
theorem Message.flagsOf_frames (m : Message) (flags : UInt8 × UInt8) (us : List Bytes) :
    flagsOf flags (m.frames.map WireFrame.encode ++ us) =
      m.flag flags :: flagsOf (m.flagsAfter flags) us := by
  rw [frames, List.map_cons, List.cons_append, flagsOf, m.flagStep_first]
  by_cases hrest : m.rest = []
  · rw [hrest]
    simp [continuationFrames]
  · rw [flagsOf_continuation _ us hrest, if_neg hrest, List.nil_append, flag, if_neg hrest]

theorem flagsOf_messages (msgs : List Message) (flags : UInt8 × UInt8) :
    flagsOf flags ((msgs.flatMap Message.frames).map WireFrame.encode) = messageFlags flags msgs := by
  induction msgs generalizing flags with
  | nil => rfl
  | cons m msgs ih => rw [List.flatMap_cons, List.map_append, m.flagsOf_frames, ih, messageFlags]

theorem messageFlags_take (flags : UInt8 × UInt8) (msgs : List Message) (n : Nat) :
    (messageFlags flags msgs).take n = messageFlags flags (msgs.take n) := by
  induction msgs generalizing flags n with
  | nil => simp [messageFlags]
  | cons m msgs ih =>
      cases n with
      | zero => rfl
      | succ n => simp [messageFlags, ih]

/-! ### What a type argument says -/

/-- The type argument names the type of the message. -/
def Message.Typed (m : Message) (flag : UInt8) : Prop :=
  (flag &&& flagWebsocketText ≠ 0 ↔ m.binary = false) ∧
    (flag &&& flagWebsocketBin ≠ 0 ↔ m.binary = true)

/-- The onData calls are for the first of the messages, and each type argument names the type. -/
def TypesRight (msgs : List Message) (calls : List (Bytes × UInt8)) : Prop :=
  List.Forall₂ Message.Typed (msgs.take calls.length) (calls.map Prod.snd)

/-- The type of a message shows in the type argument of a later one: they differ, and the later one
has a single frame, or both have several. -/
def Message.Mislabels (earlier later : Message) : Prop :=
  earlier.binary ≠ later.binary ∧ (later.rest = [] ∨ earlier.rest ≠ [])

/-- The flag that a message must not carry. -/
def Message.otherFlag (m : Message) : UInt8 :=
  if m.binary then flagWebsocketText else flagWebsocketBin

theorem or_and_distrib (a b c : UInt8) : (a ||| b) &&& c = (a &&& c) ||| (b &&& c) := by
  apply UInt8.toBitVec_inj.mp
  ext i
  simp [Bool.and_or_distrib_right]

/-- A flag with the message's own type is right when the other type is not in it. -/
theorem Message.typed_iff (m : Message) (flag : UInt8) :
    m.Typed (flag ||| m.typeFlag) ↔ flag &&& m.otherFlag = 0 := by
  have hother : flagWebsocketBin &&& flagWebsocketText = 0 ∧
      flagWebsocketText &&& flagWebsocketBin = 0 := by decide
  have hown : flagWebsocketText ≠ 0 ∧ flagWebsocketBin ≠ 0 := by decide
  unfold Typed typeFlag otherFlag
  cases m.binary with
  | true => simp [or_and_distrib, hother, hown]
  | false => simp [or_and_distrib, hother, hown]

/-- Adding a type keeps the other type out exactly when the two are the same. -/
theorem Message.or_typeFlag (m later : Message) (flag : UInt8) :
    (flag ||| m.typeFlag) &&& later.otherFlag = 0 ↔
      flag &&& later.otherFlag = 0 ∧ m.binary = later.binary := by
  have htype : m.typeFlag &&& later.otherFlag = 0 ↔ m.binary = later.binary := by
    unfold typeFlag otherFlag
    cases m.binary <;> cases later.binary <;> decide
  rw [or_and_distrib, UInt8.or_eq_zero_iff, htype]

/-- The buffer that will deliver a message does not carry the other type. -/
def Message.Clean (m : Message) (flags : UInt8 × UInt8) : Prop :=
  (if m.rest = [] then flags.1 else flags.2) &&& m.otherFlag = 0

theorem Message.typed_flag (m : Message) (flags : UInt8 × UInt8) :
    m.Typed (m.flag flags) ↔ m.Clean flags := by
  unfold flag flagsAfter Clean
  by_cases hrest : m.rest = []
  · simp only [if_pos hrest]
    exact m.typed_iff _
  · rw [if_neg hrest, if_neg hrest, if_neg hrest]
    exact m.typed_iff _

/-- A message leaves the buffers clean for a later one exactly when it does not mislabel it. -/
theorem Message.clean_after (m later : Message) (flags : UInt8 × UInt8) :
    later.Clean (m.flagsAfter flags) ↔ later.Clean flags ∧ ¬ m.Mislabels later := by
  unfold Clean flagsAfter Mislabels
  by_cases hlater : later.rest = []
  · simp [hlater, m.or_typeFlag]
  · by_cases hrest : m.rest = []
    · simp [hlater, hrest]
    · simp [hlater, hrest, m.or_typeFlag]

/-- **The types are right** exactly when the buffers begin clean and no message mislabels a later
one. -/
theorem messageFlags_typed_iff (msgs : List Message) (flags : UInt8 × UInt8) :
    List.Forall₂ Message.Typed msgs (messageFlags flags msgs) ↔
      (∀ m ∈ msgs, m.Clean flags) ∧ msgs.Pairwise fun earlier later => ¬ earlier.Mislabels later := by
  induction msgs generalizing flags with
  | nil => simp [messageFlags]
  | cons m msgs ih =>
      have hafter : (∀ later ∈ msgs, later.Clean (m.flagsAfter flags)) ↔
          (∀ later ∈ msgs, later.Clean flags) ∧ ∀ later ∈ msgs, ¬ m.Mislabels later := by
        rw [← forall₂_and]
        apply forall₂_congr
        intro later _
        exact m.clean_after later flags
      rw [messageFlags, List.forall₂_cons, ih, m.typed_flag, hafter, List.forall_mem_cons,
        List.pairwise_cons]
      tauto

/-! ### Whole connections -/

/-- The number of messages whose last frame the buffers hold. -/
def delivered (pieces : List WireFrame) : Nat :=
  (held 0 (pieces.map WireFrame.encode)).countP endsMessage

/-- Neither buffer begins with a type. The server has set `FLAG_WEBSOCKET` on one of them. -/
structure Untyped (hd : WebsocketHandle) : Prop where
  proto : hd.protoBuf.flag &&& 3 = 0
  merge : hd.mergeBuf.flag &&& 3 = 0

/-- A frame that the parser takes for what it is: it has a payload, or no key, and states its length in
63 bits. -/
def WireFrame.Plain (f : WireFrame) : Prop :=
  (f.payload ≠ [] ∨ f.key = none) ∧ f.payload.length < 2 ^ 63

theorem WireFrame.Plain.complete {f : WireFrame} (plain : f.Plain) : CompleteFrame f.encode := by
  by_cases hsmall : f.payload.length < 2 ^ 32
  · exact Or.inl (scan_encode_plain plain.1 hsmall)
  · have hbad := (malformed_encode_iff f [] (by have := plain.2; omega)).mpr
      (Nat.le_of_not_lt hsmall)
    rw [List.append_nil] at hbad
    exact Or.inr hbad

section Connection

variable (endpoint : EndpointType) {hd : WebsocketHandle} {msgs : List Message}
  {pieces behind : List WireFrame} {chunks : List Bytes}

/-- What the onData calls are handed over the first frames of a conversation: the messages that are
delivered, and their type arguments. -/
theorem connectionEvents_messages (fresh : Allocated hd)
    (conversation : Interleaved (fun f => 3 ≤ f.op.val) (msgs.flatMap Message.frames)
      (pieces ++ behind))
    (plain : ∀ f ∈ pieces, f.Plain) (nonempty : ∀ chunk ∈ chunks, chunk ≠ [])
    (cut : chunks.flatten = encodeAll pieces) :
    (onDataCalls (connectionEvents endpoint hd chunks)).map Prod.fst =
        (msgs.take (delivered pieces)).map (fun m => leftOver m.frames) ∧
      (onDataCalls (connectionEvents endpoint hd chunks)).map Prod.snd =
        messageFlags hd.view.flags (msgs.take (delivered pieces)) := by
  have hcomplete : ∀ u ∈ pieces.map WireFrame.encode, CompleteFrame u := by
    intro u hu
    obtain ⟨f, hf, rfl⟩ := List.mem_map.mp hu
    exact (plain f hf).complete
  obtain ⟨s', out, hall, hunits, hcalls⟩ :=
    connectionEvents_held endpoint fresh hcomplete nonempty cut
  have hbytes : Interleaved (fun u => 3 ≤ opcode u)
      ((msgs.flatMap Message.frames).map WireFrame.encode) ((pieces ++ behind).map WireFrame.encode) :=
    conversation.map fun c hc => by rw [opcode_of_encode]; exact hc
  -- what is held is the beginning of it all
  obtain ⟨unheld, hheld⟩ := held_append 0 (pieces.map WireFrame.encode)
  have hsplit : (pieces ++ behind).map WireFrame.encode =
      held 0 (pieces.map WireFrame.encode) ++ (unheld ++ behind.map WireFrame.encode) := by
    rw [List.map_append, ← List.append_assoc, ← hheld]
  constructor
  · have hwhole := deliver_interleaved (fun _ => id) hbytes []
    obtain ⟨merge', happend⟩ := deliver_append [] (held 0 (pieces.map WireFrame.encode))
      (unheld ++ behind.map WireFrame.encode)
    rw [← hsplit, hwhole, deliver_messages] at happend
    rw [onDataCalls_payloads, connectionEvents_payloads endpoint fresh hcomplete nonempty cut,
      List.map_take, happend, delivered, List.take_left' (deliver_length _ _)]
  · have hwhole := flagsOf_interleaved (fun _ => id) hbytes hd.view.flags
    obtain ⟨flags', happend⟩ :=
      flagsOf_append hd.view.flags (held 0 (pieces.map WireFrame.encode))
      (unheld ++ behind.map WireFrame.encode)
    rw [← hsplit, hwhole, flagsOf_messages] at happend
    rw [hcalls, handleAll_flags hunits hall, ← messageFlags_take, happend, delivered,
      List.take_left' (flagsOf_length _ _)]

theorem Untyped.clean (untyped : Untyped hd) (m : Message) : m.Clean hd.view.flags := by
  have hclean : ∀ flag : UInt8, flag &&& 3 = 0 → flag &&& m.otherFlag = 0 := by
    intro flag hthree
    have hsub : (3 : UInt8) &&& m.otherFlag = m.otherFlag := by
      unfold Message.otherFlag
      cases m.binary <;> decide
    rw [← hsub, ← UInt8.and_assoc, hthree, UInt8.zero_and]
  unfold Message.Clean
  split
  · exact hclean _ untyped.proto
  · exact hclean _ untyped.merge

/-- **The type names the message.** Over a conversation of conformant messages, up to the first
frame that has a masking key and no payload, the onData calls get the messages in order, and their
type arguments are right exactly when, among the messages that are delivered, none mislabels a later
one. -/
theorem typesRight_iff (fresh : Allocated hd) (untyped : Untyped hd)
    (conversation : Interleaved (fun f => 3 ≤ f.op.val) (msgs.flatMap Message.frames)
      (pieces ++ behind))
    (plain : ∀ f ∈ pieces, f.Plain) (nonempty : ∀ chunk ∈ chunks, chunk ≠ [])
    (cut : chunks.flatten = encodeAll pieces) :
    (onDataCalls (connectionEvents endpoint hd chunks)).map Prod.fst =
        (msgs.take (delivered pieces)).map (fun m => leftOver m.frames) ∧
      (TypesRight msgs (onDataCalls (connectionEvents endpoint hd chunks)) ↔
        (msgs.take (delivered pieces)).Pairwise fun earlier later => ¬ earlier.Mislabels later) := by
  obtain ⟨hpayloads, hflags⟩ :=
    connectionEvents_messages endpoint fresh conversation plain nonempty cut
  refine ⟨hpayloads, ?_⟩
  have hlength : msgs.take (onDataCalls (connectionEvents endpoint hd chunks)).length =
      msgs.take (delivered pieces) := by
    have hlen := congrArg List.length hpayloads
    rw [List.length_map, List.length_map, List.length_take] at hlen
    rw [hlen, ← List.take_eq_take_min]
  rw [TypesRight, hlength, hflags, messageFlags_typed_iff]
  exact ⟨And.right, fun h => ⟨fun m _ => untyped.clean m, h⟩⟩

/-- Text and binary told apart: neither flag of a new handle is set, and the server sets only its
own. -/
theorem newHandle_untyped (endpoint : EndpointType) :
    Untyped (newHandle endpoint) ∧
      Untyped
        { newHandle endpoint with
          protoBuf := (newHandle endpoint).protoBuf.setFlag flagWebsocket } := by
  cases endpoint <;> exact ⟨⟨by decide, by decide⟩, ⟨by decide, by decide⟩⟩

end Connection

/-- A whole text message, a binary one in two fragments, and behind them a masked one without
payload. -/
theorem typesRight_iff_two :
    let msgs : List Message := [⟨false, ⟨none, [0x61]⟩, []⟩,
      ⟨true, ⟨none, [0x62]⟩, [⟨none, [0x63]⟩]⟩, ⟨false, ⟨some fun _ => 0x11, []⟩, []⟩]
    let pieces := (msgs.take 2).flatMap Message.frames
    (onDataCalls (connectionEvents .server (newHandle .server) [encodeAll pieces])).map Prod.fst =
        (msgs.take (delivered pieces)).map (fun m => leftOver m.frames) ∧
      (TypesRight msgs (onDataCalls (connectionEvents .server (newHandle .server) [encodeAll pieces])) ↔
        (msgs.take (delivered pieces)).Pairwise fun earlier later => ¬ earlier.Mislabels later) := by
  intro msgs pieces
  exact @typesRight_iff .server _ msgs pieces ((msgs.drop 2).flatMap Message.frames) _
    (newHandle_allocated .server) (newHandle_untyped .server).1
    (.frame _ (.frame _ (.frame _ (.frame _ .nil))))
    (by simp [msgs, pieces, Message.frames, Message.firstFrame, continuationFrames, WireFrame.Plain])
    (by decide) (by simp)

/-- A binary message behind a text message carries both types. -/
theorem binary_after_text :
    let msgs : List Message := [⟨false, ⟨none, [0x61]⟩, []⟩, ⟨true, ⟨none, [0x62]⟩, []⟩]
    (∀ f ∈ msgs.flatMap Message.frames, f.payload ≠ []) ∧
      onDataCalls (connectionEvents .server (newHandle .server)
        [encodeAll (msgs.flatMap Message.frames)]) = [([0x61], 1), ([0x62], 3)] ∧
      ¬ TypesRight msgs (onDataCalls (connectionEvents .server (newHandle .server)
        [encodeAll (msgs.flatMap Message.frames)])) := by
  intro msgs
  have hcalls : onDataCalls (connectionEvents .server (newHandle .server)
      [encodeAll (msgs.flatMap Message.frames)]) = [([0x61], 1), ([0x62], 3)] := by decide +kernel
  refine ⟨by decide, hcalls, ?_⟩
  rw [hcalls]
  intro right
  have hsecond : (⟨true, ⟨none, [0x62]⟩, []⟩ : Message).Typed 3 := by
    cases right with
    | cons _ rest => cases rest with
      | cons second _ => exact second
  exact absurd (hsecond.1.mp (by decide)) (by decide)

end AnotherWs
