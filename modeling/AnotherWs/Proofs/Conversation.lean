/-
Module: AnotherWs.Proofs.Conversation
Purpose: What the receiver makes of a conversation: one delivery for every message, control frames
  aside.
Trusted boundary: none
Main exports: leftOver, deliver_messages, mergeFits_messages, deliver_interleaved,
  mergeFits_interleaved, deliver_conversation, mergeFits_conversation, leftOver_eq_payload,
  leftOver_length, run_units_deliver
-/
import AnotherWs.Spec.Conversation
import AnotherWs.Proofs.Delivery

namespace AnotherWs

open Framing

/-- What the parser leaves of some frames. -/
def leftOver (frames : List WireFrame) : Bytes := frames.flatMap fun f => frameContent f.encode

@[simp] theorem leftOver_nil : leftOver [] = [] := rfl

@[simp] theorem leftOver_cons (f : WireFrame) (frames : List WireFrame) :
    leftOver (f :: frames) = frameContent f.encode ++ leftOver frames := rfl

/-! ### Single frames -/

theorem opcode_of_encode (f : WireFrame) : opcode f.encode = f.op.val := by
  have h := WireFrame.opcode_encode f []
  rwa [List.append_nil] at h

theorem isFinal_of_encode (f : WireFrame) : isFinal f.encode = f.fin := by
  have h := WireFrame.isFinal_encode f []
  rwa [List.append_nil] at h

/-- A continuation joins what is there. -/
theorem deliverStep_continuation (merge : Bytes) {f : WireFrame} (h : f.op = 0) :
    deliverStep merge f.encode =
      (merge ++ frameContent f.encode,
        if f.fin then [merge ++ frameContent f.encode] else []) := by
  rw [deliverStep, opcode_of_encode, isFinal_of_encode,
    if_pos (show f.op.val = 0 from congrArg Fin.val h)]

/-- A data frame is delivered, or replaces what is there. -/
theorem deliverStep_data (merge : Bytes) {f : WireFrame} (h : f.op = 1 ∨ f.op = 2) :
    deliverStep merge f.encode =
      if f.fin then (merge, [frameContent f.encode]) else (frameContent f.encode, []) := by
  have hdata : f.op.val = 1 ∨ f.op.val = 2 := h.imp (congrArg Fin.val) (congrArg Fin.val)
  rw [deliverStep, opcode_of_encode, isFinal_of_encode, if_neg (by omega), if_pos hdata]

theorem mergeStep_continuation (size : Nat) {f : WireFrame} (h : f.op = 0) :
    mergeStep size f.encode = size + (frameContent f.encode).length := by
  rw [mergeStep, opcode_of_encode, if_pos (show f.op.val = 0 from congrArg Fin.val h)]

theorem mergeStep_data (size : Nat) {f : WireFrame} (h : f.op = 1 ∨ f.op = 2) :
    mergeStep size f.encode = if f.fin then size else (frameContent f.encode).length := by
  have hdata : f.op.val = 1 ∨ f.op.val = 2 := h.imp (congrArg Fin.val) (congrArg Fin.val)
  rw [mergeStep, opcode_of_encode, isFinal_of_encode, if_neg (by omega)]
  cases f.fin <;> simp [hdata]

/-! ### Fragments and messages -/

/-- The fragments behind the first one are delivered together when the last has arrived. -/
theorem deliver_continuation (merge : Bytes) (us : List Bytes) {gs : List Fragment} (hne : gs ≠ []) :
    deliver merge ((continuationFrames gs).map WireFrame.encode ++ us) =
      (merge ++ leftOver (continuationFrames gs)) ::
        deliver (merge ++ leftOver (continuationFrames gs)) us := by
  fun_induction continuationFrames gs generalizing merge with
  | case1 => exact absurd rfl hne
  | case2 last => simp [deliver, deliverStep_continuation merge (f := ⟨true, 0, _, _⟩) rfl]
  | case3 fragment next more ih =>
      rw [List.map_cons, List.cons_append, deliver,
        deliverStep_continuation merge (f := ⟨false, 0, _, _⟩) rfl]
      simp [ih]

/-- The fragments behind the first one fit when all of them together fit. -/
theorem mergeFits_continuation (size : Nat) (us : List Bytes) {gs : List Fragment} (hne : gs ≠ []) :
    MergeFits size ((continuationFrames gs).map WireFrame.encode ++ us) ↔
      MergeFits (size + (leftOver (continuationFrames gs)).length) us := by
  fun_induction continuationFrames gs generalizing size with
  | case1 => exact absurd rfl hne
  | case2 last =>
      simp only [List.map_cons, List.map_nil, List.cons_append, List.nil_append, MergeFits,
        mergeStep_continuation size (f := ⟨true, 0, _, _⟩) rfl, leftOver_cons, leftOver_nil,
        List.append_nil]
      refine ⟨And.right, fun h => ⟨?_, h⟩⟩
      have := h.start
      omega
  | case3 fragment next more ih =>
      rw [List.map_cons, List.cons_append, MergeFits,
        mergeStep_continuation size (f := ⟨false, 0, _, _⟩) rfl, ih _ (by simp), leftOver_cons,
        List.length_append, Nat.add_assoc]
      refine ⟨And.right, fun h => ⟨?_, h⟩⟩
      have := h.start
      omega

namespace Message

theorem firstFrame_op (m : Message) : m.firstFrame.op = 1 ∨ m.firstFrame.op = 2 := by
  unfold firstFrame
  cases m.binary with
  | true => exact Or.inr rfl
  | false => exact Or.inl rfl

/-- **A message is delivered once**, as what is left of its frames. -/
theorem deliver_frames (m : Message) (merge : Bytes) (us : List Bytes) :
    ∃ merge', deliver merge (m.frames.map WireFrame.encode ++ us) =
      leftOver m.frames :: deliver merge' us := by
  rw [frames, List.map_cons, List.cons_append, deliver, deliverStep_data merge m.firstFrame_op,
    leftOver_cons]
  by_cases hrest : m.rest = []
  · refine ⟨merge, ?_⟩
    rw [show m.firstFrame.fin = true by rw [firstFrame, hrest]; rfl, hrest]
    simp [continuationFrames]
  · refine ⟨frameContent m.firstFrame.encode ++ leftOver (continuationFrames m.rest), ?_⟩
    rw [show m.firstFrame.fin = false by simp [firstFrame, hrest]]
    simp [deliver_continuation _ us hrest]

/-- A message fits when it is not fragmented or all of it fits. -/
theorem mergeFits_frames (m : Message) {size : Nat} (us : List Bytes) (start : size ≤ 2 ^ 31) :
    MergeFits size (m.frames.map WireFrame.encode ++ us) ↔
      MergeFits (if m.rest = [] then size else (leftOver m.frames).length) us := by
  rw [frames, List.map_cons, List.cons_append, MergeFits, mergeStep_data size m.firstFrame_op,
    leftOver_cons]
  by_cases hrest : m.rest = []
  · rw [if_pos hrest, show m.firstFrame.fin = true by rw [firstFrame, hrest]; rfl, hrest]
    exact ⟨And.right, fun h => ⟨start, h⟩⟩
  · rw [if_neg hrest, show m.firstFrame.fin = false by simp [firstFrame, hrest],
      if_neg Bool.false_ne_true, mergeFits_continuation _ us hrest, List.length_append]
    exact ⟨And.right, fun h => ⟨start, h⟩⟩

end Message

/-- The messages of a stream are delivered, whatever follows them. -/
theorem deliver_messages_append (msgs : List Message) (merge : Bytes) (us : List Bytes) :
    ∃ merge', deliver merge ((msgs.flatMap Message.frames).map WireFrame.encode ++ us) =
      (msgs.map fun m => leftOver m.frames) ++ deliver merge' us := by
  induction msgs generalizing merge with
  | nil => exact ⟨merge, rfl⟩
  | cons m msgs ih =>
      rw [List.flatMap_cons, List.map_append, List.append_assoc]
      obtain ⟨mid, hfirst⟩ :=
        m.deliver_frames merge ((msgs.flatMap Message.frames).map WireFrame.encode ++ us)
      obtain ⟨merge', hrest⟩ := ih mid
      exact ⟨merge', by rw [hfirst, hrest]; rfl⟩

/-- The messages of a stream are delivered one after the other. -/
theorem deliver_messages (msgs : List Message) (merge : Bytes) :
    deliver merge ((msgs.flatMap Message.frames).map WireFrame.encode) =
      msgs.map fun m => leftOver m.frames := by
  obtain ⟨merge', hdeliver⟩ := deliver_messages_append msgs merge []
  rwa [List.append_nil, deliver, List.append_nil] at hdeliver

/-- The messages of a stream fit when each fragmented one does. -/
theorem mergeFits_messages (msgs : List Message) {size : Nat} (start : size ≤ 2 ^ 31) :
    MergeFits size ((msgs.flatMap Message.frames).map WireFrame.encode) ↔
      ∀ m ∈ msgs, m.rest ≠ [] → (leftOver m.frames).length ≤ 2 ^ 31 := by
  induction msgs generalizing size with
  | nil => exact ⟨fun _ m hm => absurd hm List.not_mem_nil, fun _ => start⟩
  | cons m msgs ih =>
      rw [List.flatMap_cons, List.map_append, m.mergeFits_frames _ start, List.forall_mem_cons]
      by_cases hrest : m.rest = []
      · rw [if_pos hrest, ih start]
        simp [hrest]
      · rw [if_neg hrest]
        constructor
        · intro h
          exact ⟨fun _ => h.start, (ih h.start).mp h⟩
        · rintro ⟨hm, hmsgs⟩
          exact (ih (hm hrest)).mpr hmsgs

/-! ### Control frames -/

section Control

variable {control : Bytes → Prop} {frames pieces : List Bytes}

/-- Control frames deliver nothing. -/
theorem deliver_interleaved (hcontrol : ∀ c, control c → 3 ≤ opcode c)
    (h : Interleaved control frames pieces) (merge : Bytes) :
    deliver merge pieces = deliver merge frames := by
  induction h generalizing merge with
  | nil => rfl
  | frame f rest ih => simp [deliver, ih]
  | control c isControl rest ih =>
      have hop := hcontrol c isControl
      rw [deliver, deliverStep, if_neg (by omega), if_neg (by omega)]
      exact ih merge

/-- Control frames take no room in the merge buffer. -/
theorem mergeFits_interleaved (hcontrol : ∀ c, control c → 3 ≤ opcode c)
    (h : Interleaved control frames pieces) (size : Nat) :
    MergeFits size pieces ↔ MergeFits size frames := by
  induction h generalizing size with
  | nil => rfl
  | frame f rest ih => simp [MergeFits, ih]
  | control c isControl rest ih =>
      have hop := hcontrol c isControl
      rw [MergeFits, mergeStep, if_neg (by omega), if_neg (by omega), ih]
      exact ⟨And.right, fun h => ⟨h.start, h⟩⟩

variable {msgs : List Message}

/-- The messages of a conversation are delivered, each as what is left of its frames. -/
theorem deliver_conversation (hcontrol : ∀ c, control c → 3 ≤ opcode c)
    (h : Interleaved control ((msgs.flatMap Message.frames).map WireFrame.encode) pieces)
    (merge : Bytes) : deliver merge pieces = msgs.map fun m => leftOver m.frames := by
  rw [deliver_interleaved hcontrol h, deliver_messages]

/-- A conversation fits when each fragmented message does. -/
theorem mergeFits_conversation (hcontrol : ∀ c, control c → 3 ≤ opcode c)
    (h : Interleaved control ((msgs.flatMap Message.frames).map WireFrame.encode) pieces) {size : Nat}
    (start : size ≤ 2 ^ 31) :
    MergeFits size pieces ↔ ∀ m ∈ msgs, m.rest ≠ [] → (leftOver m.frames).length ≤ 2 ^ 31 := by
  rw [mergeFits_interleaved hcontrol h, mergeFits_messages msgs start]

end Control

/-! ### What is left of a message -/

/-- The frames of a message and its fragments. -/
theorem continuationFrames_payload (gs : List Fragment) :
    (continuationFrames gs).map WireFrame.payload = gs.map Fragment.payload := by
  fun_induction continuationFrames gs with
  | case1 => rfl
  | case2 last => rfl
  | case3 fragment next more ih => simp [ih]

theorem Message.frames_payload (m : Message) :
    m.frames.map WireFrame.payload = m.fragments.map Fragment.payload := by
  rw [frames, fragments, List.map_cons, List.map_cons, continuationFrames_payload]
  rfl

theorem Message.payload_eq (m : Message) : m.payload = m.frames.flatMap WireFrame.payload := by
  rw [payload, List.flatMap_def, List.flatMap_def, frames_payload]

/-- Frames with payloads leave their payloads. -/
theorem leftOver_eq_payload {frames : List WireFrame} (h : ∀ f ∈ frames, f.payload ≠ []) :
    leftOver frames = frames.flatMap WireFrame.payload := by
  induction frames with
  | nil => rfl
  | cons f frames ih =>
      rw [leftOver_cons, List.flatMap_cons, WireFrame.frameContent_encode (h f (List.mem_cons_self ..)),
        ih fun g hg => h g (List.mem_cons_of_mem _ hg)]

/-- An empty frame leaves at least two bytes too many. -/
theorem leftOver_length {frames : List WireFrame} (h : ∃ f ∈ frames, f.payload = []) :
    (frames.flatMap WireFrame.payload).length < (leftOver frames).length := by
  have hle : ∀ fs : List WireFrame,
      (fs.flatMap WireFrame.payload).length ≤ (leftOver fs).length := by
    intro fs
    induction fs with
    | nil => exact Nat.le_refl _
    | cons f fs ih =>
        rw [leftOver_cons, List.flatMap_cons, List.length_append, List.length_append]
        by_cases hnil : f.payload = []
        · rw [hnil, List.length_nil]
          omega
        · rw [WireFrame.frameContent_encode hnil]
          omega
  induction frames with
  | nil =>
      obtain ⟨f, hf, -⟩ := h
      exact absurd hf List.not_mem_nil
  | cons f frames ih =>
      have hrest := hle frames
      rw [leftOver_cons, List.flatMap_cons, List.length_append, List.length_append]
      by_cases hnil : f.payload = []
      · have htwo := WireFrame.two_le_header f
        rw [WireFrame.frameContent_encode_empty hnil, WireFrame.encode_length, hnil,
          List.length_nil]
        omega
      · obtain ⟨g, hg, hgnil⟩ := h
        have hmem : g ∈ frames := (List.mem_cons.mp hg).resolve_left fun heq => hnil (heq ▸ hgnil)
        have := ih ⟨g, hmem, hgnil⟩
        rw [WireFrame.frameContent_encode hnil]
        omega

/-! ### The run -/

/-- **A stream of complete frames** is read frame by frame, delivers as `deliver` says, and leaves the
receiver between two frames. -/
theorem run_units_deliver {s : HandleView} {us : List Bytes} (complete : s.parseState = .complete)
    (units : ∀ u ∈ us, receiver.IsUnit u) (fits : MergeFits s.merge.length us) :
    (receiver.run s us.flatten).halt = .waiting [] ∧
      (receiver.run s us.flatten).state.parseState = .complete ∧
      (receiver.run s us.flatten).events.map Prod.fst = us.map List.length ∧
      payloads ((receiver.run s us.flatten).events.flatMap Prod.snd) = deliver s.merge us := by
  obtain ⟨s', out, hall⟩ := handleAll_isSome units fits
  obtain ⟨hcounts, hpayloads, -, -, hstate⟩ := handleAll_deliver units hall fits.start
  have hrun := Decoder.run_units [] units hall
  rw [List.append_nil, Decoder.run_nil] at hrun
  rw [hrun]
  refine ⟨rfl, hstate complete, ?_, ?_⟩
  · simpa [Run.after] using hcounts
  · simpa [Run.after] using hpayloads

end AnotherWs
