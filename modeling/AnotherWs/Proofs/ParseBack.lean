/-
Module: AnotherWs.Proofs.ParseBack
Purpose: Whether an endpoint's own output parses back into the frames it was made of. Messages do; the
  two-byte control frames state two payload bytes that are never sent.
Trusted boundary: none
Main exports: Outbound.frames, ParsesBack, tryParseProtocol_decodes, parsesBack_iff,
  ping_does_not_parse_back
-/
import AnotherWs.Proofs.ReadLoop
import AnotherWs.Proofs.RoundTrip

namespace AnotherWs

open Framing

/-- A frame as its sender sees it. -/
def WireFrame.sent (f : WireFrame) : ParsedFrame := ⟨f.encode.length, f.fin, f.op.val, f.payload⟩

/-- The frames that an action stands for. A control frame is two bytes and says nothing. -/
def Outbound.frames : Outbound → List ParsedFrame
  | .message op data => (messageFrames op data).map WireFrame.sent
  | .ping => [⟨2, true, 9, []⟩]
  | .pong => [⟨2, true, 10, []⟩]
  | .close => [⟨2, true, 8, []⟩]

/-- The emitted bytes parse into exactly the frames they were made of: each with its own bytes, and
nothing left over. -/
def ParsesBack (hd : WebsocketHandle) (actions : List Outbound) : Prop :=
  ∃ bytes hd', emitAll actions = .ok bytes ∧
    parseFrames bytes.length hd bytes = .ok (actions.flatMap Outbound.frames, hd') ∧
    hd'.parseState = .complete

/-- A text or binary message whose encoding a buffer can hold. -/
def Outbound.IsSmallMessage (action : Outbound) : Prop :=
  ∃ op data, action = .message op data ∧ (encodeAll (messageFrames op data)).length ≤ 2 ^ 31

/-- A frame with a payload parses back. -/
theorem tryParseProtocol_encode {hd : WebsocketHandle} (complete : hd.parseState = .complete)
    {f : WireFrame} (hne : f.payload ≠ []) (hlen : f.encode.length ≤ 2 ^ 31) (rest : Bytes) :
    ∃ hd', tryParseProtocol hd (f.encode ++ rest) = .ok (true, hd') ∧ hd'.frame = f.sent ∧
      hd'.parseState = .complete := by
  have hwhole := f.encode_length
  have htwo := f.two_le_header
  have hunit := WireFrame.scan_encode hne (by omega)
  have hscan : frameScan (f.encode ++ rest) = .unit f.encode.length :=
    Scanner.unit_append (S := frameScanner) (w := f.encode) hunit rest
  obtain ⟨hd', hcall, hparsed, hview⟩ := tryParseProtocol_accept (.of_complete complete)
    (d := f.encode ++ rest) (by
      intro hnil
      have := congrArg List.length hnil
      rw [List.length_append, List.length_nil] at this
      omega) hscan hlen
  rw [List.nil_append, List.take_left] at hview
  refine ⟨hd', hcall, ?_, hparsed.state_eq⟩
  have heof : hd'.isEof = f.fin := by
    have := congrArg (fun s : HandleView => s.header.isEof) hview
    exact this.trans ((applyHeader_isEof _ (by omega)).trans (isFinal_of_encode f))
  have htype : hd'.type.toNat = f.op.val := by
    have := congrArg (fun s : HandleView => s.header.type.toNat) hview
    exact this.trans ((applyHeader_type _ (by omega)).trans (opcode_of_encode f))
  have hproto : hd'.protoBuf.content = f.payload :=
    (congrArg HandleView.proto hview).trans (WireFrame.frameContent_encode hne)
  rw [WebsocketHandle.frame, WireFrame.sent, heof, htype, hproto, hparsed.readCount_eq,
    List.length_nil, Nat.sub_zero]

/-- **One-frame decode.** Between two frames the parser takes a frame with a payload off the front
of any bytes, whatever the handle held before. -/
theorem tryParseProtocol_decodes {hd : WebsocketHandle} (complete : hd.parseState = .complete)
    {f : WireFrame} (hne : f.payload ≠ []) (hlen : f.encode.length ≤ 2 ^ 31) (rest : Bytes) :
    ∃ hd', tryParseProtocol hd (f.encode ++ rest) = .ok (true, hd') ∧
      hd'.readCount = f.encode.length ∧ hd'.parseState = .complete ∧
      hd'.isEof = f.fin ∧ hd'.type.toNat = f.op.val ∧ hd'.protoBuf.content = f.payload := by
  obtain ⟨hd', hcall, hframe, hstate⟩ := tryParseProtocol_encode complete hne hlen rest
  simp only [WebsocketHandle.frame, WireFrame.sent, ParsedFrame.mk.injEq] at hframe
  obtain ⟨hcount, hfin, hop, hpayload⟩ := hframe
  exact ⟨hd', hcall, hcount, hstate, hfin, hop, hpayload⟩

/-- A masked frame in front of half a frame, read by a handle that still holds an old frame. -/
theorem tryParseProtocol_decodes_masked :
    let hd := { newHandle .server with
      protoBuf := (membufInit 128).setFlag 1, mask := fun _ => 7, realPayloadLen := 5, type := 9 }
    let f : WireFrame := ⟨true, 2, some staticMask, [10, 20, 30, 40, 50]⟩
    ∃ hd', tryParseProtocol hd (f.encode ++ [0x81]) = .ok (true, hd') ∧
      hd'.readCount = f.encode.length ∧ hd'.parseState = .complete ∧
      hd'.isEof = f.fin ∧ hd'.type.toNat = f.op.val ∧ hd'.protoBuf.content = f.payload := by
  intro hd f
  exact tryParseProtocol_decodes (show hd.parseState = .complete from rfl)
    (show f.payload ≠ [] by decide) (by decide) [0x81]

/-- Frames with payloads in front of a stream parse back one after the other. -/
theorem parseFrames_encodeAll {fs : List WireFrame}
    (hfs : ∀ f ∈ fs, f.payload ≠ [] ∧ f.encode.length ≤ 2 ^ 31) {hd : WebsocketHandle}
    (complete : hd.parseState = .complete) (fuel : Nat) (rest : Bytes) :
    ∃ hd', hd'.parseState = .complete ∧
      parseFrames (fs.length + fuel) hd (encodeAll fs ++ rest) =
        (parseFrames fuel hd' rest).map fun out => (fs.map WireFrame.sent ++ out.1, out.2) := by
  induction fs generalizing hd with
  | nil =>
      refine ⟨hd, complete, ?_⟩
      rw [List.length_nil, Nat.zero_add, encodeAll_nil, List.nil_append]
      cases parseFrames fuel hd rest <;> rfl
  | cons f fs ih =>
      rw [List.forall_mem_cons] at hfs
      obtain ⟨hd₁, hcall, hframe, hcomplete⟩ :=
        tryParseProtocol_encode complete hfs.1.1 hfs.1.2 (encodeAll fs ++ rest)
      obtain ⟨hd', hcomplete', hparse⟩ := ih hfs.2 hcomplete
      refine ⟨hd', hcomplete', ?_⟩
      have hlen := f.encode_length
      have htwo := f.two_le_header
      have hcount : hd₁.readCount = f.encode.length := congrArg ParsedFrame.readCount hframe
      have hne : f.encode ++ (encodeAll fs ++ rest) ≠ [] := by
        intro hnil
        have := congrArg List.length hnil
        rw [List.length_append, List.length_nil] at this
        omega
      rw [List.length_cons, show fs.length + 1 + fuel = fs.length + fuel + 1 by omega,
        encodeAll_cons, List.append_assoc, parseFrames, if_neg hne, hcall, ok_bind]
      simp only [if_true]
      rw [hcount, List.drop_left, hparse]
      cases parseFrames fuel hd' rest with
      | error fault => rfl
      | ok out =>
          show Except.ok _ = Except.ok _
          rw [hframe]
          rfl

/-- Nothing is left to parse. -/
theorem parseFrames_nil (fuel : Nat) (hd : WebsocketHandle) :
    parseFrames fuel hd [] = .ok ([], hd) := by
  cases fuel <;> rfl

/-! ### Messages -/

/-- The frames of a small message have payloads and fit. -/
theorem messageFrames_good {op : UInt8} {data : Bytes} (hop : op = wsTextFrame ∨ op = wsBinFrame)
    (hne : data ≠ []) (small : (encodeAll (messageFrames op data)).length ≤ 2 ^ 31) :
    ∀ f ∈ messageFrames op data, f.payload ≠ [] ∧ f.encode.length ≤ 2 ^ 31 := by
  intro f hf
  refine ⟨?_, Nat.le_trans (encode_length_le hf) small⟩
  obtain ⟨m, hframes, -, hnonempty⟩ := messageFrames_eq_message hop hne
  rw [hframes] at hf
  have hmem : f.payload ∈ m.fragments.map Fragment.payload := by
    rw [← m.frames_payload]
    exact List.mem_map_of_mem hf
  obtain ⟨g, hg, heq⟩ := List.mem_map.mp hmem
  rw [← heq]
  exact hnonempty g hg

theorem opcode_lt {op : UInt8} (hop : op = wsTextFrame ∨ op = wsBinFrame) : op.toNat < 16 := by
  rcases hop with rfl | rfl <;> decide

/-- What is emitted for a message. -/
theorem emit_message {op : UInt8} {data bytes : Bytes} (hop : op = wsTextFrame ∨ op = wsBinFrame) :
    Outbound.emit (.message op data) = .ok bytes ↔
      bytes = encodeAll (messageFrames op data) ∧
        (encodeAll (messageFrames op data)).length ≤ 2 ^ 31 := by
  have hzero : (membufInit 128).size = 0 := rfl
  constructor
  · intro emitted
    obtain ⟨buf, hcall, hcontent⟩ := bind_eq_ok.mp emitted
    have hsmall := generateWebsocketFrame_small (opcode_lt hop) hcall ⟨7, by omega, rfl⟩
    obtain ⟨buf', hcall', hcontent'⟩ := generateWebsocketFrame_ok _ _ (opcode_lt hop) hsmall
    rw [hcall] at hcall'
    cases hcall'
    cases hcontent
    rw [hcontent', membufInit_content, List.nil_append]
    exact ⟨rfl, by omega⟩
  · rintro ⟨rfl, hsmall⟩
    obtain ⟨buf, hcall, hcontent⟩ :=
      generateWebsocketFrame_ok (membufInit 128) data (opcode_lt hop) (by omega)
    rw [membufInit_content, List.nil_append] at hcontent
    simp only [Outbound.emit, hcall, ok_bind, hcontent]

/-! ### Control frames -/

/-- The frame that a two-byte control frame begins takes two more bytes, or waits for them. -/
theorem parseFrames_control {c : UInt8} {rest : Bytes} {hd hd' : WebsocketHandle}
    (complete : hd.parseState = .complete) {fuel : Nat} {out : List ParsedFrame}
    (parsed : parseFrames fuel hd ([c, 2] ++ rest) = .ok (out, hd')) :
    out = [] ∨ ∃ frame frames, out = frame :: frames ∧ frame.readCount = 4 := by
  have hhead : headerLen ([c, 2] ++ rest) = 2 := rfl
  have hsize : payloadSize ([c, 2] ++ rest) = 2 := rfl
  have hfield : lengthField ([c, 2] ++ rest) = 2 := rfl
  have good : ¬ Malformed ([c, 2] ++ rest) := fun hbad => by
    have := hbad.1
    omega
  have hlen : ([c, 2] ++ rest).length = 2 + rest.length := by
    rw [List.length_append]
    rfl
  have hne : [c, 2] ++ rest ≠ [] := by simp
  cases fuel with
  | zero =>
      rw [parseFrames, if_neg hne] at parsed
      cases parsed
  | succ fuel =>
      rw [parseFrames, if_neg hne] at parsed
      by_cases hshort : rest.length < 2
      · have hscan : frameScan ([c, 2] ++ rest) = .more := by
          rw [frameScan, if_neg (by omega), if_neg (by omega), if_neg good,
            if_neg (show ¬ ([c, 2] ++ rest).length < keyStart ([c, 2] ++ rest) by
              rw [show keyStart ([c, 2] ++ rest) = 2 from rfl]
              omega), if_pos (by omega)]
        have hpending : hd.pending = [] := if_pos complete
        obtain ⟨hd₁, hcall, -⟩ := tryParseProtocol_more hne (by rwa [hpending])
          (by rw [hpending, List.length_nil]; omega)
        rw [hcall, ok_bind] at parsed
        cases parsed
        exact Or.inl rfl
      · have hscan := frameScan_of_complete (w := [c, 2] ++ rest) (by omega) (by omega) good
        rw [hhead, hsize] at hscan
        obtain ⟨hd₁, hcall, hparsed, -⟩ := tryParseProtocol_accept (.of_complete complete) hne hscan
          (by omega)
        rw [hcall, ok_bind] at parsed
        obtain ⟨⟨frames, last⟩, -, heq⟩ := bind_eq_ok.mp parsed
        cases heq
        exact Or.inr ⟨_, _, rfl, hparsed.readCount_eq⟩

/-! ### Sequences of actions -/

section Sequences

variable {actions : List Outbound}

/-- Small messages parse back. -/
theorem parseFrames_messages
    (valid : ∀ op data, .message op data ∈ actions →
      (op = wsTextFrame ∨ op = wsBinFrame) ∧ data ≠ [])
    (small : ∀ a ∈ actions, a.IsSmallMessage) :
    ∃ fs : List WireFrame, emitAll actions = .ok (encodeAll fs) ∧
      actions.flatMap Outbound.frames = fs.map WireFrame.sent ∧
      ∀ f ∈ fs, f.payload ≠ [] ∧ f.encode.length ≤ 2 ^ 31 := by
  induction actions with
  | nil => exact ⟨[], rfl, rfl, by simp⟩
  | cons action actions ih =>
      rw [List.forall_mem_cons] at small
      obtain ⟨⟨op, data, rfl, hsmall⟩, hrest⟩ := small
      obtain ⟨hop, hne⟩ := valid op data (List.mem_cons_self ..)
      obtain ⟨fs, hemit, hframes, hgood⟩ :=
        ih (fun op data h => valid op data (List.mem_cons_of_mem _ h)) hrest
      refine ⟨messageFrames op data ++ fs, ?_, ?_, ?_⟩
      · rw [emitAll, (emit_message hop).mpr ⟨rfl, hsmall⟩, ok_bind, hemit, ok_bind, encodeAll_append]
      · rw [List.flatMap_cons, hframes, List.map_append]
        rfl
      · intro f hf
        rcases List.mem_append.mp hf with hf | hf
        · exact messageFrames_good hop hne hsmall f hf
        · exact hgood f hf

/-- Only small messages parse back. -/
theorem small_of_parseFrames
    (valid : ∀ op data, .message op data ∈ actions →
      (op = wsTextFrame ∨ op = wsBinFrame) ∧ data ≠ [])
    {hd hd' : WebsocketHandle} (complete : hd.parseState = .complete) {bytes : Bytes} {fuel : Nat}
    (enough : bytes.length ≤ fuel) (emitted : emitAll actions = .ok bytes)
    (parsed : parseFrames fuel hd bytes = .ok (actions.flatMap Outbound.frames, hd')) :
    ∀ a ∈ actions, a.IsSmallMessage := by
  induction actions generalizing hd bytes fuel with
  | nil => simp
  | cons action actions ih =>
      obtain ⟨front, hfront, emitted⟩ := bind_eq_ok.mp emitted
      obtain ⟨rest, hrest, heq⟩ := bind_eq_ok.mp emitted
      cases heq
      rw [List.flatMap_cons] at parsed
      have hcontrol : ∀ c op, front = [c, 2] → action.frames ≠ [⟨2, true, op, []⟩] := by
        rintro c op rfl hframes
        rw [hframes] at parsed
        rcases parseFrames_control complete parsed with hnil | ⟨frame, frames, hcons, hcount⟩
        · cases hnil
        · cases hcons
          cases hcount
      cases action with
      | message op data =>
          obtain ⟨hop, hne⟩ := valid op data (List.mem_cons_self ..)
          obtain ⟨rfl, hsmall⟩ := (emit_message hop).mp hfront
          have hgood := messageFrames_good hop hne hsmall
          have hmany := length_le_encodeAll (messageFrames op data)
          rw [List.length_append] at enough
          obtain ⟨k, rfl⟩ : ∃ k, fuel = (messageFrames op data).length + k :=
            ⟨fuel - (messageFrames op data).length, by omega⟩
          obtain ⟨hd₁, hcomplete, hparse⟩ := parseFrames_encodeAll hgood complete k rest
          rw [hparse] at parsed
          cases hinner : parseFrames k hd₁ rest with
          | error fault =>
              rw [hinner] at parsed
              cases parsed
          | ok out =>
              rw [hinner] at parsed
              simp only [Except.map, Except.ok.injEq, Prod.mk.injEq] at parsed
              obtain ⟨hframes, hlast⟩ := parsed
              have hout := List.append_cancel_left hframes
              refine List.forall_mem_cons.mpr ⟨⟨op, data, rfl, hsmall⟩, ?_⟩
              refine ih (fun op data h => valid op data (List.mem_cons_of_mem _ h)) hcomplete
                (show rest.length ≤ k by omega) hrest ?_
              rw [hinner, ← hout, ← hlast]
      | ping =>
          cases hfront
          exact absurd rfl (hcontrol _ 9 rfl)
      | pong =>
          cases hfront
          exact absurd rfl (hcontrol _ 10 rfl)
      | close =>
          cases hfront
          exact absurd rfl (hcontrol _ 8 rfl)

/-- **An endpoint's output parses back** exactly when it is made of messages that a buffer can hold. -/
theorem parsesBack_iff
    (valid : ∀ op data, .message op data ∈ actions →
      (op = wsTextFrame ∨ op = wsBinFrame) ∧ data ≠ [])
    {hd : WebsocketHandle} (complete : hd.parseState = .complete) :
    ParsesBack hd actions ↔ ∀ a ∈ actions, a.IsSmallMessage := by
  constructor
  · rintro ⟨bytes, hd', hemit, hparse, -⟩
    exact small_of_parseFrames valid complete (Nat.le_refl _) hemit hparse
  · intro small
    obtain ⟨fs, hemit, hframes, hgood⟩ := parseFrames_messages valid small
    have hmany := length_le_encodeAll fs
    obtain ⟨hd', hcomplete, hparse⟩ := parseFrames_encodeAll hgood complete
      ((encodeAll fs).length - fs.length) []
    rw [List.append_nil, parseFrames_nil, Nat.add_sub_cancel' hmany] at hparse
    refine ⟨_, hd', hemit, ?_, hcomplete⟩
    rw [hparse, hframes]
    simp [Except.map]

end Sequences

/-- A text message behind a binary one. -/
theorem parsesBack_iff_two :
    ParsesBack (newHandle .client) [.message wsBinFrame [0x62, 0x63], .message wsTextFrame [0x61]] ↔
      ∀ a ∈ [Outbound.message wsBinFrame [0x62, 0x63], .message wsTextFrame [0x61]],
        a.IsSmallMessage := by
  refine parsesBack_iff ?_ rfl
  intro op data h
  simp only [List.mem_cons, Outbound.message.injEq, List.not_mem_nil, or_false] at h
  rcases h with ⟨rfl, rfl⟩ | ⟨rfl, rfl⟩
  · exact ⟨Or.inr rfl, by decide⟩
  · exact ⟨Or.inl rfl, by decide⟩

/-- A ping in front of a one-byte text message takes the first two bytes of the message. -/
theorem ping_does_not_parse_back :
    ¬ ParsesBack (newHandle .server) [.ping, .message wsTextFrame [0x61]] := by
  rintro ⟨bytes, hd', hemit, hparse, -⟩
  have hvalid : ∀ op data, Outbound.message op data ∈ [.ping, .message wsTextFrame [0x61]] →
      (op = wsTextFrame ∨ op = wsBinFrame) ∧ data ≠ [] := by
    intro op data h
    simp only [List.mem_cons, reduceCtorEq, Outbound.message.injEq, List.not_mem_nil, or_false,
      false_or] at h
    obtain ⟨rfl, rfl⟩ := h
    exact ⟨Or.inl rfl, by decide⟩
  have hsmall := small_of_parseFrames hvalid rfl (Nat.le_refl _) hemit hparse
  obtain ⟨op, data, hmessage, -⟩ := hsmall .ping (List.mem_cons_self ..)
  cases hmessage

end AnotherWs
