/-
Module: AnotherWs.Proofs.ReadLoop
Purpose: on_read_websocket refines the receiver: a call on a chunk is the receiver's run over the bytes
  of the unfinished frame followed by the chunk, and it comes back exactly when that run comes to rest.
Trusted boundary: none
Main exports: Stands, readLoop_ok, readLoop_error, onReadWebsocket_inv, feedChunks_ok, reachable_stands
-/
import AnotherWs.Proofs.Parser
import AnotherWs.Spec.Receiver

namespace AnotherWs

open Framing

/-- Both buffers have only ever grown by doubling. -/
def WebsocketHandle.Sized (hd : WebsocketHandle) : Prop :=
  hd.protoBuf.Doubled ∧ hd.mergeBuf.Doubled

theorem Allocated.sized {hd : WebsocketHandle} (allocated : Allocated hd) : hd.Sized :=
  ⟨⟨7, by omega, allocated.protoBuf_capacity⟩, ⟨7, by omega, allocated.mergeBuf_capacity⟩⟩

/-- The handle stands behind the bytes `p` of a frame that began when the view was `s`. -/
structure Stands (hd : WebsocketHandle) (s : HandleView) (p : Bytes) : Prop where
  view_eq : hd.view = s.withPending p
  complete : s.parseState = .complete
  unfinished : frameScan p = .more ∨ (Malformed p ∧ p.length = 6)
  small : p.length ≤ 2 ^ 31

namespace Stands

variable {hd : WebsocketHandle} {s : HandleView} {p : Bytes}

/-- A handle between two frames stands behind its own view. -/
theorem of_complete (h : hd.parseState = .complete) : Stands hd hd.view [] where
  view_eq := rfl
  complete := h
  unfinished := Or.inl rfl
  small := Nat.zero_le _

theorem pending_eq (stands : Stands hd s p) : hd.pending = p := by
  have hview := stands.view_eq
  have hcomplete := stands.complete
  unfold HandleView.withPending at hview
  unfold WebsocketHandle.pending
  split at hview
  · rename_i hnil
    have hstate : hd.parseState = s.parseState := congrArg HandleView.parseState hview
    rw [if_pos (hstate.trans hcomplete), hnil]
  · have hstate := congrArg HandleView.parseState hview
    have hproto : hd.protoBuf.content = p := congrArg HandleView.proto hview
    rw [if_neg, hproto]
    intro hdone
    rw [show hd.view.parseState = hd.parseState from rfl, hdone] at hstate
    dsimp only at hstate
    split at hstate <;> cases hstate

/-- The parse of a longer stream forgets where the chunk boundary was. -/
theorem applyHeader_base (stands : Stands hd s p) (x : Bytes) :
    applyHeader hd.base (p ++ x) = applyHeader s.base (p ++ x) := by
  have hview := stands.view_eq
  have hcomplete := stands.complete
  unfold HandleView.withPending at hview
  split at hview
  · rename_i hnil
    have hstate : hd.parseState = s.parseState := congrArg HandleView.parseState hview
    have hheader : hd.toFrameHeader = s.header := congrArg HandleView.header hview
    rw [WebsocketHandle.base, if_pos (hstate.trans hcomplete), hheader]
    rfl
  · have hstate := congrArg HandleView.parseState hview
    have hheader : hd.toFrameHeader = applyHeader s.base p := congrArg HandleView.header hview
    rw [WebsocketHandle.base, if_neg, hheader, applyHeader_append]
    intro hdone
    rw [show hd.view.parseState = hd.parseState from rfl, hdone] at hstate
    dsimp only at hstate
    split at hstate <;> cases hstate

theorem protoFlag_eq (stands : Stands hd s p) : hd.protoBuf.flag = s.protoFlag := by
  have hflag : hd.protoBuf.flag = (s.withPending p).protoFlag :=
    congrArg HandleView.protoFlag stands.view_eq
  rw [hflag, HandleView.withPending]
  split <;> rfl

theorem merge_eq (stands : Stands hd s p) : hd.mergeBuf.content = s.merge := by
  have hmerge : hd.mergeBuf.content = (s.withPending p).merge :=
    congrArg HandleView.merge stands.view_eq
  rw [hmerge, HandleView.withPending]
  split <;> rfl

theorem mergeFlag_eq (stands : Stands hd s p) : hd.mergeBuf.flag = s.mergeFlag := by
  have hflag : hd.mergeBuf.flag = (s.withPending p).mergeFlag :=
    congrArg HandleView.mergeFlag stands.view_eq
  rw [hflag, HandleView.withPending]
  split <;> rfl

/-- The handle is in `PARSE_FAILED` exactly behind a malformed length. -/
theorem failed_iff (stands : Stands hd s p) : hd.parseState = .failed ↔ Malformed p := by
  have hstate : hd.parseState = (s.withPending p).parseState :=
    congrArg HandleView.parseState stands.view_eq
  have hcomplete := stands.complete
  rw [hstate, HandleView.withPending]
  by_cases hnil : p = []
  · subst hnil
    rw [if_pos rfl, hcomplete]
    constructor
    · intro h
      cases h
    · rintro ⟨-, hlen, -⟩
      simp only [List.length_nil] at hlen
      omega
  · rw [if_neg hnil]
    by_cases hbad : Malformed p
    · simp [hbad]
    · simp [hbad]

/-- The view of a handle that a parse left. -/
theorem parsed {hd' : WebsocketHandle} (stands : Stands hd s p) {header : FrameHeader}
    {content : Bytes} {state : ParseState} {count : Nat}
    (parsed : ParsedAs hd hd' header content state count) :
    hd'.view = { s with header := header, proto := content, parseState := state } := by
  have hproto := parsed.flag_eq.trans stands.protoFlag_eq
  have hmerge := stands.merge_eq
  have hflag := stands.mergeFlag_eq
  rw [← parsed.mergeBuf_eq] at hmerge hflag
  rw [WebsocketHandle.view, parsed.header_eq, parsed.content_eq, parsed.state_eq, hproto, hmerge,
    hflag]

end Stands

theorem ParsedAs.sized {hd hd' : WebsocketHandle} {header : FrameHeader} {content : Bytes}
    {state : ParseState} {count : Nat} (parsed : ParsedAs hd hd' header content state count)
    (sized : hd.Sized) : hd'.Sized := by
  refine ⟨parsed.doubled sized.1, ?_⟩
  rw [parsed.mergeBuf_eq]
  exact sized.2

/-! ### The dispatch -/

/-- The buffers behind two handles of one view. -/
theorem Membuf.Doubled.setFlag {buf : Membuf} (doubled : buf.Doubled) (value : UInt8) :
    (buf.setFlag value).Doubled := doubled

/-- A data frame is delivered or begins a message; it always fits. -/
theorem dispatchData_ok (flag : UInt8) {hd : WebsocketHandle} (small : hd.protoBuf.size ≤ 2 ^ 31) :
    ∃ hd', dispatchData flag hd = .ok (hd', (hd.view.dataFrame flag).2) ∧
      hd'.view = (hd.view.dataFrame flag).1 ∧ hd'.readCount = hd.readCount ∧
      (hd.Sized → hd'.Sized) := by
  unfold dispatchData HandleView.dataFrame
  dsimp only
  rw [show hd.view.header.isEof = hd.isEof from rfl]
  cases heof : hd.isEof with
  | true => exact ⟨_, rfl, rfl, rfl, id⟩
  | false =>
      have hempty : ((membufClear hd.mergeBuf 0).setFlag flag).size = 0 := by
        rw [← Membuf.length_content, Membuf.setFlag_content, membufClear_content]
        rfl
      obtain ⟨mergeBuf, happend, hdoubled⟩ :=
        membufAppendData_ok ((membufClear hd.mergeBuf 0).setFlag flag) hd.protoBuf.content
          (by rw [hempty, Membuf.length_content]; omega)
      obtain ⟨hcontent, hflag⟩ := membufAppendData_content happend
      rw [Membuf.setFlag_content, membufClear_content, List.nil_append] at hcontent
      rw [Membuf.setFlag_flag, membufClear_flag] at hflag
      simp only [Bool.false_eq_true, if_false, Membuf.setFlag_content, happend, ok_bind]
      refine ⟨_, rfl, ?_, rfl, ?_⟩
      · simp only [WebsocketHandle.view, Membuf.setFlag_content, Membuf.setFlag_flag, hcontent,
          hflag]
      · rintro ⟨hproto, hmerge⟩
        exact ⟨hproto.setFlag flag, hdoubled ((membufClear_doubled hmerge).setFlag flag)⟩

/-- The `switch` does what the receiver does, as long as the receiver does something. -/
theorem dispatchFrame_ok {hd : WebsocketHandle} {s' : HandleView} {events : List Event}
    (small : hd.protoBuf.size ≤ 2 ^ 31) (h : hd.view.dispatch = some (s', events)) :
    ∃ hd', dispatchFrame hd = .ok (hd', events) ∧ hd'.view = s' ∧
      hd'.readCount = hd.readCount ∧ (hd.Sized → hd'.Sized) := by
  have hdata : ∀ flag, some (hd.view.dataFrame flag) = some (s', events) →
      ∃ hd', dispatchData flag hd = .ok (hd', events) ∧ hd'.view = s' ∧
        hd'.readCount = hd.readCount ∧ (hd.Sized → hd'.Sized) := by
    intro flag hflag
    rw [Option.some.injEq] at hflag
    obtain ⟨hd', hcall, hview, hcount, hsized⟩ := dispatchData_ok flag small
    rw [hflag] at hcall hview
    exact ⟨hd', hcall, hview, hcount, hsized⟩
  unfold HandleView.dispatch at h
  rw [show hd.view.header.type = hd.type from rfl] at h
  split at h <;> rename_i htype
  · -- a continuation
    rw [dispatchFrame, htype]
    unfold HandleView.continuation at h
    split at h
    · rename_i hfits
      cases h
      rw [List.length_append] at hfits
      have hroom : hd.mergeBuf.size + hd.protoBuf.content.length ≤ 2 ^ 31 := by
        rw [← hd.mergeBuf.length_content]
        exact hfits
      obtain ⟨mergeBuf, happend, hdoubled⟩ := membufAppendData_ok _ _ hroom
      obtain ⟨hcontent, hflag⟩ := membufAppendData_content happend
      refine ⟨{ hd with mergeBuf := mergeBuf }, ?_, ?_, rfl, fun hs => ⟨hs.1, hdoubled hs.2⟩⟩
      · simp only [dispatchContinuation, happend, ok_bind]
        rw [hcontent, hflag, show hd.view.header.isEof = hd.isEof from rfl]
        cases hd.isEof <;> rfl
      · simp only [WebsocketHandle.view, hcontent, hflag]
    · cases h
  · rw [dispatchFrame, htype]
    exact hdata _ h
  · rw [dispatchFrame, htype]
    exact hdata _ h
  · cases h
    rw [dispatchFrame, htype]
    exact ⟨hd, rfl, rfl, rfl, id⟩
  · cases h
    rw [dispatchFrame, htype]
    exact ⟨hd, rfl, rfl, rfl, id⟩
  · cases h
    refine ⟨hd, ?_, rfl, rfl, id⟩
    unfold dispatchFrame
    split <;> first | contradiction | rfl

/-- A message that no longer fits the merge buffer brings the call down. -/
theorem dispatchFrame_error {hd : WebsocketHandle} (sized : hd.Sized)
    (h : hd.view.dispatch = none) : ∃ fault, dispatchFrame hd = .error fault := by
  unfold HandleView.dispatch at h
  rw [show hd.view.header.type = hd.type from rfl] at h
  split at h <;> rename_i htype
  · rw [dispatchFrame, htype]
    unfold HandleView.continuation at h
    split at h
    · cases h
    · rename_i hover
      rw [List.length_append] at hover
      have hlarge : 2 ^ 31 < hd.mergeBuf.size + hd.protoBuf.content.length := by
        rw [← hd.mergeBuf.length_content]
        exact Nat.lt_of_not_le hover
      obtain ⟨fault, happend⟩ := membufAppendData_error sized.2 hlarge
      refine ⟨fault, ?_⟩
      simp only [dispatchContinuation, happend, error_bind]
  all_goals cases h

/-! ### One pass -/

/-- What one pass leaves. -/
structure PassTo (hd : WebsocketHandle) (pass : Pass) (s : HandleView) (p : Bytes) (count : Nat)
    (events : List Event) : Prop where
  stands : Stands pass.handle s p
  count_eq : pass.handle.readCount = count
  events_eq : pass.events = events
  sized : hd.Sized → pass.handle.Sized

section Passes

variable (endpoint : EndpointType) {hd : WebsocketHandle} {s : HandleView} {p d : Bytes}

/-- An open frame takes the whole chunk. -/
theorem readPass_more (stands : Stands hd s p) (hd_ : d ≠ [])
    (hscan : frameScan (p ++ d) = .more) (small : (p ++ d).length ≤ 2 ^ 31) :
    ∃ pass, readPass endpoint hd d = .ok pass ∧ PassTo hd pass s (p ++ d) d.length [] := by
  obtain rfl := stands.pending_eq
  obtain ⟨hd', hcall, hparsed⟩ := tryParseProtocol_more hd_ hscan (by rwa [← List.length_append])
  have good : ¬ Malformed (hd.pending ++ d) := by
    intro hbad
    rw [frameScan_of_malformed hbad] at hscan
    cases hscan
  refine ⟨⟨hd', [], endpoint = .server⟩, ?_, ?_, hparsed.readCount_eq, rfl, hparsed.sized⟩
  · unfold readPass
    rw [hcall, ok_bind]
    simp only [hparsed.state_eq]
  · refine ⟨?_, stands.complete, Or.inl hscan, small⟩
    rw [stands.parsed hparsed, HandleView.withPending, if_neg (by simp [hd_]), if_neg good,
      stands.applyHeader_base]

/-- An unfinished frame holds no more than a malformed length. -/
theorem Stands.length_le_six (stands : Stands hd s p) (hbad : Malformed (p ++ d)) :
    p.length ≤ 6 := by
  rcases stands.unfinished with hmore | ⟨-, hsix⟩
  · have hsettled : (frameScanner.scan (p ++ d)).size = some 6 := by
      rw [show frameScanner.scan (p ++ d) = _ from frameScan_of_malformed hbad]
      rfl
    exact Nat.le_of_lt (Scanner.lt_of_more hmore hsettled)
  · omega

/-- A malformed length stops the pass after six bytes, closes, and stays in the loop. -/
theorem readPass_bad (stands : Stands hd s p) (hd_ : d ≠ []) (hbad : Malformed (p ++ d)) :
    ∃ pass, readPass endpoint hd d = .ok pass ∧ pass.leaves = false ∧
      PassTo hd pass s ((p ++ d).take 6) (6 - p.length) [.twCloseClient] := by
  have hsix := stands.length_le_six hbad
  have hscan := frameScan_of_malformed hbad
  have hlen : ((p ++ d).take 6).length = 6 := by
    have := hbad.2.1
    rw [List.length_take]
    omega
  have hcut : Malformed ((p ++ d).take 6) :=
    hbad.congr (agreeTo_take (p ++ d) 6) (by omega)
  obtain rfl := stands.pending_eq
  obtain ⟨hd', hcall, hparsed⟩ := tryParseProtocol_bad hd_ hbad stands.small
  rw [show hd.pending ++ d.take (6 - hd.pending.length) = (hd.pending ++ d).take 6 by
    rw [List.take_append, List.take_of_length_le hsix], stands.applyHeader_base,
    ← applyHeader_take (n := 6) _ (by rw [hscan]; rfl)] at hparsed
  refine ⟨⟨hd', [.twCloseClient], false⟩, ?_, rfl, ?_, hparsed.readCount_eq, rfl, hparsed.sized⟩
  · unfold readPass
    rw [hcall, ok_bind]
    simp only [hparsed.state_eq]
  · refine ⟨?_, stands.complete, Or.inr ⟨hcut, hlen⟩, by omega⟩
    have hne : ¬ (hd.pending ++ d).take 6 = [] := by
      intro hnil
      rw [hnil] at hlen
      cases hlen
    rw [stands.parsed hparsed, HandleView.withPending, if_neg hne, if_pos hcut]

/-- A complete frame ends behind the bytes that were buffered. -/
theorem Stands.length_lt_unit (stands : Stands hd s p) {n : Nat}
    (hscan : frameScan (p ++ d) = .unit n) : p.length < n := by
  rcases stands.unfinished with hmore | ⟨hbad, hsix⟩
  · have hsettled : (frameScanner.scan (p ++ d)).size = some n := by
      rw [show frameScanner.scan (p ++ d) = _ from hscan]
      rfl
    exact Scanner.lt_of_more hmore hsettled
  · have hboth := frameScan_of_malformed (hbad.congr (agreeTo_append d (by omega))
      (by rw [List.length_append]; omega))
    rw [hboth] at hscan
    cases hscan

/-- A complete frame takes the view to the one in which it has been parsed. -/
theorem tryParseProtocol_accept (stands : Stands hd s p) (hd_ : d ≠ []) {n : Nat}
    (hscan : frameScan (p ++ d) = .unit n) (small : n ≤ 2 ^ 31) :
    ∃ hd', tryParseProtocol hd d = .ok (true, hd') ∧
      ParsedAs hd hd' (applyHeader hd.base (p ++ d)) (frameContent ((p ++ d).take n)) .complete
        (n - p.length) ∧
      hd'.view = s.accept ((p ++ d).take n) := by
  have hlong := Nat.le_of_lt (stands.length_lt_unit hscan)
  obtain rfl := stands.pending_eq
  obtain ⟨hd', hcall, hparsed⟩ := tryParseProtocol_unit hd_ hscan hlong small
  refine ⟨hd', hcall, hparsed, ?_⟩
  rw [stands.parsed hparsed, stands.applyHeader_base, HandleView.accept,
    applyHeader_take _ (by rw [hscan]; rfl)]

/-- A complete frame is handled as the receiver handles it. -/
theorem readPass_unit (stands : Stands hd s p) (hd_ : d ≠ []) {n : Nat}
    (hscan : frameScan (p ++ d) = .unit n) (small : n ≤ 2 ^ 31) {s' : HandleView}
    {events : List Event}
    (handled : (s.accept ((p ++ d).take n)).dispatch = some (s', events)) :
    ∃ pass, readPass endpoint hd d = .ok pass ∧ pass.leaves = false ∧
      PassTo hd pass s' [] (n - p.length) events := by
  obtain ⟨hd', hcall, hparsed, hview⟩ := tryParseProtocol_accept stands hd_ hscan small
  have hsize : hd'.protoBuf.size ≤ 2 ^ 31 := by
    have := frameContent_length_le ((p ++ d).take n)
    rw [List.length_take] at this
    rw [← hd'.protoBuf.length_content, hparsed.content_eq]
    omega
  rw [← hview] at handled
  obtain ⟨hd'', hdispatch, hview', hcount, hsized⟩ := dispatchFrame_ok hsize handled
  obtain ⟨-, -, hstate, -⟩ := dispatch_spec handled
  refine ⟨⟨hd'', events, false⟩, ?_, rfl, ?_, hcount.trans hparsed.readCount_eq, rfl,
    hsized ∘ hparsed.sized⟩
  · unfold readPass
    rw [hcall, ok_bind]
    simp only [hparsed.state_eq, hdispatch, ok_bind]
  · have hdone : s'.parseState = .complete := hstate.trans hparsed.state_eq
    exact ⟨hview', hdone, Or.inl rfl, Nat.zero_le _⟩

/-- An overlong frame brings the pass down. -/
theorem readPass_overlong (stands : Stands hd s p) (hd_ : d ≠ []) (sized : hd.Sized)
    (exceeds : Overlong (p ++ d)) : ∃ fault, readPass endpoint hd d = .error fault := by
  obtain ⟨hfield, good, hlarge⟩ := exceeds
  rw [List.length_append] at hlarge
  obtain rfl := stands.pending_eq
  obtain ⟨fault, hcall⟩ := tryParseProtocol_error hd_ sized.1 stands.small hfield good hlarge
  refine ⟨fault, ?_⟩
  unfold readPass
  rw [hcall, error_bind]

/-- A message that has outgrown the merge buffer brings the pass down. -/
theorem readPass_refused (stands : Stands hd s p) (hd_ : d ≠ []) (sized : hd.Sized) {n : Nat}
    (hscan : frameScan (p ++ d) = .unit n) (small : n ≤ 2 ^ 31)
    (refused : (s.accept ((p ++ d).take n)).dispatch = none) :
    ∃ fault, readPass endpoint hd d = .error fault := by
  obtain ⟨hd', hcall, hparsed, hview⟩ := tryParseProtocol_accept stands hd_ hscan small
  rw [← hview] at refused
  obtain ⟨fault, hdispatch⟩ := dispatchFrame_error (hparsed.sized sized) refused
  refine ⟨fault, ?_⟩
  unfold readPass
  rw [hcall, ok_bind]
  simp only [hparsed.state_eq, hdispatch, error_bind]

/-- Everything that a pass over the rest `d` of a chunk can do, beside what the receiver does with the
same bytes. -/
inductive PassCase (hd : WebsocketHandle) (s : HandleView) (p d : Bytes) : Prop where
  /-- The frame stays open. -/
  | more (pass : Pass) (call : readPass endpoint hd d = .ok pass)
      (state : pass.handle.parseState = .incomplete) (leads : PassTo hd pass s (p ++ d) d.length [])
      (run : receiver.run s (p ++ d) = ⟨[], s, .waiting (p ++ d)⟩)
  /-- The length is malformed. -/
  | bad (pass : Pass) (call : readPass endpoint hd d = .ok pass) (stays : pass.leaves = false)
      (state : pass.handle.parseState = .failed) (malformed : Malformed (p ++ d))
      (leads : PassTo hd pass s ((p ++ d).take 6) (6 - p.length) [.twCloseClient])
      (run : receiver.run s (p ++ d) = ⟨[], s, .rejected (p ++ d)⟩)
  /-- A frame of `n` bytes is complete. -/
  | unit (pass : Pass) (n : Nat) (s' : HandleView) (events : List Event)
      (call : readPass endpoint hd d = .ok pass) (stays : pass.leaves = false)
      (state : pass.handle.parseState = .complete)
      (scan : frameScan (p ++ d) = .unit n) (small : n ≤ 2 ^ 31)
      (handled : (s.accept ((p ++ d).take n)).dispatch = some (s', events))
      (leads : PassTo hd pass s' [] (n - p.length) events)
      (run : receiver.run s (p ++ d) =
        (receiver.run s' (d.drop (n - p.length))).after [(n, events)])
  /-- A frame or a message outgrows its buffer. -/
  | fault (fault : Fault) (call : readPass endpoint hd d = .error fault)
      (run : receiver.run s (p ++ d) = ⟨[], s, .failed⟩)

/-- **What a pass can do**, wherever the handle stands. -/
theorem readPass_cases (stands : Stands hd s p) (sized : hd.Sized) (hd_ : d ≠ []) :
    PassCase endpoint hd s p d := by
  cases hscan : frameScan (p ++ d) with
  | more =>
      have hrun := Decoder.run_more (D := receiver) (s := s) hscan
      by_cases hsmall : (p ++ d).length ≤ receiver.limit
      · rw [if_pos hsmall] at hrun
        obtain ⟨pass, hpass, hto⟩ := readPass_more endpoint stands hd_ hscan hsmall
        have hgood : ¬ Malformed (p ++ d) := by
          intro hbad
          rw [frameScan_of_malformed hbad] at hscan
          cases hscan
        have hstate : pass.handle.parseState = .incomplete := by
          have hview := congrArg HandleView.parseState hto.stands.view_eq
          rw [HandleView.withPending, if_neg (by simp [hd_]), if_neg hgood] at hview
          exact hview
        exact .more pass hpass hstate hto hrun
      · rw [if_neg hsmall] at hrun
        obtain ⟨fault, hpass⟩ := readPass_overlong endpoint stands hd_ sized
          (.of_more hscan (Nat.lt_of_not_le hsmall))
        exact .fault fault hpass hrun
  | bad m =>
      obtain ⟨hbad, rfl⟩ := frameScan_bad hscan
      have hrun := Decoder.run_bad (D := receiver) (s := s) hscan
      rw [if_pos (by decide)] at hrun
      obtain ⟨pass, hpass, hstays, hto⟩ := readPass_bad endpoint stands hd_ hbad
      have hcut : Malformed ((p ++ d).take 6) := by
        have hlen := hbad.2.1
        exact hbad.congr (agreeTo_take (p ++ d) 6) (by rw [List.length_take]; omega)
      exact .bad pass hpass hstays (hto.stands.failed_iff.mpr hcut) hbad hto hrun
  | unit n =>
      have hle : n ≤ (p ++ d).length := Scanner.unit_le (S := frameScanner) hscan
      by_cases hsmall : n ≤ receiver.limit
      · have hcut : ((p ++ d).take n).length = n := by
          rw [List.length_take]
          omega
        cases hhandle : (s.accept ((p ++ d).take n)).dispatch with
        | none =>
            obtain ⟨fault, hpass⟩ := readPass_refused endpoint stands hd_ sized hscan hsmall hhandle
            refine .fault fault hpass ?_
            rw [Decoder.run_unit (D := receiver) hscan, if_pos hsmall,
              show receiver.handle s ((p ++ d).take n) = none by simp [receiver, hhandle]]
        | some next =>
            obtain ⟨s', events⟩ := next
            obtain ⟨pass, hpass, hstays, hto⟩ :=
              readPass_unit endpoint stands hd_ hscan hsmall hhandle
            have hlong := stands.length_lt_unit hscan
            have hnext : (p ++ d).drop n = d.drop (n - p.length) := by
              rw [List.drop_append, List.drop_eq_nil_of_le (Nat.le_of_lt hlong), List.nil_append]
            have hrun := Decoder.run_unit_some (D := receiver) hscan hsmall (receiver_handle hhandle)
            rw [hcut, hnext] at hrun
            have hstate : pass.handle.parseState = .complete :=
              (congrArg HandleView.parseState hto.stands.view_eq).trans hto.stands.complete
            exact .unit pass n s' events hpass hstays hstate hscan hsmall hhandle hto hrun
      · obtain ⟨fault, hpass⟩ := readPass_overlong endpoint stands hd_ sized
          (.of_unit hscan (Nat.lt_of_not_le hsmall))
        refine .fault fault hpass ?_
        rw [Decoder.run_unit (D := receiver) hscan, if_neg hsmall]

end Passes

/-! ### The loop

`finish` says where the loop stands when the receiver comes to rest, and which pass it makes last. A
malformed length is no rest unless it ends the chunk: the next pass finds it again. -/

/-- The bytes that the handle keeps and the last pass, when the loop comes back. -/
def finish : Halt UInt8 → Option (Bytes × List (Nat × List Event))
  | .waiting [] => some ([], [])
  | .waiting p => some (p, [(p.length, [])])
  | .rejected rest => if rest.length ≤ 6 then some (rest, [(6, [.twCloseClient])]) else none
  | .failed => none

theorem finish_waiting {p : Bytes} (h : p ≠ []) :
    finish (.waiting p) = some (p, [(p.length, [])]) := by
  cases p with
  | nil => exact absurd rfl h
  | cons b p => rfl

/-- A receiver that waits has come to rest, and no pass behind its events calls anything. -/
theorem finish_waiting_quiet (p : Bytes) :
    ∃ tail, finish (.waiting p) = some (p, tail) ∧ tail.flatMap Prod.snd = [] := by
  cases p with
  | nil => exact ⟨_, rfl, rfl⟩
  | cons b p => exact ⟨_, rfl, rfl⟩

/-- The loop comes back on a rest that waits, or on a malformed length that ends the chunk. -/
theorem finish_inv {halt : Halt UInt8} {p : Bytes} {tail : List (Nat × List Event)}
    (h : finish halt = some (p, tail)) :
    (halt = .waiting p ∧ tail.flatMap Prod.snd = []) ∨
      (halt = .rejected p ∧ tail = [(6, [.twCloseClient])]) := by
  cases halt with
  | waiting q =>
      obtain ⟨quiet, hquiet, hnone⟩ := finish_waiting_quiet q
      rw [hquiet] at h
      cases h
      exact Or.inl ⟨rfl, hnone⟩
  | rejected rest =>
      rw [finish] at h
      split at h
      · cases h
        exact Or.inr ⟨rfl, rfl⟩
      · cases h
  | failed => cases h

/-- The first pass takes only what was not buffered before. -/
def countFrom {β : Type} (n : Nat) : List (Nat × β) → List (Nat × β)
  | [] => []
  | (m, events) :: passes => (m - n, events) :: passes

@[simp] theorem countFrom_cons {β : Type} (n m : Nat) (events : β) (passes : List (Nat × β)) :
    countFrom n ((m, events) :: passes) = (m - n, events) :: passes := rfl

@[simp] theorem countFrom_zero {β : Type} (passes : List (Nat × β)) :
    countFrom 0 passes = passes := by
  cases passes <;> rfl

@[simp] theorem countFrom_events {β : Type} (n : Nat) (passes : List (Nat × List β)) :
    (countFrom n passes).flatMap Prod.snd = passes.flatMap Prod.snd := by
  cases passes <;> rfl

section Loop

variable (endpoint : EndpointType) {data : Bytes} {hd : WebsocketHandle} {s : HandleView}
  {p : Bytes}

/-- One pass that stays in the loop. -/
theorem readLoop_stay {fuel k : Nat} {pass : Pass}
    (hpass : readPass endpoint hd (data.drop k) = .ok pass) (stays : pass.leaves = false)
    (more : k + pass.handle.readCount < data.length) :
    readLoop endpoint data (fuel + 1) k hd =
      (readLoop endpoint data fuel (k + pass.handle.readCount) pass.handle).map
        (Trace.after (pass.handle.readCount, pass.events)) := by
  rw [readLoop, hpass, ok_bind]
  simp only [if_pos (⟨stays, more⟩ : pass.leaves = false ∧ _)]
  cases readLoop endpoint data fuel (k + pass.handle.readCount) pass.handle <;> rfl

/-- One pass that leaves the loop. -/
theorem readLoop_leave {fuel k : Nat} {pass : Pass}
    (hpass : readPass endpoint hd (data.drop k) = .ok pass)
    (done : data.length ≤ k + pass.handle.readCount) :
    readLoop endpoint data (fuel + 1) k hd =
      .ok ⟨pass.handle, [(pass.handle.readCount, pass.events)]⟩ := by
  rw [readLoop, hpass, ok_bind]
  simp only
  rw [if_neg (fun h => by omega)]

/-- A pass of a call that comes back: it makes progress, and either it is the last one, or it has
handled the first frame and the rest of the chunk is what the receiver still has to do. -/
structure Advances (data : Bytes) (k : Nat) (hd : WebsocketHandle) (s : HandleView) (p : Bytes)
    (pass : Pass) (s' : HandleView) (n : Nat) : Prop where
  positive : 0 < pass.handle.readCount
  le : k + pass.handle.readCount ≤ data.length
  count_eq : pass.handle.readCount = n - p.length
  sized : hd.Sized → pass.handle.Sized
  last : k + pass.handle.readCount = data.length →
    ∃ p' tail, finish (receiver.run s (p ++ data.drop k)).halt = some (p', tail) ∧
      Stands pass.handle (receiver.run s (p ++ data.drop k)).state p' ∧
      (receiver.run s (p ++ data.drop k)).events ++ tail = [(n, pass.events)]
  inner : k + pass.handle.readCount < data.length →
    pass.leaves = false ∧ Stands pass.handle s' [] ∧
      receiver.run s (p ++ data.drop k) =
        (receiver.run s' (data.drop (k + pass.handle.readCount))).after [(n, pass.events)]

/-- When the receiver comes to rest, the next pass advances. -/
theorem readPass_advances {k : Nat} (stands : Stands hd s p) (hk : k < data.length)
    {out : Bytes × List (Nat × List Event)}
    (hfinish : finish (receiver.run s (p ++ data.drop k)).halt = some out) :
    ∃ pass s' n, readPass endpoint hd (data.drop k) = .ok pass ∧
      Advances data k hd s p pass s' n := by
  have hrest : (data.drop k).length = data.length - k := List.length_drop
  have hd_ : data.drop k ≠ [] := by
    intro hnil
    rw [hnil] at hrest
    simp only [List.length_nil] at hrest
    omega
  have hlen : (p ++ data.drop k).length = p.length + (data.length - k) := by
    rw [List.length_append, hrest]
  cases hscan : frameScan (p ++ data.drop k) with
  | more =>
      have hrun := Decoder.run_more (D := receiver) (s := s) hscan
      rw [hrun] at hfinish
      by_cases hsmall : (p ++ data.drop k).length ≤ receiver.limit
      · rw [if_pos hsmall] at hrun
        obtain ⟨pass, hpass, hto⟩ := readPass_more endpoint stands hd_ hscan hsmall
        have hcount := hto.count_eq
        refine ⟨pass, s, (p ++ data.drop k).length, hpass, by omega, by omega, by omega, hto.sized,
          fun _ => ?_, fun h => by omega⟩
        rw [hrun]
        exact ⟨_, _, finish_waiting (by simp [hd_]), hto.stands, by rw [hto.events_eq]; rfl⟩
      · rw [if_neg hsmall] at hfinish
        cases hfinish
  | bad m =>
      obtain ⟨hbad, rfl⟩ := frameScan_bad hscan
      have hrun := Decoder.run_bad (D := receiver) (s := s) hscan
      rw [if_pos (by decide)] at hrun
      rw [hrun] at hfinish
      simp only [finish] at hfinish
      split at hfinish
      · rename_i hsix
        obtain ⟨pass, hpass, -, hto⟩ := readPass_bad endpoint stands hd_ hbad
        have hmany := hbad.2.1
        have hcount := hto.count_eq
        have hstands := hto.stands
        rw [List.take_of_length_le hsix] at hstands
        refine ⟨pass, s, 6, hpass, by omega, by omega, hcount, hto.sized, fun _ => ?_,
          fun h => by omega⟩
        rw [hrun]
        exact ⟨_, _, if_pos hsix, hstands, by rw [hto.events_eq]; rfl⟩
      · cases hfinish
  | unit n =>
      have hle : n ≤ (p ++ data.drop k).length := Scanner.unit_le (S := frameScanner) hscan
      rw [Decoder.run_unit (D := receiver) hscan] at hfinish
      by_cases hsmall : n ≤ receiver.limit
      · rw [if_pos hsmall] at hfinish
        have hcut : ((p ++ data.drop k).take n).length = n := by
          rw [List.length_take]
          omega
        cases hhandle : (s.accept ((p ++ data.drop k).take n)).dispatch with
        | none =>
            rw [show receiver.handle s ((p ++ data.drop k).take n) = none by
              simp [receiver, hhandle]] at hfinish
            cases hfinish
        | some next =>
            obtain ⟨s', events⟩ := next
            obtain ⟨pass, hpass, hstays, hto⟩ :=
              readPass_unit endpoint stands hd_ hscan hsmall hhandle
            have hlong := stands.length_lt_unit hscan
            have hcount := hto.count_eq
            have hnext : (p ++ data.drop k).drop n = data.drop (k + pass.handle.readCount) := by
              rw [hcount, List.drop_append, List.drop_eq_nil_of_le (Nat.le_of_lt hlong),
                List.nil_append, List.drop_drop]
            have hrun := Decoder.run_unit_some (D := receiver) hscan hsmall (receiver_handle hhandle)
            rw [hcut, hnext] at hrun
            refine ⟨pass, s', n, hpass, by omega, by omega, hcount, hto.sized, fun hdone => ?_,
              fun _ => ⟨hstays, hto.stands, by rw [hrun, hto.events_eq]⟩⟩
            rw [hrun, hdone, List.drop_length, Decoder.run_nil]
            exact ⟨_, _, rfl, hto.stands, by rw [hto.events_eq]; rfl⟩
      · rw [if_neg hsmall] at hfinish
        cases hfinish

/-- **The loop comes back** when the receiver comes to rest, with the receiver's callbacks and a handle
that stands where the receiver rests. -/
theorem readLoop_ok {fuel k : Nat} (stands : Stands hd s p) (hk : k < data.length)
    (hfuel : data.length - k ≤ fuel) {p' : Bytes} {tail : List (Nat × List Event)}
    (hfinish : finish (receiver.run s (p ++ data.drop k)).halt = some (p', tail)) :
    ∃ trace, readLoop endpoint data fuel k hd = .ok trace ∧
      Stands trace.handle (receiver.run s (p ++ data.drop k)).state p' ∧
      trace.passes = countFrom p.length ((receiver.run s (p ++ data.drop k)).events ++ tail) ∧
      (hd.Sized → trace.handle.Sized) := by
  induction fuel generalizing k hd s p with
  | zero => omega
  | succ fuel ih =>
      obtain ⟨pass, s', n, hpass, advances⟩ :=
        readPass_advances endpoint stands hk hfinish
      have hpositive := advances.positive
      rcases Nat.lt_or_eq_of_le advances.le with hinner | hlast
      · obtain ⟨hstays, hstands, hrun⟩ := advances.inner hinner
        rw [hrun] at hfinish ⊢
        obtain ⟨trace, hloop, hstands', hpasses, hsized⟩ :=
          ih hstands hinner (by omega) hfinish
        refine ⟨trace.after (pass.handle.readCount, pass.events), ?_, hstands', ?_,
          hsized ∘ advances.sized⟩
        · rw [readLoop_stay endpoint hpass hstays hinner, hloop]
          rfl
        · rw [Trace.after_passes, hpasses, advances.count_eq, List.length_nil, countFrom_zero]
          rfl
      · obtain ⟨p'', tail', hfinish', hstands, hevents⟩ := advances.last hlast
        rw [hfinish] at hfinish'
        cases hfinish'
        refine ⟨_, readLoop_leave endpoint hpass (by omega), hstands, ?_, advances.sized⟩
        rw [hevents, countFrom_cons, advances.count_eq]

/-- Behind a malformed length every pass takes nothing, closes once more and goes on. -/
theorem readLoop_spin {k : Nat} (stands : Stands hd s p) (hbad : Malformed p)
    (hk : k < data.length) (fuel : Nat) :
    readLoop endpoint data fuel k hd = .error .outOfFuel := by
  induction fuel generalizing hd with
  | zero => rfl
  | succ fuel ih =>
      have hsix : p.length = 6 := by
        rcases stands.unfinished with hmore | ⟨-, hsix⟩
        · rw [frameScan_of_malformed hbad] at hmore
          cases hmore
        · exact hsix
      have hd_ : data.drop k ≠ [] := by
        intro hnil
        have := congrArg List.length hnil
        simp only [List.length_drop, List.length_nil] at this
        omega
      have hwhole : Malformed (p ++ data.drop k) :=
        hbad.congr (agreeTo_append _ (by omega)) (by rw [List.length_append]; omega)
      obtain ⟨pass, hpass, hstays, hto⟩ :=
        readPass_bad endpoint stands hd_ hwhole
      have hstands := hto.stands
      rw [List.take_left' hsix] at hstands
      have hcount : pass.handle.readCount = 0 := by rw [hto.count_eq, hsix]
      rw [readLoop_stay endpoint hpass hstays (by omega), hcount, Nat.add_zero, ih hstands]
      rfl

/-- **The loop does not come back** when the receiver comes to no rest. -/
theorem readLoop_error {k : Nat} (stands : Stands hd s p) (sized : hd.Sized)
    (hk : k < data.length) (hfinish : finish (receiver.run s (p ++ data.drop k)).halt = none)
    (fuel : Nat) : ∃ fault, readLoop endpoint data fuel k hd = .error fault := by
  induction fuel generalizing k hd s p with
  | zero => exact ⟨_, rfl⟩
  | succ fuel ih =>
      have hrest : (data.drop k).length = data.length - k := List.length_drop
      have hd_ : data.drop k ≠ [] := by
        intro hnil
        rw [hnil] at hrest
        simp only [List.length_nil] at hrest
        omega
      have hstop : ∀ {fault : Fault}, readPass endpoint hd (data.drop k) = .error fault →
          ∃ fault, readLoop endpoint data (fuel + 1) k hd = .error fault := by
        intro fault hpass
        exact ⟨fault, by rw [readLoop, hpass, error_bind]⟩
      cases readPass_cases endpoint stands sized hd_ with
      | more pass hpass hstate hto hrun =>
          rw [hrun, finish_waiting (by simp [hd_])] at hfinish
          cases hfinish
      | bad pass hpass hstays hstate hbad hto hrun =>
          rw [hrun] at hfinish
          simp only [finish] at hfinish
          split at hfinish
          · cases hfinish
          · rename_i hlong
            rw [List.length_append, hrest] at hlong
            have hsix := stands.length_le_six hbad
            have hcut := hto.stands.failed_iff.mp hstate
            have hcount := hto.count_eq
            refine ⟨.outOfFuel, ?_⟩
            rw [readLoop_stay endpoint hpass hstays (by omega),
              readLoop_spin endpoint hto.stands hcut (by omega) fuel]
            rfl
      | unit pass n s' events hpass hstays hstate hscan hsmall hhandle hto hrun =>
          have hnext : (data.drop k).drop (n - p.length) =
              data.drop (k + pass.handle.readCount) := by rw [List.drop_drop, hto.count_eq]
          rw [hrun, hnext, Run.after_halt] at hfinish
          by_cases hdone : data.length ≤ k + pass.handle.readCount
          · rw [List.drop_eq_nil_of_le hdone, Decoder.run_nil] at hfinish
            cases hfinish
          · obtain ⟨fault, hloop⟩ := ih hto.stands (hto.sized sized) (by omega) hfinish
            exact ⟨fault, by rw [readLoop_stay endpoint hpass hstays (by omega), hloop]; rfl⟩
      | fault fault hpass hrun => exact hstop hpass

end Loop

/-! ### Whole connections -/

section Connection

variable (endpoint : EndpointType) {hd : WebsocketHandle} {s : HandleView} {p : Bytes}

theorem onReadWebsocket_ok {data : Bytes} (stands : Stands hd s p) (hd_ : data ≠ []) {p' : Bytes}
    {tail : List (Nat × List Event)}
    (hfinish : finish (receiver.run s (p ++ data)).halt = some (p', tail)) :
    ∃ trace, onReadWebsocket endpoint hd data = .ok trace ∧
      Stands trace.handle (receiver.run s (p ++ data)).state p' ∧
      trace.passes = countFrom p.length ((receiver.run s (p ++ data)).events ++ tail) ∧
      (hd.Sized → trace.handle.Sized) :=
  readLoop_ok endpoint (k := 0) stands (List.length_pos_iff.mpr hd_) (Nat.le_refl _) hfinish

/-- A call comes back for some bound exactly when the receiver comes to rest. -/
theorem readLoop_terminates_iff {data : Bytes} (stands : Stands hd s p) (sized : hd.Sized)
    (hd_ : data ≠ []) :
    (∃ fuel trace, readLoop endpoint data fuel 0 hd = .ok trace) ↔
      ∃ out, finish (receiver.run s (p ++ data)).halt = some out := by
  constructor
  · rintro ⟨fuel, trace, hloop⟩
    cases hfinish : finish (receiver.run s (p ++ data)).halt with
    | some out => exact ⟨out, rfl⟩
    | none =>
        obtain ⟨fault, herror⟩ := readLoop_error endpoint (k := 0)
          stands sized (List.length_pos_iff.mpr hd_) hfinish fuel
        rw [herror] at hloop
        cases hloop
  · rintro ⟨⟨p', tail⟩, hfinish⟩
    obtain ⟨trace, hcall, -⟩ := onReadWebsocket_ok endpoint stands hd_ hfinish
    exact ⟨_, trace, hcall⟩

/-- What a call that comes back has done. -/
theorem onReadWebsocket_inv {data : Bytes} (stands : Stands hd s p) (sized : hd.Sized)
    (hd_ : data ≠ []) {trace : Trace} (call : onReadWebsocket endpoint hd data = .ok trace) :
    ∃ p' tail, finish (receiver.run s (p ++ data)).halt = some (p', tail) ∧
      Stands trace.handle (receiver.run s (p ++ data)).state p' ∧
      trace.events = ((receiver.run s (p ++ data)).events ++ tail).flatMap Prod.snd ∧
      trace.handle.Sized := by
  obtain ⟨⟨p', tail⟩, hfinish⟩ :=
    (readLoop_terminates_iff endpoint stands sized hd_).mp ⟨_, trace, call⟩
  obtain ⟨trace', hcall, hstands, hpasses, hsized⟩ := onReadWebsocket_ok endpoint stands hd_ hfinish
  rw [call] at hcall
  cases hcall
  refine ⟨p', tail, hfinish, hstands, ?_, hsized sized⟩
  rw [Trace.events, hpasses, countFrom_events]

/-- Every handle of a connection stands somewhere in the stream, with buffers that grew by
doubling. -/
theorem reachable_stands (reachable : Reachable endpoint hd) :
    ∃ s p, Stands hd s p ∧ hd.Sized := by
  induction reachable with
  | allocated allocated =>
      exact ⟨_, [], .of_complete allocated.parseState_eq, allocated.sized⟩
  | @read hd data trace before nonempty call ih =>
      obtain ⟨s, p, stands, sized⟩ := ih
      obtain ⟨p', -, -, hstands, -, hsized⟩ :=
        onReadWebsocket_inv endpoint stands sized nonempty call
      exact ⟨_, p', hstands, hsized⟩

/-- **The cut does not matter.** Whatever the chunks, the callbacks are those of the receiver's run over
the whole stream, and the handle ends where the receiver rests. -/
theorem feedChunks_ok {chunks : List Bytes} (stands : Stands hd s p)
    (nonempty : ∀ chunk ∈ chunks, chunk ≠ []) {p' : Bytes}
    (rests : (receiver.run s (p ++ chunks.flatten)).halt = .waiting p') :
    ∃ hd', feedChunks endpoint hd chunks =
        .ok (hd', (receiver.run s (p ++ chunks.flatten)).events.flatMap Prod.snd) ∧
      Stands hd' (receiver.run s (p ++ chunks.flatten)).state p' := by
  induction chunks generalizing hd s p with
  | nil =>
      rw [List.flatten_nil, List.append_nil] at rests ⊢
      have hmore : frameScan p = .more := by
        rcases stands.unfinished with hmore | ⟨hbad, -⟩
        · exact hmore
        · rw [Decoder.run_bad (D := receiver) (frameScan_of_malformed hbad),
            if_pos (by decide)] at rests
          cases rests
      rw [Decoder.run_more (D := receiver) hmore,
        if_pos (show p.length ≤ receiver.limit from stands.small)] at rests ⊢
      cases rests
      exact ⟨hd, rfl, stands⟩
  | cons chunk chunks ih =>
      rw [List.flatten_cons, ← List.append_assoc, Decoder.run_append] at rests ⊢
      have hchunk := nonempty chunk (List.mem_cons_self ..)
      -- a run that is resumed and waits had been waiting
      cases hhalt : (receiver.run s (p ++ chunk)).halt with
      | waiting q =>
          simp only [Decoder.resume, hhalt, Run.after_halt] at rests
          simp only [Decoder.resume, hhalt, Run.after_state, Run.after_events]
          obtain ⟨tail, hfinish, htail⟩ := finish_waiting_quiet q
          obtain ⟨trace, hcall, hstands, hpasses, -⟩ :=
            onReadWebsocket_ok endpoint stands hchunk (hhalt ▸ hfinish)
          obtain ⟨hd', hfeed, hstands'⟩ :=
            ih hstands (fun c hc => nonempty c (List.mem_cons_of_mem _ hc)) rests
          refine ⟨hd', ?_, hstands'⟩
          rw [feedChunks, hcall, ok_bind, hfeed, ok_bind, Trace.events, hpasses, countFrom_events,
            List.flatMap_append, List.flatMap_append, htail, List.append_nil]
      | rejected rest =>
          simp only [Decoder.resume, hhalt] at rests
          cases rests
      | failed =>
          simp only [Decoder.resume, hhalt] at rests
          cases rests

end Connection

end AnotherWs
