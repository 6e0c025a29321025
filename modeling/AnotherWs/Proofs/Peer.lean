/-
Module: AnotherWs.Proofs.Peer
Purpose: What a read callback does to its connection: the calls of the receive loop and of the close
  functions, which chunks close a connection, and the flag that marks a handshake as done.
Trusted boundary: none
Main exports: UvStream.close, twCloseClient_ok, makeCalls_ok, makeCalls_open, StaysOpen, closes_iff,
  onReadWebsocket_keeps
-/
import AnotherWs.Proofs.Passes
import AnotherWs.Proofs.TypeFlag
import AnotherWs.Core.Server

namespace AnotherWs

open Framing

/-- The end of the stream. -/
def endOfStream : UvRead := ⟨uvEof, [], by decide⟩

/-- The buffers are allocated once. -/
theorem initBuffers_initBuffers (hd : WebsocketHandle) :
    initBuffers (initBuffers hd) = initBuffers hd := by
  unfold initBuffers
  split <;> split <;> simp_all [membufInit]

/-- A handle straight from `calloc` becomes a new one. -/
theorem initBuffers_calloc (endpoint : EndpointType) :
    initBuffers (callocHandle endpoint) = newHandle endpoint := rfl

/-- A handle whose buffers are allocated is left alone. -/
theorem initBuffers_sized {hd : WebsocketHandle} (sized : hd.Sized) : initBuffers hd = hd := by
  obtain ⟨⟨k, -, hproto⟩, ⟨m, -, hmerge⟩⟩ := sized
  have hk := Nat.two_pow_pos k
  have hm := Nat.two_pow_pos m
  unfold initBuffers
  rw [if_neg (by omega), if_neg (by omega)]

/-- A chunk is not empty. -/
theorem UvRead.data_ne_nil {r : UvRead} (positive : 0 < r.nread) : r.data ≠ [] := by
  have hle := r.nread_le
  intro hnil
  have hlen := congrArg List.length hnil
  rw [UvRead.data, List.length_take, List.length_nil] at hlen
  omega

/-! ### The calls -/

namespace UvStream

/-- The stream after `tw_close_client`. -/
def close (peer : UvStream) : UvStream :=
  if peer.isClosing then peer
  else { peer with state := .closing, closeCallbacks := peer.closeCallbacks + 1 }

@[simp] theorem close_data (peer : UvStream) : peer.close.data = peer.data := by
  unfold close
  split <;> rfl

@[simp] theorem close_loopData (peer : UvStream) : peer.close.loopData = peer.loopData := by
  unfold close
  split <;> rfl

theorem close_of_reading {peer : UvStream} (reading : peer.state = .reading) :
    peer.close = { peer with state := .closing, closeCallbacks := peer.closeCallbacks + 1 } := by
  unfold close isClosing
  rw [reading]
  rfl

theorem close_close (peer : UvStream) : peer.close.close = peer.close := by
  have hclosing : peer.close.isClosing = true := by
    unfold close
    split
    · assumption
    · rfl
  conv => lhs; rw [close]
  rw [if_pos hclosing]

end UvStream

/-- With an owner on the loop, `on_close` does nothing. -/
theorem onClose_ok {peer : UvStream} (owned : peer.loopData = true) : onClose peer = .ok [] := by
  rw [onClose, if_neg (not_not_intro owned)]

/-- With an owner on the loop, `tw_close_client` calls `uv_close` alone, and that once. -/
theorem twCloseClient_ok {peer : UvStream} (owned : peer.loopData = true) :
    twCloseClient onClose peer =
      .ok (peer.close, if peer.isClosing then [] else [.uvClose]) := by
  rw [twCloseClient, onClose_ok owned, ok_bind, UvStream.close]
  cases peer.isClosing <;> rfl

/-- The call that an event of the receive loop makes while nothing closes. -/
def Event.call : Event → List Call
  | .onData payload flag => [.onData payload flag]
  | .sendDataWithAsync bytes => [.sendDataWithAsync bytes]
  | .twCloseClient => []

/-- One event and the others. -/
theorem makeCalls_cons {peer mid peer' : UvStream} {event : Event} {events : List Event}
    {calls more : List Call} (call : makeCall onClose peer event = .ok (mid, calls))
    (rest : makeCalls onClose mid events = .ok (peer', more)) :
    makeCalls onClose peer (event :: events) = .ok (peer', calls ++ more) := by
  rw [makeCalls, call, ok_bind]
  simp only [rest, ok_bind]

/-- Events that close nothing become calls and leave the stream alone. -/
theorem makeCalls_open {peer : UvStream} {events : List Event} (open_ : .twCloseClient ∉ events) :
    makeCalls onClose peer events = .ok (peer, events.flatMap Event.call) := by
  induction events with
  | nil => rfl
  | cons event events ih =>
      rw [List.mem_cons, not_or] at open_
      rw [List.flatMap_cons]
      cases event with
      | onData payload flag => exact makeCalls_cons rfl (ih open_.2)
      | sendDataWithAsync bytes => exact makeCalls_cons rfl (ih open_.2)
      | twCloseClient => exact absurd rfl open_.1

/-- The receive loop neither connects nor notifies, and its calls close the stream when one of its
events does. -/
theorem makeCalls_ok {peer : UvStream} (owned : peer.loopData = true) (events : List Event) :
    ∃ calls, makeCalls onClose peer events =
        .ok (if .twCloseClient ∈ events then peer.close else peer, calls) ∧
      .onConnect ∉ calls ∧ .onClose ∉ calls ∧
      (peer.isClosing = false → (.uvClose ∈ calls ↔ .twCloseClient ∈ events)) := by
  induction events generalizing peer with
  | nil => exact ⟨[], rfl, nofun, nofun, fun _ => ⟨nofun, nofun⟩⟩
  | cons event events ih =>
      cases event with
      | onData payload flag =>
          obtain ⟨calls, hcalls, hconnect, hclose, huv⟩ := ih owned
          have hevents : Event.twCloseClient ∈ Event.onData payload flag :: events ↔
              Event.twCloseClient ∈ events := by simp
          simp only [hevents]
          exact ⟨_, makeCalls_cons rfl hcalls, by simpa using hconnect, by simpa using hclose,
            by simpa using huv⟩
      | sendDataWithAsync bytes =>
          obtain ⟨calls, hcalls, hconnect, hclose, huv⟩ := ih owned
          have hevents : Event.twCloseClient ∈ Event.sendDataWithAsync bytes :: events ↔
              Event.twCloseClient ∈ events := by simp
          simp only [hevents]
          exact ⟨_, makeCalls_cons rfl hcalls, by simpa using hconnect, by simpa using hclose,
            by simpa using huv⟩
      | twCloseClient =>
          obtain ⟨calls, hcalls, hconnect, hclose, -⟩ :=
            @ih peer.close (by rw [UvStream.close_loopData, owned])
          rw [UvStream.close_close, ite_self] at hcalls
          rw [if_pos List.mem_cons_self]
          refine ⟨_, makeCalls_cons (twCloseClient_ok owned) hcalls, ?_, ?_, ?_⟩
          · cases peer.isClosing <;> simpa using hconnect
          · cases peer.isClosing <;> simpa using hclose
          · intro hopen
            simp [hopen]

/-! ### Chunks that close -/

/-- A stream of which no complete frame in front is a close frame, and no length is malformed. -/
def StaysOpen (w : Bytes) : Prop :=
  ∀ (us : List Bytes) (rest : Bytes), w = us.flatten ++ rest → (∀ u ∈ us, receiver.IsUnit u) →
    (∀ u ∈ us, opcode u ≠ 8) ∧ ¬ Malformed rest

/-- The handled frames close exactly when one of them is a close frame. -/
theorem handleAll_closes_iff {s s' : HandleView} {us : List Bytes} {out : List (Nat × List Event)}
    (units : ∀ u ∈ us, receiver.IsUnit u) (handled : receiver.handleAll s us = some (s', out)) :
    .twCloseClient ∈ out.flatMap Prod.snd ↔ ∃ u ∈ us, opcode u = 8 := by
  have hagainst := Decoder.handleAll_forall₂ (D := receiver)
    (P := fun (u : Bytes) (pass : Nat × List Event) => .twCloseClient ∈ pass.2 ↔ opcode u = 8)
    (by
      intro s u s' events hunit hhandle
      have hlen := two_le_of_unit hunit.1
      obtain ⟨calls, hdispatch, rfl⟩ := receiver_handle_eq_some hhandle
      exact ⟨_, rfl, (dispatch_calls (by omega) hdispatch).1⟩) units handled
  have hnone : (∀ u ∈ us, opcode u ≠ 8) ↔ ∀ pass ∈ out, Event.twCloseClient ∉ pass.2 :=
    forall₂_forall_iff hagainst fun u pass h => by rw [h]
  rw [List.mem_flatMap]
  constructor
  · rintro ⟨pass, hpass, hclose⟩
    by_contra hnot
    exact hnone.mp (fun u hu h => hnot ⟨u, hu, h⟩) pass hpass hclose
  · rintro ⟨u, hu, hop⟩
    by_contra hnot
    exact hnone.mpr (fun pass hpass h => hnot ⟨pass, hpass, h⟩) u hu hop

/-- **Which chunks close a connection.** A call that comes back has closed exactly when the bytes of the
unfinished frame and of the chunk do not stay open. -/
theorem closes_iff {endpoint : EndpointType} {hd : WebsocketHandle} {s : HandleView} {p data : Bytes}
    (stands : Stands hd s p) (sized : hd.Sized) (nonempty : data ≠ []) {trace : Trace}
    (call : onReadWebsocket endpoint hd data = .ok trace) :
    .twCloseClient ∈ trace.events ↔ ¬ StaysOpen (p ++ data) := by
  obtain ⟨p', tail, hfinish, -, hevents, -⟩ := onReadWebsocket_inv endpoint stands sized nonempty call
  have hsurvives : (receiver.run s (p ++ data)).halt ≠ .failed := by
    intro hfailed
    rw [hfailed] at hfinish
    cases hfinish
  rw [hevents, List.flatMap_append, List.mem_append]
  constructor
  · intro hclose stays
    obtain ⟨us, rest, hsplit, hunits, hall, hstuck⟩ := receiver.run_split s (p ++ data)
    obtain ⟨hframes, hgood⟩ := stays us rest hsplit hunits
    rcases hclose with hclose | hclose
    · obtain ⟨u, hu, hop⟩ := (handleAll_closes_iff hunits hall).mp hclose
      exact hframes u hu hop
    · -- only a malformed length closes in the last pass
      obtain ⟨-, hquiet⟩ | ⟨hhalt, -⟩ := finish_inv hfinish
      · rw [hquiet] at hclose
        cases hclose
      · rw [hhalt] at hstuck
        cases hstuck with
        | rejected scan fits => exact hgood (frameScan_bad scan).1
  · intro hnot
    by_contra hquiet
    rw [not_or] at hquiet
    apply hnot
    intro us rest hsplit hunits
    rw [hsplit] at hsurvives hfinish hquiet
    obtain ⟨s', out, hall, -⟩ :=
      Decoder.run_units_some (D := receiver) (fun u hu => (hunits u hu).1) hsurvives
    have hrun := Decoder.run_units (D := receiver) rest hunits hall
    rw [hrun] at hfinish hquiet
    refine ⟨?_, ?_⟩
    · intro u hu hop
      apply hquiet.1
      rw [Run.after_events, List.flatMap_append, List.mem_append]
      exact Or.inl ((handleAll_closes_iff hunits hall).mpr ⟨u, hu, hop⟩)
    · intro hbad
      rw [Run.after_halt, Decoder.run_bad (D := receiver) (frameScan_of_malformed hbad),
        if_pos (by decide)] at hfinish
      obtain ⟨hwaits, -⟩ | ⟨-, rfl⟩ := finish_inv hfinish
      · cases hwaits
      · exact hquiet.2 (by simp)

/-! ### The flag of the handshake -/

/-- A flag that is set stays set when others are. -/
theorem isset_or {flag value : UInt8} (h : flag &&& value ≠ 0) (other : UInt8) :
    (flag ||| other) &&& value ≠ 0 := by
  rw [or_and_distrib]
  intro hzero
  exact h (UInt8.or_eq_zero_iff.mp hzero).1

/-- Handled frames keep the flags of the protocol buffer. -/
theorem handleAll_keeps {value : UInt8} {s s' : HandleView} {us : List Bytes}
    {out : List (Nat × List Event)} (units : ∀ u ∈ us, receiver.IsUnit u)
    (handled : receiver.handleAll s us = some (s', out)) (isset : s.protoFlag &&& value ≠ 0) :
    s'.protoFlag &&& value ≠ 0 := by
  induction us generalizing s out with
  | nil =>
      cases handled
      exact isset
  | cons u us ih =>
      obtain ⟨mid, first, more, hfirst, hmore, -⟩ := Decoder.handleAll_cons handled
      have hlen := two_le_of_unit (units u (List.mem_cons_self ..)).1
      obtain ⟨events, hdispatch, rfl⟩ := receiver_handle_eq_some hfirst
      apply ih (fun v hv => units v (List.mem_cons_of_mem _ hv)) hmore
      have hflag : mid.protoFlag = (flagStep s.flags u).1.1 :=
        congrArg Prod.fst (dispatch_flags (by omega) hdispatch).1
      rw [hflag, flagStep]
      split
      · exact isset
      · split
        · split
          · exact isset_or isset _
          · exact isset_or isset _
        · exact isset

/-- A call keeps the flag that the handshake has set. -/
theorem onReadWebsocket_keeps {endpoint : EndpointType} {hd : WebsocketHandle} {s : HandleView}
    {p data : Bytes} {value : UInt8} (stands : Stands hd s p) (sized : hd.Sized) (nonempty : data ≠ [])
    {trace : Trace} (call : onReadWebsocket endpoint hd data = .ok trace)
    (isset : hd.protoBuf.flag &&& value ≠ 0) : trace.handle.protoBuf.flag &&& value ≠ 0 := by
  obtain ⟨p', tail, -, hstands, -, -⟩ := onReadWebsocket_inv endpoint stands sized nonempty call
  obtain ⟨us, rest, -, hunits, hall, -⟩ := receiver.run_split s (p ++ data)
  rw [stands.protoFlag_eq] at isset
  rw [hstands.protoFlag_eq]
  exact handleAll_keeps hunits hall isset

end AnotherWs
