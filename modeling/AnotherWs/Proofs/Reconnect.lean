/-
Module: AnotherWs.Proofs.Reconnect
Purpose: When a client that is offline tries again. The timer is started where a read fails, and nowhere
  else: not where the receive loop closes.
Trusted boundary: none
Main exports: ReconnectArmed, KeepsTimer, reconnectArmed_of_keepsTimer, reconnectArmed_read_iff,
  close_frame_leaves_offline
-/
import AnotherWs.Proofs.Client

namespace AnotherWs

open Machines

/-- A client that may reconnect, whose stream is not open and that waits for no connect callback,
has its timer active. -/
def ReconnectArmed (s : CWSClient) : Prop :=
  s.enableReconnect = true → s.uvTcp.state ≠ .reading → s.connectRequests = 0 →
    s.reconnectTimer = true

/-- What keeps the timer right: bytes read while working, behind those of the unfinished frame, hold
no close frame and no malformed length, and no close callback of an earlier connection hits one that
is open. -/
def KeepsTimer (s : CWSClient) : ClientAction → Prop
  | .read r => s.status = .working → 0 < r.nread →
      StaysOpen ((CWSClient.handle s.uvTcp).pending ++ r.data)
  | .closeCallback => s.uvTcp.state ≠ .reading
  | _ => True

/-- Where the timer stands in a run that keeps it. -/
structure TimerKept (s : CWSClient) : Prop where
  owned : s.uvTcp.loopData = true
  armed : s.enableReconnect = true → s.uvTcp.state ≠ .reading → s.reconnectTimer = true
  reachable : s.uvTcp.state = .reading → Reachable .client (CWSClient.handle s.uvTcp)

/-- A read that keeps the timer. -/
theorem TimerKept.read {s s' : CWSClient} {r : UvRead} (kept : TimerKept s)
    (reading : s.uvTcp.state = .reading) (keeps : KeepsTimer s (.read r))
    (case_ : CWSClient.ReadCase s r s') : TimerKept s' := by
  have hreachable := kept.reachable reading
  cases case_ with
  | ignored positive handshaking key head empty s_eq =>
      subst s_eq
      refine ⟨kept.owned, kept.armed, fun _ => ?_⟩
      rwa [CWSClient.handle_prepared]
  | accepted positive handshaking key head nonempty s_eq =>
      subst s_eq
      refine ⟨kept.owned, kept.armed, fun _ => ?_⟩
      show Reachable .client (CWSClient.handle s.prepared.uvTcp)
      rwa [CWSClient.handle_prepared]
  | nothing zero s_eq =>
      subst s_eq
      refine ⟨kept.owned, kept.armed, fun _ => ?_⟩
      rwa [CWSClient.handle_prepared]
  | frames positive working trace call made makes s_eq =>
      have hdata := UvRead.data_ne_nil positive
      obtain ⟨v, p, stands, sized⟩ := reachable_stands .client hreachable
      have hstays := keeps working positive
      rw [stands.pending_eq] at hstays
      have hopen : .twCloseClient ∉ trace.events := fun hclose =>
        (closes_iff stands sized hdata call).mp hclose hstays
      rw [makeCalls_open hopen, Except.ok.injEq, Prod.mk.injEq] at makes
      obtain ⟨hpeer, -⟩ := makes
      obtain ⟨-, -, -, -, -, hsized⟩ := onReadWebsocket_inv .client stands sized hdata call
      rw [← hpeer] at s_eq
      subst s_eq
      refine ⟨kept.owned, kept.armed, fun _ => ?_⟩
      have hhandle : CWSClient.handle { s.uvTcp with data := some trace.handle } = trace.handle :=
        CWSClient.handle_of_data rfl hsized
      show Reachable .client (CWSClient.handle { s.uvTcp with data := some trace.handle })
      rw [hhandle]
      exact .read hreachable hdata call
  | failed negative s_eq =>
      have hprepared : s.prepared.uvTcp.state = .reading := reading
      rw [UvStream.close_of_reading hprepared] at s_eq
      subst s_eq
      refine ⟨kept.owned, fun henable _ => ?_, nofun⟩
      show (s.enableReconnect || s.reconnectTimer) = true
      rw [show s.enableReconnect = true from henable]
      rfl

/-- Every step that keeps the timer. -/
theorem TimerKept.step {s s' : CWSClient} {a : ClientAction} (kept : TimerKept s)
    (keeps : KeepsTimer s a) (step : s.step a = some s') : TimerKept s' := by
  cases CWSClient.step_cases kept.owned step with
  | connected random requested opened key request handshake s_eq =>
      subst s_eq
      refine ⟨kept.owned, fun _ hnot => absurd rfl hnot, fun _ => ?_⟩
      exact .allocated (newHandle_allocated .client)
  | connectFailed requested s_eq =>
      subst s_eq
      exact ⟨kept.owned, kept.armed, kept.reachable⟩
  | tick active s_eq =>
      subst s_eq
      exact ⟨kept.owned, fun _ _ => active, nofun⟩
  | read r reading case_ => exact kept.read reading keeps case_
  | closeCallback pending s_eq =>
      subst s_eq
      exact ⟨kept.owned, fun henable _ => kept.armed henable keeps, nofun⟩

/-- **The reconnect timer.** In every run of the client in which what is read while working holds no
close frame and no malformed length, and in which no close callback hits an open connection, every
state in which the client is offline and waits for nothing has its timer active. -/
theorem reconnectArmed_of_keepsTimer (ip : Bytes) (port : UInt16) (uri : Bytes)
    (enableReconnect : Bool) {actions : List ClientAction} {s' : CWSClient}
    (keeps : clientMachine.Guarded KeepsTimer
      (CWSClient.constructed ip port uri enableReconnect).startup actions)
    (run : clientMachine.exec (CWSClient.constructed ip port uri enableReconnect).startup actions =
      some s') :
    ReconnectArmed s' := by
  have hinitial : TimerKept (CWSClient.constructed ip port uri enableReconnect).startup := by
    cases enableReconnect with
    | true => exact ⟨rfl, fun _ _ => rfl, nofun⟩
    | false => exact ⟨rfl, nofun, nofun⟩
  have hkept := Machine.exec_invariant TimerKept
    (fun s a s' kept keeps step => kept.step keeps step) hinitial keeps run
  exact fun henable hoffline _ => hkept.armed henable hoffline

/-- A read behind the handshake that does not stay open closes the stream, and leaves the timer as
it was. -/
theorem closes_without_timer {s s' : CWSClient} {r : UvRead} (owned : s.uvTcp.loopData = true)
    (reading : s.uvTcp.state = .reading) (reachable : Reachable .client (CWSClient.handle s.uvTcp))
    (working : s.status = .working) (positive : 0 < r.nread)
    (closes : ¬ StaysOpen ((CWSClient.handle s.uvTcp).pending ++ r.data))
    (case_ : CWSClient.ReadCase s r s') :
    s'.uvTcp.state = .closing ∧ s'.reconnectTimer = s.reconnectTimer := by
  cases case_ with
  | ignored positive' handshaking | accepted positive' handshaking =>
      rw [working] at handshaking
      cases handshaking
  | frames positive' working' trace call made makes s_eq =>
      obtain ⟨v, p, stands, sized⟩ := reachable_stands .client reachable
      rw [stands.pending_eq] at closes
      have hclose := (closes_iff stands sized (UvRead.data_ne_nil positive) call).mpr closes
      obtain ⟨made', hmade, -, -, -⟩ :=
        @makeCalls_ok { s.uvTcp with data := some trace.handle } owned trace.events
      have hreading : ({ s.uvTcp with data := some trace.handle } : UvStream).state = .reading :=
        reading
      rw [if_pos hclose, UvStream.close_of_reading hreading] at hmade
      rw [hmade, Except.ok.injEq, Prod.mk.injEq] at makes
      have htimer := congrArg CWSClient.reconnectTimer s_eq
      exact ⟨by rw [← makes.1], htimer⟩
  | nothing zero => omega
  | failed negative => omega

/-- For a read behind the handshake the condition is exact: with the timer off and no request
outstanding, the client is armed afterwards exactly when the bytes stay open. -/
theorem reconnectArmed_read_iff {s s' : CWSClient} {r : UvRead} (kept : TimerKept s)
    (enabled : s.enableReconnect = true) (off : s.reconnectTimer = false)
    (noRequest : s.connectRequests = 0) (working : s.status = .working) (positive : 0 < r.nread)
    (step : s.step (.read r) = some s') :
    ReconnectArmed s' ↔ StaysOpen ((CWSClient.handle s.uvTcp).pending ++ r.data) := by
  cases CWSClient.step_cases kept.owned step with
  | read _ reading case_ =>
      have henabled : s'.enableReconnect = true := by
        cases case_ with
        | ignored _ _ _ _ _ s_eq | accepted _ _ _ _ _ s_eq | nothing _ s_eq | failed _ s_eq =>
            rw [s_eq]
            exact enabled
        | frames _ _ _ _ _ _ s_eq => exact (congrArg CWSClient.enableReconnect s_eq).trans enabled
      constructor
      · intro armed
        by_contra hnot
        obtain ⟨hclosing, htimer⟩ := closes_without_timer kept.owned reading (kept.reachable reading)
          working positive hnot case_
        obtain ⟨-, hrequests, -⟩ := case_.stream kept.owned reading
        have hon := armed henabled (by rw [hclosing]; decide) (hrequests.trans noRequest)
        rw [htimer, off] at hon
        cases hon
      · intro hstays _ hoffline _
        exact (kept.read reading (fun _ _ => hstays) case_).armed henabled hoffline

/-- A connection that ends. -/
theorem reconnectArmed_of_keepsTimer_ended :
    ∃ s', clientMachine.exec CWSClient.sample
        [.connected (List.replicate 16 0), .read endOfStream, .closeCallback] = some s' ∧
      s'.uvTcp.state = .closed ∧ ReconnectArmed s' := by
  obtain ⟨request, hconnect⟩ := CWSClient.sample_connects
  have hread := CWSClient.step_of_onRead rfl
    (@CWSClient.onRead_fails (CWSClient.sampleConnected request) endOfStream rfl (by decide))
  have hruns : ∃ s', clientMachine.exec CWSClient.sample
      [.connected (List.replicate 16 0), .read endOfStream, .closeCallback] = some s' ∧
        s'.uvTcp.state = .closed :=
    ⟨_, Machine.exec_cons.mpr ⟨_, hconnect, Machine.exec_cons.mpr ⟨_, hread,
      Machine.exec_cons.mpr ⟨_, rfl, rfl⟩⟩⟩, rfl⟩
  obtain ⟨s', hrun, hclosed⟩ := hruns
  refine ⟨s', hrun, hclosed, reconnectArmed_of_keepsTimer _ _ _ true ?_ hrun⟩
  apply (Machine.Guarded.cons_iff hconnect).mpr
  refine ⟨trivial, (Machine.Guarded.cons_iff hread).mpr ⟨nofun, ?_⟩⟩
  exact ⟨nofun, fun _ _ => trivial⟩

/-- A close frame. -/
def closeFrame : UvRead := ⟨2, [0x88, 0x00], by decide⟩

/-- A client that reads a close frame while it works closes, and never starts the timer: it is
offline, and waits for nothing. -/
theorem close_frame_leaves_offline :
    ∃ s', clientMachine.exec CWSClient.sample
        [.connected (List.replicate 16 0), .read CWSClient.sampleResponse, .read closeFrame,
          .closeCallback] = some s' ∧ ¬ ReconnectArmed s' := by
  obtain ⟨request, hconnect⟩ := CWSClient.sample_connects
  have haccept := CWSClient.step_of_onRead rfl
    (@CWSClient.onRead_accepts (CWSClient.sampleConnected request) _ _ rfl (by decide) rfl
      CWSClient.sampleResponse_value (by decide))
  have hcloses : (CWSClient.onReadWebsocket (newHandle .client) closeFrame.data).map Trace.events =
      .ok [.twCloseClient] := by decide +kernel
  cases hcall : CWSClient.onReadWebsocket (newHandle .client) closeFrame.data with
  | error fault =>
      rw [hcall] at hcloses
      cases hcloses
  | ok trace =>
      rw [hcall, Except.map, Except.ok.injEq] at hcloses
      have hframes := CWSClient.step_of_onRead rfl (@CWSClient.onRead_frames
        { (CWSClient.sampleConnected request).prepared with
          status := .working, calls := [.sendDataWithAsync request, .onConnect] }
        closeFrame trace _ _ rfl (by decide) rfl hcall (by rw [hcloses]; rfl))
      refine ⟨_, Machine.exec_cons.mpr ⟨_, hconnect, Machine.exec_cons.mpr ⟨_, haccept,
        Machine.exec_cons.mpr ⟨_, hframes, Machine.exec_cons.mpr ⟨_, rfl, rfl⟩⟩⟩⟩, ?_⟩
      intro armed
      cases armed rfl nofun rfl

end AnotherWs
