/-
Module: AnotherWs.Proofs.HandleReuse
Purpose: When connect() finds the handle and the request of the client unused. The timer knows
  nothing of the attempt before, so it does only if the close callback has run since.
Trusted boundary: none
Main exports: Unused, FindsUnused, ClosedBetween, neverReused_iff, tick_reuses_handle
-/
import AnotherWs.Proofs.Client

namespace AnotherWs

open Machines

/-- libuv owns neither `m_uv_tcp_t` nor `m_uv_connect_t`: the close callback has run, and no request is
outstanding. -/
structure Unused (s : CWSClient) : Prop where
  closed : s.uvTcp.state = .closed
  noCallback : s.uvTcp.closeCallbacks = 0
  noRequest : s.connectRequests = 0

/-- A tick, which calls `connect`, finds the handle and the request unused. -/
def FindsUnused (s : CWSClient) : ClientAction → Prop
  | .tick => Unused s
  | _ => True

/-- The close callback runs between any two calls of `connect`; `closed` says whether it has run
since the last one. -/
def ClosedBetween : Bool → List ClientAction → Prop
  | _, [] => True
  | closed, .tick :: rest => closed = true ∧ ClosedBetween false rest
  | _, .closeCallback :: rest => ClosedBetween true rest
  | closed, .connected _ :: rest | closed, .connectFailed :: rest | closed, .read _ :: rest =>
      ClosedBetween closed rest

/-- Where an attempt can stand before its close callback. -/
inductive Attempt (s : CWSClient) : Prop where
  | connecting (state : s.uvTcp.state = .initialised) (noCallback : s.uvTcp.closeCallbacks = 0)
      (requests : s.connectRequests ≤ 1)
  | reading (state : s.uvTcp.state = .reading) (noCallback : s.uvTcp.closeCallbacks = 0)
      (noRequest : s.connectRequests = 0)
  | closing (state : s.uvTcp.state = .closing) (callback : s.uvTcp.closeCallbacks = 1)
      (noRequest : s.connectRequests = 0)

/-- What is known of the client from whether the close callback has run since the last `connect`. -/
def SinceConnect (s : CWSClient) : Bool → Prop
  | true => Unused s
  | false => Attempt s

/-- An attempt is not unused. -/
theorem Attempt.not_unused {s : CWSClient} (attempt : Attempt s) : ¬ Unused s := by
  rintro ⟨hclosed, -, -⟩
  cases attempt with
  | connecting state | reading state | closing state =>
      rw [hclosed] at state
      cases state

theorem SinceConnect.of_attempt {s : CWSClient} {closed : Bool} (since : SinceConnect s closed)
    (used : ¬ Unused s) : closed = false ∧ Attempt s := by
  cases closed with
  | false => exact ⟨rfl, since⟩
  | true => exact absurd since used

/-- A new attempt. -/
theorem attempt_connect {s : CWSClient} (noCallback : s.uvTcp.closeCallbacks = 0)
    (noRequest : s.connectRequests = 0) : Attempt s.connect :=
  .connecting rfl noCallback (by show s.connectRequests + 1 ≤ 1; omega)

section Steps

variable {s s' : CWSClient}

/-- The callback of a request, and a read, belong to an attempt and leave it one. -/
theorem Attempt.connected {random : Bytes} (attempt : Attempt s)
    (step : CWSClient.StepCase s s' (.connected random)) : Attempt s' := by
  cases step with
  | connected _ requested opened key request handshake s_eq =>
      subst s_eq
      cases attempt with
      | connecting state noCallback requests =>
          exact .reading rfl noCallback (by show s.connectRequests - 1 = 0; omega)
      | reading state noCallback noRequest => omega
      | closing state callback noRequest => omega

theorem Attempt.connectFailed (attempt : Attempt s)
    (step : CWSClient.StepCase s s' .connectFailed) : Attempt s' := by
  cases step with
  | connectFailed requested s_eq =>
      subst s_eq
      cases attempt with
      | connecting state noCallback requests =>
          exact .connecting state noCallback (by show s.connectRequests - 1 ≤ 1; omega)
      | reading state noCallback noRequest => omega
      | closing state callback noRequest => omega

theorem Attempt.read {r : UvRead} (owned : s.uvTcp.loopData = true) (attempt : Attempt s)
    (step : CWSClient.StepCase s s' (.read r)) : Attempt s' := by
  cases step with
  | read _ reading case_ =>
      obtain ⟨-, hrequests, hstream⟩ := case_.stream owned reading
      cases attempt with
      | connecting state =>
          rw [reading] at state
          cases state
      | closing state =>
          rw [reading] at state
          cases state
      | reading state noCallback noRequest =>
          rcases hstream with ⟨hstate, hcallbacks⟩ | ⟨hstate, hcallbacks⟩
          · exact .reading hstate (by omega) (by omega)
          · exact .closing hstate (by omega) (by omega)

/-- The close callback ends an attempt. -/
theorem Attempt.closeCallback (attempt : Attempt s)
    (step : CWSClient.StepCase s s' .closeCallback) : Unused s' := by
  cases step with
  | closeCallback pending s_eq =>
      subst s_eq
      cases attempt with
      | connecting state noCallback => omega
      | reading state noCallback => omega
      | closing state callback noRequest =>
          exact ⟨rfl, by show s.uvTcp.closeCallbacks - 1 = 0; omega, noRequest⟩

end Steps

/-- From a state of which it is known whether the close callback has run. -/
theorem findsUnused_iff {s s' : CWSClient} {closed : Bool} {actions : List ClientAction}
    (owned : s.uvTcp.loopData = true) (since : SinceConnect s closed)
    (run : clientMachine.exec s actions = some s') :
    clientMachine.Guarded FindsUnused s actions ↔ ClosedBetween closed actions := by
  induction actions generalizing s closed with
  | nil => exact iff_of_true trivial trivial
  | cons a rest ih =>
      obtain ⟨mid, hstep, hrest⟩ := Machine.exec_cons.mp run
      have hcase := CWSClient.step_cases owned hstep
      have howned := hcase.owned owned
      rw [Machine.Guarded.cons_iff hstep]
      cases a with
      | connected random =>
          have hused : ¬ Unused s := by
            rintro ⟨-, -, hnone⟩
            cases hcase with
            | connected _ requested => omega
          obtain ⟨rfl, attempt⟩ := since.of_attempt hused
          rw [@ih mid false howned (attempt.connected hcase) hrest]
          exact and_iff_right trivial
      | connectFailed =>
          have hused : ¬ Unused s := by
            rintro ⟨-, -, hnone⟩
            cases hcase with
            | connectFailed requested => omega
          obtain ⟨rfl, attempt⟩ := since.of_attempt hused
          rw [@ih mid false howned (attempt.connectFailed hcase) hrest]
          exact and_iff_right trivial
      | read r =>
          have hused : ¬ Unused s := by
            rintro ⟨hclosed, -, -⟩
            cases hcase with
            | read _ reading =>
                rw [hclosed] at reading
                cases reading
          obtain ⟨rfl, attempt⟩ := since.of_attempt hused
          rw [@ih mid false howned (attempt.read owned hcase) hrest]
          exact and_iff_right trivial
      | closeCallback =>
          have hused : ¬ Unused s := by
            rintro ⟨-, hnone, -⟩
            cases hcase with
            | closeCallback pending => omega
          obtain ⟨rfl, attempt⟩ := since.of_attempt hused
          rw [@ih mid true howned (attempt.closeCallback hcase) hrest]
          exact and_iff_right trivial
      | tick =>
          cases closed with
          | false =>
              exact iff_of_false (fun h => since.not_unused h.1) (fun h => Bool.false_ne_true h.1)
          | true =>
              cases hcase with
              | tick active s_eq =>
                  subst s_eq
                  have hattempt := attempt_connect since.noCallback since.noRequest
                  rw [@ih s.connect false howned hattempt hrest]
                  exact and_congr_left' (iff_of_true since rfl)

/-- **Handles in use.** In every run of the client, every call of `connect` after the first finds
the handle closed and no request outstanding exactly when the close callback runs between any two
calls. -/
theorem neverReused_iff (ip : Bytes) (port : UInt16) (uri : Bytes) (enableReconnect : Bool)
    {actions : List ClientAction} {s' : CWSClient}
    (run : clientMachine.exec (CWSClient.constructed ip port uri enableReconnect).startup actions =
      some s') :
    clientMachine.Guarded FindsUnused (CWSClient.constructed ip port uri enableReconnect).startup
        actions ↔
      ClosedBetween false actions := by
  apply findsUnused_iff _ _ run
  · cases enableReconnect <;> rfl
  · show Attempt _
    cases enableReconnect with
    | true => exact attempt_connect rfl rfl
    | false => exact attempt_connect rfl rfl

/-- A connection that ends, whose close callback runs, and after which the timer ticks. -/
theorem neverReused_iff_closed :
    ∃ s', clientMachine.exec CWSClient.sample
        [.connected (List.replicate 16 0), .read endOfStream, .closeCallback, .tick] = some s' ∧
      clientMachine.Guarded FindsUnused CWSClient.sample
        [.connected (List.replicate 16 0), .read endOfStream, .closeCallback, .tick] := by
  obtain ⟨request, hconnect⟩ := CWSClient.sample_connects
  have hread := CWSClient.step_of_onRead rfl
    (@CWSClient.onRead_fails (CWSClient.sampleConnected request) endOfStream rfl (by decide))
  have hruns : ∃ s', clientMachine.exec CWSClient.sample
      [.connected (List.replicate 16 0), .read endOfStream, .closeCallback, .tick] = some s' :=
    ⟨_, Machine.exec_cons.mpr ⟨_, hconnect, Machine.exec_cons.mpr ⟨_, hread,
      Machine.exec_cons.mpr ⟨_, rfl, Machine.exec_cons.mpr ⟨_, rfl, rfl⟩⟩⟩⟩⟩
  obtain ⟨s', hrun⟩ := hruns
  exact ⟨s', hrun, (neverReused_iff _ _ _ _ hrun).mpr ⟨rfl, trivial⟩⟩

/-- The timer ticks while the first request is outstanding, or after it has failed: `connect`
initialises the handle again. -/
theorem tick_reuses_handle :
    (∃ s', clientMachine.exec CWSClient.sample [.tick] = some s') ∧
    ¬ clientMachine.Guarded FindsUnused CWSClient.sample [.tick] ∧
    (∃ s', clientMachine.exec CWSClient.sample [.connectFailed, .tick] = some s') ∧
    ¬ clientMachine.Guarded FindsUnused CWSClient.sample [.connectFailed, .tick] := by
  refine ⟨⟨_, rfl⟩, ?_, ⟨_, rfl⟩, ?_⟩
  · rintro ⟨hunused, -⟩
    cases hunused.closed
  · rintro ⟨-, hrest⟩
    obtain ⟨hunused, -⟩ := hrest _ rfl
    cases hunused.closed

end AnotherWs
