/-
Module: AnotherWs.Proofs.Client
Purpose: What each step of the client does, as inversion lemmas, and what no step changes.
Trusted boundary: none
Main exports: CWSClient.ReadCase, CWSClient.onRead_cases, CWSClient.StepCase, CWSClient.step_cases,
  CWSClient.exec_owned
-/
import AnotherWs.Proofs.Peer
import AnotherWs.Proofs.Handshake
import AnotherWs.Core.Client

namespace AnotherWs

namespace CWSClient

/-- The handle that `on_read` works on. -/
def handle (peer : UvStream) : WebsocketHandle := initBuffers (peer.data.getD (callocHandle .client))

/-- The client with that handle on its stream. -/
def prepared (s : CWSClient) : CWSClient :=
  { s with uvTcp := { s.uvTcp with data := some (handle s.uvTcp) } }

/-- Everything that a read does to a client whose loop has an owner. -/
inductive ReadCase (s : CWSClient) (r : UvRead) (s' : CWSClient) : Prop where
  /-- A chunk without an accept value is dropped. -/
  | ignored (positive : 0 < r.nread) (handshaking : s.status = .handshaking) (key : Option Bytes)
      (head : parseHttpHeads r.base acceptField = .ok key) (empty : key = none ∨ key = some [])
      (s_eq : s' = s.prepared)
  /-- Any other value ends the handshake. -/
  | accepted (positive : 0 < r.nread) (handshaking : s.status = .handshaking) (key : Bytes)
      (head : parseHttpHeads r.base acceptField = .ok (some key)) (nonempty : key ≠ [])
      (s_eq : s' = { s.prepared with status := .working, calls := s.calls ++ [.onConnect] })
  /-- Behind the handshake, the receive loop gets the chunk. -/
  | frames (positive : 0 < r.nread) (working : s.status = .working) (trace : Trace)
      (call : CWSClient.onReadWebsocket (handle s.uvTcp) r.data = .ok trace) (made : List Call)
      (makes : makeCalls AnotherWs.onClose { s.uvTcp with data := some trace.handle } trace.events =
        .ok (s'.uvTcp, made))
      (s_eq : s' = { s with uvTcp := s'.uvTcp, calls := s.calls ++ made })
  /-- Nothing was read. -/
  | nothing (zero : r.nread = 0) (s_eq : s' = s.prepared)
  /-- An error or the end of the stream closes, and starts the timer. -/
  | failed (negative : r.nread < 0)
      (s_eq : s' = { s with
        uvTcp := s.prepared.uvTcp.close
        calls := s.calls ++ ((if r.nread ≠ uvEof then [Call.onError r.nread] else []) ++
          if s.uvTcp.isClosing then [] else [.uvClose])
        reconnectTimer := s.enableReconnect || s.reconnectTimer })

/-- **What a read can do.** -/
theorem onRead_cases {s s' : CWSClient} {r : UvRead} (owned : s.uvTcp.loopData = true)
    (call : s.onRead r = .ok s') : ReadCase s r s' := by
  have hclose := @twCloseClient_ok { s.uvTcp with data := some (handle s.uvTcp) } owned
  have hclosing : ({ s.uvTcp with data := some (handle s.uvTcp) } : UvStream).isClosing =
      s.uvTcp.isClosing := rfl
  unfold onRead at call
  rw [show initBuffers (s.uvTcp.data.getD (callocHandle .client)) = handle s.uvTcp from rfl] at call
  dsimp only at call
  rw [if_neg (not_not_intro owned)] at call
  split at call
  · rename_i hpositive
    split at call
    · rename_i hstatus
      obtain ⟨key, hkey, call⟩ := bind_eq_ok.mp call
      cases key with
      | none =>
          cases call
          exact .ignored hpositive hstatus none hkey (Or.inl rfl) rfl
      | some key =>
          dsimp only at call
          split at call
          · rename_i hlen
            cases call
            exact .accepted hpositive hstatus key hkey (List.length_pos_iff.mp hlen) rfl
          · rename_i hlen
            have hnil : key = [] := List.eq_nil_of_length_eq_zero (by omega)
            cases call
            exact .ignored hpositive hstatus (some key) hkey (Or.inr (by rw [hnil])) rfl
    · rename_i hstatus
      obtain ⟨trace, htrace, call⟩ := bind_eq_ok.mp call
      obtain ⟨⟨peer, made⟩, hmakes, call⟩ := bind_eq_ok.mp call
      cases call
      exact .frames hpositive hstatus trace htrace made hmakes rfl
  · split at call
    · rename_i hzero
      cases call
      exact .nothing hzero rfl
    · rename_i hnot hzero
      rw [onClose, hclose, hclosing, ok_bind] at call
      dsimp only at call
      refine .failed (by omega) ?_
      split at call
      · rename_i henable
        cases call
        rw [henable]
        rfl
      · rename_i henable
        cases call
        rw [Bool.not_eq_true] at henable
        rw [henable]
        rfl

/-- Everything that a step does to a client whose loop has an owner. -/
inductive StepCase (s : CWSClient) (s' : CWSClient) : ClientAction → Prop where
  | connected (random : Bytes) (requested : 0 < s.connectRequests)
      (opened : s.uvTcp.isClosing = false) (key request : Bytes)
      (handshake : CWSClient.onConnectInternal s.ip s.port s.uri random = .ok (key, request))
      (s_eq : s' = { s with
        key := key
        status := .handshaking
        uvTcp := { s.uvTcp with state := .reading, data := some (callocHandle .client) }
        reconnectTimer := !s.enableReconnect && s.reconnectTimer
        connectRequests := s.connectRequests - 1
        calls := s.calls ++ [.sendDataWithAsync request] }) : StepCase s s' (.connected random)
  | connectFailed (requested : 0 < s.connectRequests)
      (s_eq : s' = { s with connectRequests := s.connectRequests - 1 }) : StepCase s s' .connectFailed
  | tick (active : s.reconnectTimer = true) (s_eq : s' = s.connect) : StepCase s s' .tick
  | read (r : UvRead) (reading : s.uvTcp.state = .reading) (case_ : ReadCase s r s') :
      StepCase s s' (.read r)
  | closeCallback (pending : 0 < s.uvTcp.closeCallbacks)
      (s_eq : s' = { s with uvTcp := afterUvCloseClient s.uvTcp }) : StepCase s s' .closeCallback

/-- **What a step can do.** -/
theorem step_cases {s s' : CWSClient} {a : ClientAction} (owned : s.uvTcp.loopData = true)
    (step : s.step a = some s') : StepCase s s' a := by
  cases a with
  | connected random =>
      simp only [CWSClient.step] at step
      split at step
      · rename_i hguard
        have hopened : s.uvTcp.isClosing = false := Bool.not_eq_true _ ▸ hguard.2
        cases hcall :
            ({ s with connectRequests := s.connectRequests - 1 } : CWSClient).afterConnect random with
        | error fault =>
            rw [hcall] at step
            cases step
        | ok next =>
            rw [hcall] at step
            cases step
            rw [afterConnect, if_neg (not_not_intro owned)] at hcall
            obtain ⟨⟨key, request⟩, hkey, hcall⟩ := bind_eq_ok.mp hcall
            cases henable : s.enableReconnect with
            | true =>
                simp only [henable] at hkey hcall
                cases hcall
                exact .connected random hguard.1 hopened key request hkey (by rw [henable]; rfl)
            | false =>
                simp only [henable] at hkey hcall
                cases hcall
                exact .connected random hguard.1 hopened key request hkey (by rw [henable]; rfl)
      · cases step
  | connectFailed =>
      simp only [CWSClient.step] at step
      split at step
      · rename_i hrequested
        cases step
        exact .connectFailed hrequested rfl
      · cases step
  | tick =>
      simp only [CWSClient.step] at step
      split at step
      · rename_i hactive
        cases step
        exact .tick hactive (if_pos owned)
      · cases step
  | read r =>
      simp only [CWSClient.step] at step
      split at step
      · rename_i hreading
        cases hcall : s.onRead r with
        | error fault =>
            rw [hcall] at step
            cases step
        | ok next =>
            rw [hcall] at step
            cases step
            exact .read r hreading (onRead_cases owned hcall)
      · cases step
  | closeCallback =>
      simp only [CWSClient.step] at step
      split at step
      · rename_i hpending
        cases step
        exact .closeCallback hpending rfl
      · cases step

/-! ### What a read leaves of the stream -/

/-- An allocated handle on the stream is the one that `on_read` works on. -/
theorem handle_of_data {peer : UvStream} {hd : WebsocketHandle} (data : peer.data = some hd)
    (sized : hd.Sized) : handle peer = hd := by
  rw [handle, data]
  exact initBuffers_sized sized

theorem handle_prepared (s : CWSClient) : handle s.prepared.uvTcp = handle s.uvTcp :=
  initBuffers_initBuffers _

/-- A read leaves the stream open or has closed it, and what else libuv has to do stays. -/
theorem ReadCase.stream {s s' : CWSClient} {r : UvRead} (owned : s.uvTcp.loopData = true)
    (reading : s.uvTcp.state = .reading) (h : ReadCase s r s') :
    s'.uvTcp.loopData = true ∧ s'.connectRequests = s.connectRequests ∧
      ((s'.uvTcp.state = .reading ∧ s'.uvTcp.closeCallbacks = s.uvTcp.closeCallbacks) ∨
        (s'.uvTcp.state = .closing ∧ s'.uvTcp.closeCallbacks = s.uvTcp.closeCallbacks + 1)) := by
  have hclose : ∀ data, ({ s.uvTcp with data := data } : UvStream).close =
      { s.uvTcp with
        data := data, state := .closing, closeCallbacks := s.uvTcp.closeCallbacks + 1 } := by
    intro data
    have hreading : ({ s.uvTcp with data := data } : UvStream).state = .reading := reading
    rw [UvStream.close_of_reading hreading]
  cases h with
  | ignored positive handshaking key head empty s_eq =>
      rw [s_eq]
      exact ⟨owned, rfl, Or.inl ⟨reading, rfl⟩⟩
  | accepted positive handshaking key head nonempty s_eq =>
      rw [s_eq]
      exact ⟨owned, rfl, Or.inl ⟨reading, rfl⟩⟩
  | frames positive working trace call made makes s_eq =>
      obtain ⟨made', hmade, -, -, -⟩ :=
        @makeCalls_ok { s.uvTcp with data := some trace.handle } owned trace.events
      rw [hmade, Except.ok.injEq, Prod.mk.injEq] at makes
      have hrequests := congrArg CWSClient.connectRequests s_eq
      refine ⟨?_, hrequests, ?_⟩
      · rw [← makes.1]
        split
        · rw [UvStream.close_loopData, owned]
        · exact owned
      · rw [← makes.1]
        split
        · rw [hclose]
          exact Or.inr ⟨rfl, rfl⟩
        · exact Or.inl ⟨reading, rfl⟩
  | nothing zero s_eq =>
      rw [s_eq]
      exact ⟨owned, rfl, Or.inl ⟨reading, rfl⟩⟩
  | failed negative s_eq =>
      have hprepared : s.prepared.uvTcp.close =
          { s.uvTcp with
            data := some (handle s.uvTcp), state := .closing,
            closeCallbacks := s.uvTcp.closeCallbacks + 1 } := hclose _
      rw [s_eq, hprepared]
      exact ⟨owned, rfl, Or.inr ⟨rfl, rfl⟩⟩

/-- What a read leaves alone. -/
theorem ReadCase.keeps {s s' : CWSClient} {r : UvRead} (case_ : ReadCase s r s') :
    s'.ip = s.ip ∧ s'.port = s.port ∧ s'.uri = s.uri ∧ s'.key = s.key ∧
      ∃ more, s'.calls = s.calls ++ more := by
  cases case_ with
  | ignored _ _ _ _ _ s_eq | nothing _ s_eq =>
      rw [s_eq]
      exact ⟨rfl, rfl, rfl, rfl, [], (List.append_nil _).symm⟩
  | accepted _ _ _ _ _ s_eq | failed _ s_eq =>
      rw [s_eq]
      exact ⟨rfl, rfl, rfl, rfl, _, rfl⟩
  | frames _ _ _ _ made _ s_eq =>
      rw [s_eq]
      exact ⟨rfl, rfl, rfl, rfl, made, rfl⟩

/-- A step keeps the owner of the loop. -/
theorem StepCase.owned {s s' : CWSClient} {a : ClientAction} (owned : s.uvTcp.loopData = true)
    (step : StepCase s s' a) : s'.uvTcp.loopData = true := by
  cases step with
  | connected random requested opened key request handshake s_eq => rw [s_eq]; exact owned
  | connectFailed requested s_eq => rw [s_eq]; exact owned
  | tick active s_eq => rw [s_eq]; exact owned
  | read r reading case_ => exact (case_.stream owned reading).1
  | closeCallback pending s_eq => rw [s_eq]; exact owned

/-! ### Steps that happen -/

/-- The request carries the key. -/
theorem onConnectInternal_request {ip uri random key request : Bytes} {port : UInt16}
    (handshake : CWSClient.onConnectInternal ip port uri random = .ok (key, request)) :
    request = generateWebsocketClientHandshake ip port uri key := by
  obtain ⟨out, -, hrest⟩ := bind_eq_ok.mp handshake
  cases out with
  | none => cases hrest
  | some key' =>
      cases hrest
      rfl

section Steps

variable {s : CWSClient}

/-- What `onConnectInternal` does once the key and the request are there. -/
theorem afterConnect_ok (owned : s.uvTcp.loopData = true) {random key request : Bytes}
    (handshake : CWSClient.onConnectInternal s.ip s.port s.uri random = .ok (key, request)) :
    s.afterConnect random = .ok { s with
      key := key
      status := .handshaking
      uvTcp := { s.uvTcp with state := .reading, data := some (callocHandle .client) }
      reconnectTimer := !s.enableReconnect && s.reconnectTimer
      calls := s.calls ++ [.sendDataWithAsync request] } := by
  unfold afterConnect
  rw [if_neg (not_not_intro owned)]
  dsimp only
  by_cases henable : s.enableReconnect = true
  · rw [if_pos henable]
    dsimp only
    rw [handshake, ok_bind, henable]
    rfl
  · rw [if_neg henable, handshake, ok_bind, Bool.eq_false_of_not_eq_true henable]
    rfl

/-- A connect that succeeds. -/
theorem step_connected (owned : s.uvTcp.loopData = true) (requested : 0 < s.connectRequests)
    (opened : s.uvTcp.isClosing = false) {random key request : Bytes}
    (handshake : CWSClient.onConnectInternal s.ip s.port s.uri random = .ok (key, request)) :
    clientMachine.step s (.connected random) = some { s with
      key := key
      status := .handshaking
      uvTcp := { s.uvTcp with state := .reading, data := some (callocHandle .client) }
      reconnectTimer := !s.enableReconnect && s.reconnectTimer
      connectRequests := s.connectRequests - 1
      calls := s.calls ++ [.sendDataWithAsync request] } := by
  have hcall := @afterConnect_ok { s with connectRequests := s.connectRequests - 1 } owned _ _ _
    handshake
  show s.step (.connected random) = _
  rw [CWSClient.step, if_pos ⟨requested, by rw [opened]; exact Bool.false_ne_true⟩, hcall]

/-- A read of a chunk without an accept value. -/
theorem onRead_ignored {r : UvRead} {key : Option Bytes} (owned : s.uvTcp.loopData = true)
    (positive : 0 < r.nread) (handshaking : s.status = .handshaking)
    (head : parseHttpHeads r.base acceptField = .ok key) (empty : key = none ∨ key = some []) :
    s.onRead r = .ok s.prepared := by
  have hprepared : s.prepared = { s.prepared with status := .handshaking } := by
    rw [← handshaking]
    rfl
  unfold onRead
  rw [show initBuffers (s.uvTcp.data.getD (callocHandle .client)) = handle s.uvTcp from rfl]
  dsimp only
  rw [if_neg (not_not_intro owned), if_pos positive, handshaking]
  dsimp only
  rw [head, ok_bind, hprepared]
  rcases empty with rfl | rfl
  · rfl
  · rfl

/-- A read that takes a handshake response. -/
theorem onRead_accepts {r : UvRead} {key : Bytes} (owned : s.uvTcp.loopData = true)
    (positive : 0 < r.nread) (handshaking : s.status = .handshaking)
    (head : parseHttpHeads r.base acceptField = .ok (some key)) (nonempty : key ≠ []) :
    s.onRead r = .ok { s.prepared with status := .working, calls := s.calls ++ [.onConnect] } := by
  unfold onRead
  rw [show initBuffers (s.uvTcp.data.getD (callocHandle .client)) = handle s.uvTcp from rfl]
  dsimp only
  rw [if_neg (not_not_intro owned), if_pos positive, handshaking]
  dsimp only
  rw [head, ok_bind]
  dsimp only
  rw [if_pos (List.length_pos_iff.mpr nonempty)]
  rfl

/-- A read behind the handshake. -/
theorem onRead_frames {r : UvRead} {trace : Trace} {peer : UvStream} {made : List Call}
    (owned : s.uvTcp.loopData = true) (positive : 0 < r.nread) (working : s.status = .working)
    (call : CWSClient.onReadWebsocket (handle s.uvTcp) r.data = .ok trace)
    (makes : makeCalls AnotherWs.onClose { s.uvTcp with data := some trace.handle } trace.events =
      .ok (peer, made)) :
    s.onRead r = .ok { s with uvTcp := peer, calls := s.calls ++ made } := by
  unfold onRead
  rw [show initBuffers (s.uvTcp.data.getD (callocHandle .client)) = handle s.uvTcp from rfl]
  dsimp only
  rw [if_neg (not_not_intro owned), if_pos positive, working]
  dsimp only
  rw [call, ok_bind, onClose, makes, ok_bind]

/-- A read of an error or of the end of the stream. -/
theorem onRead_fails {r : UvRead} (owned : s.uvTcp.loopData = true) (negative : r.nread < 0) :
    s.onRead r = .ok { s with
      uvTcp := s.prepared.uvTcp.close
      calls := s.calls ++ ((if r.nread ≠ uvEof then [Call.onError r.nread] else []) ++
        if s.uvTcp.isClosing then [] else [.uvClose])
      reconnectTimer := s.enableReconnect || s.reconnectTimer } := by
  have hclose := @twCloseClient_ok { s.uvTcp with data := some (handle s.uvTcp) } owned
  unfold onRead
  rw [show initBuffers (s.uvTcp.data.getD (callocHandle .client)) = handle s.uvTcp from rfl]
  dsimp only
  rw [if_neg (not_not_intro owned), if_neg (by omega), if_neg (by omega), onClose, hclose, ok_bind]
  dsimp only
  by_cases henable : s.enableReconnect = true
  · rw [if_pos henable, henable]
    rfl
  · rw [if_neg henable, Bool.eq_false_of_not_eq_true henable]
    rfl

/-- A read that comes back. -/
theorem step_of_onRead {r : UvRead} {s' : CWSClient} (reading : s.uvTcp.state = .reading)
    (call : s.onRead r = .ok s') : clientMachine.step s (.read r) = some s' := by
  show s.step (.read r) = _
  rw [CWSClient.step, if_pos reading, call]

end Steps

/-! ### A client to try things on -/

/-- Sixteen zero bytes have a digest without a zero. -/
theorem onConnectInternal_zeros (ip : Bytes) (port : UInt16) (uri : Bytes) :
    ∃ request, CWSClient.onConnectInternal ip port uri (List.replicate 16 0) =
      .ok (Base64.encode (Sha1.hash (List.replicate 16 0)), request) := by
  obtain ⟨key, request, hcall, -, rfl⟩ :=
    (clientKey_whole_iff ip port uri (List.length_replicate)).mpr
      (by decide +kernel : 0 ∉ Sha1.hash (List.replicate 16 0))
  exact ⟨request, hcall⟩

/-- A client that reconnects, after `startup`. -/
def sample : CWSClient := (constructed (ascii "10.0.0.1") 80 (ascii "/") true).startup

/-- The same client after a connect with sixteen zero bytes for random ones. -/
def sampleConnected (request : Bytes) : CWSClient :=
  { sample with
    key := Base64.encode (Sha1.hash (List.replicate 16 0))
    uvTcp := ⟨.reading, 0, some (callocHandle .client), true⟩
    reconnectTimer := false
    connectRequests := 0
    calls := [.sendDataWithAsync request] }

theorem sample_connects :
    ∃ request, clientMachine.step sample (.connected (List.replicate 16 0)) =
      some (sampleConnected request) := by
  obtain ⟨request, hcall⟩ := onConnectInternal_zeros (ascii "10.0.0.1") 80 (ascii "/")
  exact ⟨request, step_connected rfl (by decide) rfl hcall⟩

/-- A response with an accept value of one character, in a buffer with one byte to spare. -/
def sampleResponse : UvRead where
  nread := 62
  base := ascii "HTTP/1.1 101 Switching Protocols\r\nSec-WebSocket-Accept: x\r\n\r\n" ++ [0]
  nread_le := by decide +kernel

theorem sampleResponse_value :
    parseHttpHeads sampleResponse.base acceptField = .ok (some (ascii "x")) := by decide +kernel

end CWSClient

end AnotherWs
