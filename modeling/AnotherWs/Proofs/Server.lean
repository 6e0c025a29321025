/-
Module: AnotherWs.Proofs.Server
Purpose: The runs of a server connection: what one read does, and when the application hears of the
  connection and of its end. It hears of the end never.
Trusted boundary: none
Main exports: CWSServer.ReadCase, CWSServer.onRead_cases, ClosePaired, HandshakeRead,
  closePaired_iff, close_is_not_notified
-/
import AnotherWs.Proofs.Peer
import AnotherWs.Proofs.Handshake

namespace AnotherWs

namespace CWSServer

/-- The handle that `on_read` works on. -/
def handle (peer : UvStream) : WebsocketHandle := initBuffers (peer.data.getD (callocHandle .server))

/-- Everything that a read does to a stream whose loop has an owner. -/
inductive ReadCase (peer : UvStream) (r : UvRead) (peer' : UvStream) (calls : List Call) : Prop where
  /-- Behind the handshake, the receive loop gets the chunk. -/
  | frames (positive : 0 < r.nread) (done : (handle peer).protoBuf.flag &&& flagWebsocket ≠ 0)
      (trace : Trace) (call : CWSServer.onReadWebsocket (handle peer) r.data = .ok trace)
      (makes : makeCalls AnotherWs.onClose { peer with data := some trace.handle } trace.events =
        .ok (peer', calls))
  /-- A handshake request is answered. -/
  | accepted (positive : 0 < r.nread) (undone : (handle peer).protoBuf.flag &&& flagWebsocket = 0)
      (key response : Bytes) (head : parseHttpHeads r.base keyField = .ok (some key))
      (answer : generateWebsocketServerHandshake key = .ok response)
      (peer_eq : peer' = { peer with
        data := some { handle peer with protoBuf := (handle peer).protoBuf.setFlag flagWebsocket } })
      (calls_eq : calls = [.sendDataWithAsync response, .onConnect])
  /-- Anything else in front of the handshake closes. -/
  | refused (positive : 0 < r.nread) (undone : (handle peer).protoBuf.flag &&& flagWebsocket = 0)
      (head : parseHttpHeads r.base keyField = .ok none)
      (peer_eq : peer' = ({ peer with data := some (handle peer) } : UvStream).close)
      (calls_eq : calls = if peer.isClosing then [] else [.uvClose])
  /-- Nothing was read. -/
  | nothing (zero : r.nread = 0) (peer_eq : peer' = { peer with data := some (handle peer) })
      (calls_eq : calls = [])
  /-- An error or the end of the stream closes. -/
  | failed (negative : r.nread < 0)
      (peer_eq : peer' = ({ peer with data := some (handle peer) } : UvStream).close)
      (calls_eq : calls = (if r.nread ≠ uvEof then [Call.onError r.nread] else []) ++
        if peer.isClosing then [] else [.uvClose])

/-- **What a read can do.** -/
theorem onRead_cases {peer peer' : UvStream} {r : UvRead} {calls : List Call}
    (owned : peer.loopData = true) (call : onRead peer r = .ok (peer', calls)) :
    ReadCase peer r peer' calls := by
  have hclose := @twCloseClient_ok { peer with data := some (handle peer) } owned
  have hclosing : ({ peer with data := some (handle peer) } : UvStream).isClosing = peer.isClosing :=
    rfl
  unfold onRead at call
  rw [if_neg (not_not_intro owned)] at call
  rw [show initBuffers (peer.data.getD (callocHandle .server)) = handle peer from rfl] at call
  split at call
  · rename_i hpositive
    split at call
    · rename_i hdone
      obtain ⟨trace, htrace, hmakes⟩ := bind_eq_ok.mp call
      exact .frames hpositive hdone trace htrace hmakes
    · rename_i hundone
      have hundone := not_not.mp hundone
      obtain ⟨key, hkey, call⟩ := bind_eq_ok.mp call
      cases key with
      | none =>
          rw [onClose, hclose, hclosing] at call
          cases call
          exact .refused hpositive hundone hkey rfl rfl
      | some key =>
          obtain ⟨response, hresponse, call⟩ := bind_eq_ok.mp call
          cases call
          exact .accepted hpositive hundone key response hkey hresponse rfl rfl
  · rename_i hnot
    split at call
    · rename_i hzero
      cases call
      exact .nothing hzero rfl rfl
    · rename_i hne
      rw [onClose, hclose, hclosing, ok_bind] at call
      cases call
      exact .failed (by omega) rfl rfl

/-- A read that takes a handshake request. -/
theorem onRead_accepts {peer : UvStream} {r : UvRead} {key response : Bytes}
    (owned : peer.loopData = true) (positive : 0 < r.nread)
    (undone : (handle peer).protoBuf.flag &&& flagWebsocket = 0)
    (head : parseHttpHeads r.base keyField = .ok (some key))
    (answer : generateWebsocketServerHandshake key = .ok response) :
    onRead peer r = .ok ({ peer with
      data := some { handle peer with protoBuf := (handle peer).protoBuf.setFlag flagWebsocket } },
      [.sendDataWithAsync response, .onConnect]) := by
  unfold onRead
  rw [show initBuffers (peer.data.getD (callocHandle .server)) = handle peer from rfl,
    if_neg (not_not_intro owned), if_pos positive, if_neg (not_not_intro undone), head, ok_bind]
  simp only [answer, ok_bind]

/-- A read behind the handshake. -/
theorem onRead_frames {peer peer' : UvStream} {r : UvRead} {trace : Trace} {calls : List Call}
    (owned : peer.loopData = true) (positive : 0 < r.nread)
    (done : (handle peer).protoBuf.flag &&& flagWebsocket ≠ 0)
    (call : CWSServer.onReadWebsocket (handle peer) r.data = .ok trace)
    (makes : makeCalls AnotherWs.onClose { peer with data := some trace.handle } trace.events =
      .ok (peer', calls)) : onRead peer r = .ok (peer', calls) := by
  unfold onRead
  rw [show initBuffers (peer.data.getD (callocHandle .server)) = handle peer from rfl,
    if_neg (not_not_intro owned), if_pos positive, if_pos done, call, ok_bind]
  exact makes

/-- A read of an error or of the end of the stream. -/
theorem onRead_fails {peer : UvStream} {r : UvRead} (owned : peer.loopData = true)
    (negative : r.nread < 0) :
    onRead peer r = .ok (({ peer with data := some (handle peer) } : UvStream).close,
      (if r.nread ≠ uvEof then [Call.onError r.nread] else []) ++
        if peer.isClosing then [] else [.uvClose]) := by
  have hclose := @twCloseClient_ok { peer with data := some (handle peer) } owned
  unfold onRead
  rw [show initBuffers (peer.data.getD (callocHandle .server)) = handle peer from rfl,
    if_neg (not_not_intro owned), if_neg (by omega), if_neg (by omega), onClose, hclose, ok_bind]
  rfl

/-- An allocated handle on the stream is the one that `on_read` works on. -/
theorem handle_of_data {peer : UvStream} {hd : WebsocketHandle} (data : peer.data = some hd)
    (sized : hd.Sized) : handle peer = hd := by
  rw [handle, data]
  exact initBuffers_sized sized

/-- A second look at the handle finds it as the first has left it. -/
theorem handle_handle (peer : UvStream) :
    handle { peer with data := some (handle peer) } = handle peer :=
  initBuffers_initBuffers _

/-- A read keeps the owner of the loop and does not call `onClose`. -/
theorem ReadCase.silent {peer peer' : UvStream} {r : UvRead} {calls : List Call}
    (owned : peer.loopData = true) (h : ReadCase peer r peer' calls) :
    peer'.loopData = true ∧ .onClose ∉ calls := by
  cases h with
  | frames positive done trace call makes =>
      obtain ⟨made, hmade, -, hclose, -⟩ :=
        @makeCalls_ok { peer with data := some trace.handle } owned trace.events
      rw [hmade] at makes
      cases makes
      refine ⟨?_, hclose⟩
      split
      · rw [UvStream.close_loopData, owned]
      · exact owned
  | accepted positive undone key response head answer peer_eq calls_eq =>
      rw [peer_eq, calls_eq]
      exact ⟨owned, by simp⟩
  | refused positive undone head peer_eq calls_eq =>
      rw [peer_eq, calls_eq, UvStream.close_loopData]
      exact ⟨owned, by split <;> simp⟩
  | nothing zero peer_eq calls_eq =>
      rw [peer_eq, calls_eq]
      exact ⟨owned, nofun⟩
  | failed negative peer_eq calls_eq =>
      rw [peer_eq, calls_eq, UvStream.close_loopData]
      exact ⟨owned, by split <;> split <;> simp⟩

/-- A read from an open stream leaves it open or closing. -/
theorem ReadCase.state {peer peer' : UvStream} {r : UvRead} {calls : List Call}
    (owned : peer.loopData = true) (reading : peer.state = .reading) (h : ReadCase peer r peer' calls) :
    peer'.state = .reading ∨ peer'.state = .closing := by
  have hclose : ∀ data, ({ peer with data := data } : UvStream).close.state = .closing := by
    intro data
    have hreading : ({ peer with data := data } : UvStream).state = .reading := reading
    rw [UvStream.close_of_reading hreading]
  cases h with
  | frames positive done trace call makes =>
      obtain ⟨made, hmade, -, -, -⟩ :=
        @makeCalls_ok { peer with data := some trace.handle } owned trace.events
      rw [hmade] at makes
      cases makes
      split
      · exact Or.inr (hclose _)
      · exact Or.inl reading
  | accepted positive undone key response head answer peer_eq calls_eq =>
      rw [peer_eq]
      exact Or.inl reading
  | refused positive undone head peer_eq calls_eq | failed negative peer_eq calls_eq =>
      rw [peer_eq]
      exact Or.inr (hclose _)
  | nothing zero peer_eq calls_eq =>
      rw [peer_eq]
      exact Or.inl reading

end CWSServer

/-! ### Runs -/

namespace ServerConnection

/-- A read is delivered while the stream is open, and does what `on_read` does. -/
theorem step_read {s s' : ServerConnection} {r : UvRead} (step : s.step (.read r) = some s') :
    s.peer.state = .reading ∧
      ∃ calls, CWSServer.onRead s.peer r = .ok (s'.peer, calls) ∧ s'.calls = s.calls ++ calls := by
  rw [ServerConnection.step] at step
  split at step
  · rename_i hreading
    refine ⟨hreading, ?_⟩
    cases hcall : CWSServer.onRead s.peer r with
    | error fault =>
        rw [hcall] at step
        cases step
    | ok out =>
        obtain ⟨peer, calls⟩ := out
        rw [hcall] at step
        cases step
        exact ⟨calls, rfl, rfl⟩
  · cases step

/-- A read that comes back is a step. -/
theorem step_of_onRead {s : ServerConnection} {r : UvRead} {peer : UvStream} {calls : List Call}
    (reading : s.peer.state = .reading) (call : CWSServer.onRead s.peer r = .ok (peer, calls)) :
    serverMachine.step s (.read r) = some ⟨peer, s.calls ++ calls⟩ := by
  show s.step (.read r) = _
  rw [ServerConnection.step, if_pos reading, call]

/-- The close callback runs when libuv owes one. -/
theorem step_closeCallback {s s' : ServerConnection} (step : s.step .closeCallback = some s') :
    0 < s.peer.closeCallbacks ∧ s' = { s with peer := afterUvCloseClient s.peer } := by
  rw [ServerConnection.step] at step
  split at step
  · cases step
    exact ⟨‹_›, rfl⟩
  · cases step

/-- In every run, `onClose` is called not once. -/
theorem exec_silent {s s' : ServerConnection} {actions : List ServerAction}
    (silent : s.peer.loopData = true ∧ .onClose ∉ s.calls)
    (run : serverMachine.exec s actions = some s') :
    s'.peer.loopData = true ∧ .onClose ∉ s'.calls := by
  apply Machines.Machine.exec_invariant_of_step
    (fun s : ServerConnection => s.peer.loopData = true ∧ .onClose ∉ s.calls) ?_ silent run
  rintro s (r | _) s' ⟨howned, hcalls⟩ hstep
  · obtain ⟨-, calls, hread, happend⟩ := step_read hstep
    obtain ⟨howned', hclose⟩ := (CWSServer.onRead_cases howned hread).silent howned
    rw [happend, List.mem_append, not_or]
    exact ⟨howned', hcalls, hclose⟩
  · obtain ⟨-, rfl⟩ := step_closeCallback hstep
    exact ⟨howned, hcalls⟩

/-- After `uv_close` only close callbacks come, and they call nothing. -/
theorem exec_closing {s s' : ServerConnection} {actions : List ServerAction}
    (closing : s.peer.isClosing = true) (run : serverMachine.exec s actions = some s') :
    (∀ a ∈ actions, a = .closeCallback) ∧ s'.calls = s.calls ∧
      (s.peer.state = .closed → s'.peer.state = .closed) := by
  induction actions generalizing s with
  | nil =>
      cases run
      exact ⟨nofun, rfl, id⟩
  | cons a rest ih =>
      obtain ⟨mid, hstep, hrest⟩ := Machines.Machine.exec_cons.mp run
      cases a with
      | read r =>
          obtain ⟨hreading, -⟩ := step_read hstep
          rw [UvStream.isClosing, hreading] at closing
          cases closing
      | closeCallback =>
          obtain ⟨-, rfl⟩ := step_closeCallback hstep
          obtain ⟨hactions, hcalls, hclosed⟩ :=
            ih (s := { s with peer := afterUvCloseClient s.peer }) rfl hrest
          exact ⟨List.forall_mem_cons.mpr ⟨rfl, hactions⟩, hcalls, fun _ => hclosed rfl⟩

/-- Calls are never taken back. -/
theorem exec_calls {s s' : ServerConnection} {actions : List ServerAction} {call : Call}
    (mem : call ∈ s.calls) (run : serverMachine.exec s actions = some s') : call ∈ s'.calls := by
  apply Machines.Machine.exec_invariant_of_step (fun s : ServerConnection => call ∈ s.calls) ?_ mem run
  rintro s (r | _) s' hmem hstep
  · obtain ⟨-, calls, -, happend⟩ := step_read hstep
    rw [happend]
    exact List.mem_append_left _ hmem
  · obtain ⟨-, rfl⟩ := step_closeCallback hstep
    exact hmem

/-- A connection ends up closed exactly when its close callback has run. -/
theorem closed_iff {s s' : ServerConnection} {actions : List ServerAction}
    (owned : s.peer.loopData = true) (opened : s.peer.state ≠ .closed)
    (run : serverMachine.exec s actions = some s') :
    s'.peer.state = .closed ↔ .closeCallback ∈ actions := by
  induction actions generalizing s with
  | nil =>
      cases run
      exact ⟨fun h => absurd h opened, nofun⟩
  | cons a rest ih =>
      obtain ⟨mid, hstep, hrest⟩ := Machines.Machine.exec_cons.mp run
      cases a with
      | read r =>
          obtain ⟨hreading, calls, hread, -⟩ := step_read hstep
          have hcase := CWSServer.onRead_cases owned hread
          have hopened : mid.peer.state ≠ .closed := by
            rcases hcase.state owned hreading with h | h <;> rw [h] <;> decide
          rw [ih (hcase.silent owned).1 hopened hrest]
          simp
      | closeCallback =>
          obtain ⟨-, rfl⟩ := step_closeCallback hstep
          obtain ⟨-, -, hclosed⟩ :=
            exec_closing (s := { s with peer := afterUvCloseClient s.peer }) rfl hrest
          exact ⟨fun _ => List.mem_cons_self, fun _ => hclosed rfl⟩

end ServerConnection

/-! ### Connections and their ends -/

/-- A connection that the application has heard of has been notified of its end, once, by the time it is
closed. -/
def ClosePaired (s : ServerConnection) : Prop :=
  s.peer.state = .closed → .onConnect ∈ s.calls → s.calls.count .onClose = 1

/-- The first read that carried bytes. -/
def firstData : List ServerAction → Option UvRead
  | [] => none
  | .read r :: rest => if 0 < r.nread then some r else firstData rest
  | .closeCallback :: rest => firstData rest

/-- The first bytes are taken for a handshake request. -/
def HandshakeRead (actions : List ServerAction) : Prop :=
  ∃ r key, firstData actions = some r ∧
    parseHttpHeads r.base CWSServer.keyField = .ok (some key)

/-- A connection that waits for a handshake. -/
structure ServerConnection.Waiting (s : ServerConnection) : Prop where
  reading : s.peer.state = .reading
  noCallback : s.peer.closeCallbacks = 0
  owned : s.peer.loopData = true
  undone : (CWSServer.handle s.peer).protoBuf.flag &&& flagWebsocket = 0
  unconnected : .onConnect ∉ s.calls

theorem ServerConnection.accepted_waiting : ServerConnection.accepted.Waiting where
  reading := rfl
  noCallback := rfl
  owned := rfl
  undone := by decide
  unconnected := nofun

theorem firstData_closeCallbacks {actions : List ServerAction}
    (h : ∀ a ∈ actions, a = .closeCallback) : firstData actions = none := by
  induction actions with
  | nil => rfl
  | cons a rest ih =>
      rw [List.forall_mem_cons] at h
      rw [h.1, firstData, ih h.2]

/-- The application hears of a connection exactly when its first bytes are a handshake request. -/
theorem ServerConnection.Waiting.connected_iff {s s' : ServerConnection}
    {actions : List ServerAction} (waiting : s.Waiting)
    (run : serverMachine.exec s actions = some s') :
    .onConnect ∈ s'.calls ↔ HandshakeRead actions := by
  induction actions generalizing s with
  | nil =>
      cases run
      exact ⟨fun h => absurd h waiting.unconnected, by rintro ⟨r, key, hfirst, -⟩; cases hfirst⟩
  | cons a rest ih =>
      obtain ⟨mid, hstep, hrest⟩ := Machines.Machine.exec_cons.mp run
      cases a with
      | closeCallback =>
          obtain ⟨hpending, -⟩ := ServerConnection.step_closeCallback hstep
          rw [waiting.noCallback] at hpending
          exact absurd hpending (Nat.lt_irrefl 0)
      | read r =>
          obtain ⟨hreading, calls, hread, happend⟩ := ServerConnection.step_read hstep
          have hclosing : ∀ peer : UvStream, peer.state = .reading → peer.close.isClosing = true := by
            intro peer h
            rw [UvStream.close_of_reading h]
            rfl
          cases CWSServer.onRead_cases waiting.owned hread with
          | frames positive done => exact absurd waiting.undone done
          | accepted positive undone key response head answer peer_eq calls_eq =>
              have hmem : .onConnect ∈ mid.calls := by
                rw [happend, calls_eq]
                simp
              exact iff_of_true (ServerConnection.exec_calls hmem hrest)
                ⟨r, key, if_pos positive, head⟩
          | refused positive undone head peer_eq calls_eq =>
              obtain ⟨-, hcalls, -⟩ := ServerConnection.exec_closing
                (by rw [peer_eq]; exact hclosing _ hreading) hrest
              apply iff_of_false
              · rw [hcalls, happend, calls_eq, List.mem_append, not_or]
                exact ⟨waiting.unconnected, by split <;> simp⟩
              · rintro ⟨r', key, hfirst, hhead⟩
                rw [firstData, if_pos positive, Option.some.injEq] at hfirst
                rw [← hfirst, head] at hhead
                cases hhead
          | nothing zero peer_eq calls_eq =>
              have hmid : mid.Waiting := by
                refine ⟨?_, ?_, ?_, ?_, ?_⟩
                · rw [peer_eq]; exact waiting.reading
                · rw [peer_eq]; exact waiting.noCallback
                · rw [peer_eq]; exact waiting.owned
                · rw [peer_eq, CWSServer.handle_handle]; exact waiting.undone
                · rw [happend, calls_eq, List.append_nil]; exact waiting.unconnected
              rw [ih hmid hrest, HandshakeRead, HandshakeRead, firstData, if_neg (by omega)]
          | failed negative peer_eq calls_eq =>
              obtain ⟨hactions, hcalls, -⟩ := ServerConnection.exec_closing
                (by rw [peer_eq]; exact hclosing _ hreading) hrest
              apply iff_of_false
              · rw [hcalls, happend, calls_eq, List.mem_append, not_or]
                exact ⟨waiting.unconnected, by split <;> split <;> simp⟩
              · rintro ⟨r', key, hfirst, -⟩
                rw [firstData, if_neg (by omega), firstData_closeCallbacks hactions] at hfirst
                cases hfirst

/-- **Connections and their ends.** In every run of a server connection, the two notifications are
paired exactly when the connection has not been closed yet, or its first bytes were no handshake
request: on no other run is `onClose` called. -/
theorem closePaired_iff {actions : List ServerAction} {s' : ServerConnection}
    (run : serverMachine.exec ServerConnection.accepted actions = some s') :
    ClosePaired s' ↔ ¬ (.closeCallback ∈ actions ∧ HandshakeRead actions) := by
  obtain ⟨-, hsilent⟩ := ServerConnection.exec_silent (s := .accepted) ⟨rfl, nofun⟩ run
  have hclosed := ServerConnection.closed_iff (s := .accepted) rfl (by decide) run
  have hconnected := ServerConnection.accepted_waiting.connected_iff run
  rw [ClosePaired, List.count_eq_zero_of_not_mem hsilent, hclosed, hconnected]
  constructor
  · rintro hpaired ⟨hend, hread⟩
    exact absurd (hpaired hend hread) (by decide)
  · intro hnot hend hread
    exact absurd ⟨hend, hread⟩ hnot

/-- A handshake request, in a buffer with one byte to spare. -/
def sampleRequest : UvRead where
  nread := 63
  base := ascii "GET / HTTP/1.1\r\nSec-WebSocket-Key: dGhlIHNhbXBsZSBub25jZQ==\r\n\r\n" ++ [0]
  nread_le := by decide +kernel

/-- A connection that is accepted, answered and then closed by the other side. -/
def sampleVisit : List ServerAction := [.read sampleRequest, .read endOfStream, .closeCallback]

theorem sampleVisit_run : ∃ s', serverMachine.exec ServerConnection.accepted sampleVisit = some s' ∧
    s'.peer.state = .closed ∧ .onConnect ∈ s'.calls ∧ .onClose ∉ s'.calls := by
  have hhead : parseHttpHeads sampleRequest.base CWSServer.keyField =
      .ok (some (ascii "dGhlIHNhbXBsZSBub25jZQ==")) := by decide +kernel
  obtain ⟨response, hresponse⟩ := (generateWebsocketServerHandshake_isOk_iff
    (by decide +kernel : 0 ∉ ascii "dGhlIHNhbXBsZSBub25jZQ==")).mpr (by decide +kernel)
  have haccepts := @CWSServer.onRead_accepts CWSServer.accepted _ _ _ rfl (by decide) (by decide) hhead
    hresponse
  refine ⟨_, Machines.Machine.exec_cons.mpr ⟨_, ServerConnection.step_of_onRead rfl haccepts,
    Machines.Machine.exec_cons.mpr ⟨_, ServerConnection.step_of_onRead rfl
      (CWSServer.onRead_fails rfl (by decide)), Machines.Machine.exec_cons.mpr ⟨_, rfl, rfl⟩⟩⟩, rfl,
        ?_, ?_⟩
  · simp [ServerConnection.accepted]
  · simp [ServerConnection.accepted, CWSServer.accepted, endOfStream, UvStream.isClosing]

theorem closePaired_iff_answered : ∃ s',
    serverMachine.exec ServerConnection.accepted sampleVisit = some s' ∧ .onConnect ∈ s'.calls ∧
      s'.peer.state = .closed ∧
      (ClosePaired s' ↔ ¬ (.closeCallback ∈ sampleVisit ∧ HandshakeRead sampleVisit)) := by
  obtain ⟨s', hrun, hclosed, hheard, -⟩ := sampleVisit_run
  exact ⟨s', hrun, hheard, hclosed, closePaired_iff hrun⟩

/-- The application hears of that connection, and not of its end. -/
theorem close_is_not_notified :
    ∃ s', serverMachine.exec ServerConnection.accepted
        [.read sampleRequest, .read endOfStream, .closeCallback] = some s' ∧
      ¬ ClosePaired s' := by
  obtain ⟨s', hrun, hclosed, hheard, hunheard⟩ := sampleVisit_run
  refine ⟨s', hrun, fun paired => ?_⟩
  have hcount := paired hclosed hheard
  rw [List.count_eq_zero_of_not_mem hunheard] at hcount
  cases hcount

end AnotherWs
