/-
Module: AnotherWs.Proofs.SessionServer
Purpose: The server's side of a session as a contract. It writes the answer to a key and then
  messages, as long as what it reads is a request that fits its buffer and then messages.
Trusted boundary: none
Main exports: ServerSide, RequestFits, FromClient, DirectServer.MayRead, DirectServer.MayAct,
  directServerContract
-/
import AnotherWs.Proofs.SessionSides

namespace AnotherWs

open Framing Machines

/-- The receiver of the server behind the handshake. -/
def serverView : HandleView := CWSServer.openedHandle.view

/-- The connection of the server, by what it has read and written: before the handshake and behind
it. -/
inductive ServerSide : DirectServer → Bytes → Bytes → Prop where
  | waits {e : DirectServer} (owned : e.connection.peer.loopData = true)
      (fresh : e.connection.peer.state = .reading →
        CWSServer.handle e.connection.peer = newHandle .server)
      (told : HasTold e.connection.peer.state e.connection.calls []) (said_eq : e.said = []) :
      ServerSide e [] []
  | opened {e : DirectServer} {key response head x : Bytes} (owned : e.connection.peer.loopData = true)
      (sent : SentKey key) (answer : generateWebsocketServerHandshake key = .ok response)
      (ends : EndsHead head)
      (follows : e.connection.peer.state = .reading →
        Follows CWSServer.listener serverView e.connection x)
      (told : HasTold e.connection.peer.state e.connection.calls (heardOf serverView x))
      (sendable : ∀ m ∈ e.said, Sendable m) :
      ServerSide e (head ++ x) (response ++ wireOf e.said)

/-- A request with a key of a client fits the buffer that it is formatted into. -/
def RequestFits (ip : Bytes) (port : UInt16) (uri : Bytes) : Prop :=
  uri.length + ip.length + (toString port.toNat).length + 28 + 115 < handshakeSize

instance (ip : Bytes) (port : UInt16) (uri : Bytes) : Decidable (RequestFits ip port uri) :=
  Nat.decLt _ _

/-- What the server relies on: a request with a key that fits its buffer, and messages. -/
def FromClient (ip : Bytes) (port : UInt16) (uri : Bytes) (z : Bytes) : Prop :=
  z = [] ∨ ∃ key said, SentKey key ∧ key.length ≤ 28 ∧ (∀ m ∈ said, Sendable m) ∧
    z = generateWebsocketClientHandshake ip port uri key ++ wireOf said

/-- A read during the handshake takes exactly the head that the peer has sent. -/
def DirectServer.MayRead (e : DirectServer) (_ : Unit) (chunk : Bytes) : Prop :=
  .onConnect ∉ e.connection.calls → EndsHead chunk

/-- The application sends once it has been told of the connection, and what it sends is a message. -/
def DirectServer.MayAct (e : DirectServer) : DirectAction ServerAction → Prop
  | .libuv _ => True
  | .say op data => .onConnect ∈ e.connection.calls ∧ Sendable (op, data)

/-- What a callback of libuv does. -/
theorem DirectServer.libuv_inv {e e' : DirectServer} {a : ServerAction} {out : Bytes}
    (step : e.libuv a = some (e', out)) :
    serverMachine.step e.connection a = some e'.connection ∧ e'.said = e.said ∧
      out = sentBytes (e'.connection.calls.drop e.connection.calls.length) := by
  obtain ⟨connection, hstep, hout⟩ := Option.map_eq_some_iff.mp step
  cases hout
  exact ⟨hstep, rfl, rfl⟩

/-- What sending a message does. -/
theorem DirectServer.say_inv {e e' : DirectServer} {op : UInt8} {data out : Bytes}
    (sendable : Sendable (op, data)) (step : e.say op data = some (e', out)) :
    e' = { e with said := e.said ++ [(op, data)] } ∧ out = encoding (op, data) := by
  rw [DirectServer.say] at step
  split at step
  · rw [messageBytes_eq sendable] at step
    cases step
    exact ⟨rfl, rfl⟩
  · cases step

namespace ServerSide

variable {ip : Bytes} {port : UInt16} {uri : Bytes} {e e' : DirectServer} {x y out : Bytes}

theorem owned (side : ServerSide e x y) : e.connection.peer.loopData = true := by
  cases side with
  | waits owned | opened owned => exact owned

section Requests

variable (hip : PlainText ip) (huri : PlainText uri) (fits : RequestFits ip port uri)

include hip huri fits

omit hip huri fits in
/-- A read that leaves room in a buffer of zeros is text that ends there. -/
theorem zeroedArguments_base {data : Bytes} (short : data.length < suggestedSize) :
    (zeroedArguments data).base = zeroFilled data (suggestedSize - data.length - 1) := by
  show data ++ List.replicate (suggestedSize - data.length) 0 = _
  rw [zeroFilled, show suggestedSize - data.length - 1 + 1 = suggestedSize - data.length by omega]

/-- A connection that waits for a request reads one. -/
theorem reads_request {c : ServerConnection} {key : Bytes} (reading : c.peer.state = .reading)
    (owned : c.peer.loopData = true) (fresh : CWSServer.handle c.peer = newHandle .server)
    (sent : SentKey key) (short : key.length ≤ 28) :
    ∃ c' response, serverMachine.step c
        (.read (zeroedArguments (generateWebsocketClientHandshake ip port uri key))) = some c' ∧
      generateWebsocketServerHandshake key = .ok response ∧
      c'.calls = c.calls ++ [.sendDataWithAsync response, .onConnect] ∧
      c'.peer.state = .reading ∧ c'.peer.loopData = true ∧
      Follows CWSServer.listener serverView c' [] := by
  have hfits : uri.length + ip.length + (toString port.toNat).length + key.length + 115 <
      handshakeSize := by
    unfold RequestFits at fits
    omega
  have hend := request_endsHead port hip.1 huri.1 sent hfits
  have hcut : (generateWebsocketClientHandshake ip port uri key).length < suggestedSize := by
    rw [generateWebsocketClientHandshake_eq]
    exact Nat.lt_of_le_of_lt (List.length_take_le _ _) (by decide)
  have hparse := parseHttpHeads_request port hip huri sent
    (suggestedSize - (generateWebsocketClientHandshake ip port uri key).length - 1)
  rw [if_pos hfits, ← zeroedArguments_base hcut] at hparse
  obtain ⟨p, response, -, -, hanswer, -⟩ := sent.responseUnderstood
  have hflag : (CWSServer.handle c.peer).protoBuf.flag &&& flagWebsocket = 0 := by
    rw [fresh]
    decide
  refine ⟨_, response, ServerConnection.step_of_onRead reading
    (CWSServer.onRead_accepts owned (readArguments_pos hend.ne_nil _) hflag hparse hanswer),
      hanswer, rfl,
    reading, owned, ?_⟩
  rw [fresh]
  exact .start ⟨reading, owned, rfl, by decide⟩ rfl ⟨⟨7, by omega, rfl⟩, ⟨7, by omega, rfl⟩⟩

omit hip huri fits in
/-- What a read sends: nothing, or the answer as the first thing of all. -/
inductive Answers (e : DirectServer) (y : Bytes) (made : List Call) (out : Bytes) : Prop where
  | nothing (silent : Silent made) (out_eq : out = [])
  | response (waiting : .onConnect ∉ e.connection.calls) (first : y = []) (nonempty : out ≠ [])
      (short : out.length < handshakeSize) (made_eq : made = [.sendDataWithAsync out, .onConnect])

/-- **A read of bytes** from an open stream answers the request, or tells the next messages and answers
nothing. -/
theorem reads (side : ServerSide e x y) (reading : e.connection.peer.state = .reading)
    {chunk rest : Bytes} (relies : FromClient ip port uri (x ++ chunk ++ rest)) (nonempty : chunk ≠ [])
    (small : chunk.length ≤ suggestedSize) (may : e.MayRead () chunk) :
    ∃ e' out, directServer.receive e () chunk = some (e', out) ∧ e'.said = e.said ∧
      e'.connection.peer.state = .reading ∧ .onConnect ∈ e'.connection.calls ∧
      Answers e y (e'.connection.calls.drop e.connection.calls.length) out ∧
      ServerSide e' (x ++ chunk) (y ++ out) := by
  obtain ⟨key', said, hkey, hshort, hsendable, hcut⟩ := relies.resolve_left (by simp [nonempty])
  have hhead : EndsHead (generateWebsocketClientHandshake ip port uri key') := by
    apply request_endsHead port hip.1 huri.1 hkey
    unfold RequestFits at fits
    omega
  have hreceive : ∀ connection' made,
      serverMachine.step e.connection (.read (zeroedArguments chunk)) = some connection' →
      connection'.calls = e.connection.calls ++ made →
      directServer.receive e () chunk = some (⟨connection', e.said⟩, sentBytes made) := by
    intro connection' made hstep hcalls
    simp only [directServer, if_pos small, DirectServer.libuv, hstep, Option.map_some]
    rw [hcalls, sentBytes_drop]
  cases side with
  | waits owned fresh told said_eq =>
      -- the chunk is the request
      have hundone : .onConnect ∉ e.connection.calls := by
        rw [told.onConnect_iff]
        exact List.not_mem_nil
      rw [List.nil_append] at hcut ⊢
      obtain ⟨rfl, -⟩ := (may hundone).unique hhead hcut
      obtain ⟨connection', response, hstep, hanswer, hcalls, hopen, hloop, hfollows⟩ :=
        reads_request hip huri fits reading owned (fresh reading) hkey hshort
      have htold := told.open_append reading
        [.sendDataWithAsync response, .onConnect] connection'.peer.state
      rw [← hcalls, show [] ++ [Call.sendDataWithAsync response, .onConnect].flatMap Call.heard =
        heardOf serverView [] from (heardOf_nil _).symm] at htold
      have hsent : sentBytes [.sendDataWithAsync response, .onConnect] = response := by
        simp [sentBytes, Call.sent]
      obtain ⟨hends, hshort', -⟩ := response_endsHead hkey hanswer
      refine ⟨⟨connection', e.said⟩, _, hreceive connection' _ hstep hcalls, rfl, hopen, ?_, ?_, ?_⟩
      · rw [hcalls]
        simp
      · rw [hcalls, List.drop_left, hsent]
        exact .response hundone rfl hends.ne_nil hshort' rfl
      · have hside := @opened ⟨connection', e.said⟩ key' response _ [] hloop hkey hanswer hhead
          (fun _ => hfollows) htold (by rw [said_eq]; exact fun m hm => absurd hm List.not_mem_nil)
        rw [List.append_nil, said_eq, show wireOf [] = [] from rfl, List.append_nil] at hside
        rw [hsent, said_eq]
        exact hside
  | @opened key response head x owned sent answer ends follows told sendable =>
      -- the chunk goes on with the messages
      rw [List.append_assoc, List.append_assoc] at hcut
      obtain ⟨rfl, hbehind⟩ := ends.unique hhead hcut
      rw [← List.append_assoc] at hbehind
      obtain ⟨heard, -, -, hdata⟩ := carries_front hsendable hbehind
      obtain ⟨connection', made, hstep, hfollows, hcalls, hsent, hheard⟩ :=
        FrameListener.follows_read (F := CWSServer.listener) rfl (follows reading) hdata nonempty
          (readArguments_pos nonempty _) (readArguments_data chunk _)
      obtain ⟨-, -, ⟨hopen, hloop, -, -⟩, -⟩ := id hfollows
      have htold' := told.open_append reading made connection'.peer.state
      rw [hheard, ← show connection'.calls = e.connection.calls ++ made from hcalls] at htold'
      have hreceive' := hreceive connection' made hstep hcalls
      rw [hsent.sentBytes] at hreceive'
      refine ⟨⟨connection', e.said⟩, [], hreceive', rfl, hopen, ?_, ?_, ?_⟩
      · rw [htold'.onConnect_iff]
        exact List.mem_cons_self
      · rw [show connection'.calls = e.connection.calls ++ made from hcalls, List.drop_left]
        exact .nothing hsent rfl
      · rw [List.append_nil, List.append_assoc]
        exact .opened hloop sent answer ends (fun _ => hfollows) htold' sendable

/-- What a read leaves is what the read of an open stream leaves. -/
theorem receive (side : ServerSide e x y) {chunk rest : Bytes}
    (relies : FromClient ip port uri (x ++ chunk ++ rest)) (nonempty : chunk ≠ [])
    (may : e.MayRead () chunk) (step : directServer.receive e () chunk = some (e', out)) :
    ServerSide e' (x ++ chunk) (y ++ out) := by
  obtain ⟨hsmall, hreading⟩ : chunk.length ≤ suggestedSize ∧ e.connection.peer.state = .reading := by
    simp only [directServer] at step
    split at step
    · obtain ⟨hstep, -, -⟩ := DirectServer.libuv_inv step
      exact ⟨‹_›, (ServerConnection.step_read hstep).1⟩
    · cases step
  obtain ⟨mid, out', hreads, -, -, -, -, hside⟩ :=
    side.reads hip huri fits hreading relies nonempty hsmall may
  rw [step, Option.some.injEq, Prod.mk.injEq] at hreads
  obtain ⟨rfl, rfl⟩ := hreads
  exact hside

end Requests

/-- A callback without bytes leaves the connection on its side of the handshake. -/
theorem libuv (side : ServerSide e x y) {a : ServerAction} (quiet : a.quiet = true)
    (step : e.libuv a = some (e', out)) : ServerSide e' x (y ++ out) := by
  obtain ⟨hstep, hsaid, rfl⟩ := DirectServer.libuv_inv step
  obtain ⟨connection', said'⟩ := e'
  dsimp only at hstep hsaid ⊢
  subst hsaid
  have hnone : sentBytes (e.connection.calls.drop e.connection.calls.length) = [] := by
    rw [List.drop_length]
    rfl
  cases a with
  | closeCallback =>
      obtain ⟨hpending, rfl⟩ := ServerConnection.step_closeCallback hstep
      have hclosed : (afterUvCloseClient e.connection.peer).state ≠ .reading := fun h => by cases h
      rw [hnone, List.append_nil]
      cases side with
      | waits owned fresh told said_eq =>
          exact .waits owned (fun h => absurd h hclosed) (told.leave hclosed) said_eq
      | opened owned sent answer ends follows told sendable =>
          exact .opened owned sent answer ends (fun h => absurd h hclosed) (told.leave hclosed) sendable
  | read r =>
      have hle : r.nread ≤ 0 := of_decide_eq_true quiet
      obtain ⟨hreading, calls, hread, hcalls⟩ := ServerConnection.step_read hstep
      obtain ⟨peer', calls'⟩ := connection'
      dsimp only at hread hcalls ⊢
      subst hcalls
      rw [sentBytes_drop]
      cases CWSServer.onRead_cases side.owned hread with
      | frames positive | accepted positive | refused positive => omega
      | nothing zero peer_eq calls_eq =>
          subst peer_eq calls_eq
          rw [List.append_nil, show sentBytes [] = [] from rfl, List.append_nil]
          cases side with
          | waits owned fresh told said_eq =>
              exact .waits owned (fun _ => (CWSServer.handle_handle _).trans (fresh hreading)) told
                said_eq
          | opened owned sent answer ends follows told sendable =>
              obtain ⟨hd, p, ⟨-, -, hdata, hflag⟩, hstands, hsized, hhalt⟩ := follows hreading
              exact .opened owned sent answer ends
                (fun _ => ⟨hd, p,
                  ⟨hreading, owned, congrArg some (CWSServer.handle_of_data hdata hsized), hflag⟩,
                  hstands, hsized, hhalt⟩)
                told sendable
      | failed negative peer_eq calls_eq =>
          obtain ⟨ends, hheard, hsent⟩ := failure_calls r.nread e.connection.peer.isClosing
          rw [← calls_eq] at hheard hsent
          have hstate : peer'.state ≠ .reading := by
            rw [peer_eq, @UvStream.close_of_reading { e.connection.peer with
              data := some (CWSServer.handle e.connection.peer) } hreading]
            exact fun h => by cases h
          have hloop : peer'.loopData = true := by
            rw [peer_eq, UvStream.close_loopData]
            exact side.owned
          rw [hsent.sentBytes, List.append_nil]
          cases side with
          | waits owned fresh told said_eq =>
              exact .waits hloop (fun h => absurd h hstate) (told.close hreading hheard hstate) said_eq
          | opened owned sent answer ends_ follows told sendable =>
              exact .opened hloop sent answer ends_ (fun h => absurd h hstate)
                (told.close hreading hheard hstate) sendable

/-- A callback without bytes sends nothing, and leaves the stream as it is, or for good. -/
theorem quiet (side : ServerSide e x y) {a : ServerAction} {connection : ServerConnection}
    (quiet : a.quiet = true) (step : serverMachine.step e.connection a = some connection) :
    Silent (connection.calls.drop e.connection.calls.length) ∧
      (connection.peer.isClosing = true ∨
        (∃ r, a = .read r) ∧ connection.peer.state = e.connection.peer.state) := by
  cases a with
  | closeCallback =>
      obtain ⟨-, rfl⟩ := ServerConnection.step_closeCallback step
      exact ⟨silent_drop _, Or.inl rfl⟩
  | read r =>
      have hle : r.nread ≤ 0 := of_decide_eq_true quiet
      obtain ⟨hreading, calls, hread, hcalls⟩ := ServerConnection.step_read step
      rw [hcalls, List.drop_left]
      cases CWSServer.onRead_cases side.owned hread with
      | frames positive | accepted positive | refused positive => omega
      | nothing zero peer_eq calls_eq =>
          rw [calls_eq]
          exact ⟨fun _ => List.not_mem_nil, Or.inr ⟨⟨r, rfl⟩, by rw [peer_eq]⟩⟩
      | failed negative peer_eq calls_eq =>
          obtain ⟨ends, -, hsilent⟩ := failure_calls r.nread e.connection.peer.isClosing
          rw [← calls_eq] at hsilent
          refine ⟨hsilent, Or.inl ?_⟩
          rw [peer_eq, @UvStream.close_of_reading { e.connection.peer with
            data := some (CWSServer.handle e.connection.peer) } hreading]
          rfl

/-- A message of the application goes behind the others. -/
theorem say (side : ServerSide e x y) {op : UInt8} {data : Bytes} (may : e.MayAct (.say op data))
    (step : e.say op data = some (e', out)) : ServerSide e' x (y ++ out) := by
  obtain ⟨hconnected, hsendable⟩ := may
  obtain ⟨rfl, rfl⟩ := DirectServer.say_inv hsendable step
  cases side with
  | waits owned fresh told said_eq =>
      rw [told.onConnect_iff] at hconnected
      exact absurd hconnected List.not_mem_nil
  | opened owned sent answer ends follows told sendable =>
      rw [List.append_assoc, wireOf_concat]
      refine .opened owned sent answer ends follows told ?_
      intro m hm
      rcases List.mem_append.mp hm with hm | hm
      · exact sendable m hm
      · rw [List.mem_singleton.mp hm]
        exact hsendable

theorem act (side : ServerSide e x y) {a : DirectAction ServerAction} (may : e.MayAct a)
    (step : directServer.act e a = some (e', out)) : ServerSide e' x (y ++ out) := by
  cases a with
  | libuv a =>
      simp only [directServer] at step
      split at step
      · exact side.libuv ‹_› step
      · cases step
  | say op data => exact side.say may step

end ServerSide

/-- **The contract of the server.** -/
def directServerContract {ip : Bytes} {port : UInt16} {uri : Bytes} (hip : PlainText ip)
    (huri : PlainText uri) (fits : RequestFits ip port uri) : Contract directServer where
  holds := ServerSide
  relies := FromClient ip port uri
  mayRead := DirectServer.MayRead
  mayAct := DirectServer.MayAct
  receive := fun side relies nonempty may step => side.receive hip huri fits relies nonempty may step
  act := fun side may step => side.act may step

end AnotherWs
