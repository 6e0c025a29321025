/-
Module: AnotherWs.Proofs.SessionClient
Purpose: The client's side of a session as a contract. It writes its request and then messages, as
  long as what it reads is an answer to a key and then messages.
Trusted boundary: none
Main exports: ClientSide, FromServer, DirectClient.MayRead, DirectClient.MayAct, directClientContract
-/
import AnotherWs.Proofs.SessionSides

namespace AnotherWs

open Framing Machines

/-- The receiver of a client behind the handshake. -/
def clientView : HandleView := (newHandle .client).view

/-- The client, by what it has read and written: before it is connected, with its request on the
way, and with the handshake behind it. -/
inductive ClientSide (ip : Bytes) (port : UInt16) (uri : Bytes) :
    DirectClient → Bytes → Bytes → Prop where
  | idle {e : DirectClient} (owned : e.client.uvTcp.loopData = true) (ip_eq : e.client.ip = ip)
      (port_eq : e.client.port = port) (uri_eq : e.client.uri = uri)
      (closed : e.client.uvTcp.state = .initialised) (callbacks : e.client.uvTcp.closeCallbacks = 0)
      (requests : e.client.connectRequests ≤ 1) (handshaking : e.client.status = .handshaking)
      (silent : e.client.calls = []) (said_eq : e.said = []) : ClientSide ip port uri e [] []
  | asks {e : DirectClient} {key : Bytes} (owned : e.client.uvTcp.loopData = true)
      (requests : e.client.connectRequests = 0) (handshaking : e.client.status = .handshaking)
      (sent : SentKey key) (short : key.length ≤ 28)
      (greeting : e.client.uvTcp.state = .reading → e.client.Greeting)
      (told : HasTold e.client.uvTcp.state e.client.calls []) (said_eq : e.said = []) :
      ClientSide ip port uri e [] (generateWebsocketClientHandshake ip port uri key)
  | works {e : DirectClient} {key head x : Bytes} (owned : e.client.uvTcp.loopData = true)
      (requests : e.client.connectRequests = 0) (working : e.client.status = .working)
      (sent : SentKey key) (short : key.length ≤ 28) (ends : EndsHead head)
      (follows : e.client.uvTcp.state = .reading → Follows CWSClient.listener clientView e.client x)
      (told : HasTold e.client.uvTcp.state e.client.calls (heardOf clientView x))
      (sendable : ∀ m ∈ e.said, Sendable m) :
      ClientSide ip port uri e (head ++ x)
        (generateWebsocketClientHandshake ip port uri key ++ wireOf e.said)

/-- What the client relies on: an answer to a key, and messages. -/
def FromServer (z : Bytes) : Prop :=
  z = [] ∨ ∃ key response said, SentKey key ∧ generateWebsocketServerHandshake key = .ok response ∧
    (∀ m ∈ said, Sendable m) ∧ z = response ++ wireOf said

/-- A read during the handshake takes exactly the head that the peer has sent, and the buffer that
malloc has given holds a zero somewhere behind it. -/
def DirectClient.MayRead (e : DirectClient) (behind chunk : Bytes) : Prop :=
  e.client.status = .handshaking → EndsHead chunk ∧ 0 ∈ behind

/-- The application sends once it has been told of the connection, and what it sends is a message. -/
def DirectClient.MayAct (e : DirectClient) : DirectAction ClientAction → Prop
  | .libuv (.connected random) => random.length = 16
  | .libuv _ => True
  | .say op data => e.client.status = .working ∧ Sendable (op, data)

/-- What a callback of libuv does. -/
theorem DirectClient.libuv_inv {e e' : DirectClient} {a : ClientAction} {out : Bytes}
    (step : e.libuv a = some (e', out)) :
    clientMachine.step e.client a = some e'.client ∧ e'.said = e.said ∧
      out = sentBytes (e'.client.calls.drop e.client.calls.length) := by
  obtain ⟨client, hstep, hout⟩ := Option.map_eq_some_iff.mp step
  cases hout
  exact ⟨hstep, rfl, rfl⟩

/-- What sending a message does. -/
theorem DirectClient.say_inv {e e' : DirectClient} {op : UInt8} {data out : Bytes}
    (sendable : Sendable (op, data)) (step : e.say op data = some (e', out)) :
    e' = { e with said := e.said ++ [(op, data)] } ∧ out = encoding (op, data) := by
  rw [DirectClient.say] at step
  split at step
  · rw [messageBytes_eq sendable] at step
    cases step
    exact ⟨rfl, rfl⟩
  · cases step

namespace ClientSide

variable {ip : Bytes} {port : UInt16} {uri : Bytes} {e e' : DirectClient} {x y out : Bytes}

theorem owned (side : ClientSide ip port uri e x y) : e.client.uvTcp.loopData = true := by
  cases side with
  | idle owned | asks owned | works owned => exact owned

/-- A client that waits for a response reads one. -/
theorem reads_response {client : CWSClient} {key response behind : Bytes} (greeting : client.Greeting)
    (sent : SentKey key) (answer : generateWebsocketServerHandshake key = .ok response)
    (terminated : 0 ∈ behind) :
    ∃ client', clientMachine.step client (.read (readArguments response behind)) = some client' ∧
      client' = { client.prepared with status := .working, calls := client.calls ++ [.onConnect] } ∧
      Follows CWSClient.listener clientView client' [] := by
  obtain ⟨hhead, hlength, hreads⟩ := response_endsHead sent answer
  obtain ⟨value, hvalue, hparse⟩ := hreads behind terminated
  refine ⟨_, CWSClient.step_of_onRead greeting.reading (CWSClient.onRead_accepts greeting.owned
    (readArguments_pos hhead.ne_nil behind) greeting.handshaking hparse hvalue), rfl, ?_⟩
  exact .start ⟨greeting.reading, greeting.owned, congrArg some greeting.fresh, rfl⟩ rfl
    (newHandle_allocated .client).sized

/-- **A read of bytes** from an open stream finishes the handshake, or tells the next messages. -/
theorem reads (side : ClientSide ip port uri e x y) (reading : e.client.uvTcp.state = .reading)
    {behind chunk rest : Bytes} (relies : FromServer (x ++ chunk ++ rest)) (nonempty : chunk ≠ [])
    (fills : chunk.length + behind.length = suggestedSize) (may : e.MayRead behind chunk) :
    ∃ e', directClient.receive e behind chunk = some (e', []) ∧ e'.said = e.said ∧
      e'.client.uvTcp.state = .reading ∧ Silent (e'.client.calls.drop e.client.calls.length) ∧
      ClientSide ip port uri e' (x ++ chunk) y := by
  obtain ⟨key', response, said, hkey, hanswer, hsendable, hcut⟩ :=
    relies.resolve_left (by simp [nonempty])
  obtain ⟨hhead, -, -⟩ := response_endsHead hkey hanswer
  have hreceive : ∀ client' made, clientMachine.step e.client (.read (readArguments chunk behind)) =
      some client' → client'.calls = e.client.calls ++ made → Silent made →
      directClient.receive e behind chunk = some (⟨client', e.said⟩, []) ∧
        Silent (client'.calls.drop e.client.calls.length) := by
    intro client' made hstep hcalls hsilent
    simp only [directClient, if_pos fills, DirectClient.libuv, hstep, Option.map_some]
    rw [hcalls, sentBytes_drop, hsilent.sentBytes, List.drop_left]
    exact ⟨rfl, hsilent⟩
  cases side with
  | idle owned ip_eq port_eq uri_eq closed => rw [closed] at reading; cases reading
  | asks owned requests handshaking sent short greeting told said_eq =>
      -- the chunk is the response
      rw [List.nil_append] at hcut ⊢
      obtain ⟨hends, hterminated⟩ := may handshaking
      obtain ⟨rfl, -⟩ := hends.unique hhead hcut
      obtain ⟨client', hstep, hclient, hfollows⟩ :=
        reads_response (greeting reading) hkey hanswer hterminated
      have htold := told.open_append reading [.onConnect] client'.uvTcp.state
      rw [show [] ++ [Call.onConnect].flatMap Call.heard = heardOf clientView [] from
        (heardOf_nil _).symm] at htold
      have hcalls : client'.calls = e.client.calls ++ [.onConnect] := by rw [hclient]
      have hsilent : Silent [.onConnect] := fun bytes h => by cases List.mem_singleton.mp h
      obtain ⟨hreads, hquiet⟩ := hreceive client' [.onConnect] hstep hcalls hsilent
      refine ⟨⟨client', e.said⟩, hreads, rfl, ?_, hquiet, ?_⟩
      · rw [hclient]
        exact reading
      · have hside := @works ip port uri ⟨client', e.said⟩ _ chunk [] (by rw [hclient]; exact owned)
          (by rw [hclient]; exact requests) (by rw [hclient]) sent short hhead (fun _ => hfollows)
          (by rw [hcalls]; exact htold)
          (by rw [said_eq]; exact fun m hm => absurd hm List.not_mem_nil)
        rw [List.append_nil, said_eq, show wireOf [] = [] from rfl, List.append_nil] at hside
        rw [said_eq]
        exact hside
  | @works key head x owned requests working sent short ends follows told sendable =>
      -- the chunk goes on with the messages
      rw [List.append_assoc, List.append_assoc] at hcut
      obtain ⟨rfl, hbehind⟩ := ends.unique hhead hcut
      rw [← List.append_assoc] at hbehind
      obtain ⟨heard, -, -, hdata⟩ := carries_front hsendable hbehind
      obtain ⟨client', made, hstep, hfollows, hcalls, hsent, hheard⟩ :=
        FrameListener.follows_read (F := CWSClient.listener)
          (newHandle_allocated .client).mergeBuf_empty (follows reading) hdata nonempty
          (readArguments_pos nonempty behind) (readArguments_data chunk behind)
      have hcase : CWSClient.StepCase e.client client' (.read (readArguments chunk behind)) :=
        CWSClient.step_cases owned hstep
      cases hcase with
      | read r hreading case_ =>
          obtain ⟨-, hrequests, -⟩ := case_.stream owned hreading
          obtain ⟨-, -, ⟨hopen, hloop, -, hworking⟩, -⟩ := id hfollows
          have htold := told.open_append reading made client'.uvTcp.state
          rw [hheard, ← show client'.calls = e.client.calls ++ made from hcalls] at htold
          obtain ⟨hreads, hquiet⟩ := hreceive client' made hstep hcalls hsent
          refine ⟨⟨client', e.said⟩, hreads, rfl, hopen, hquiet, ?_⟩
          rw [List.append_assoc]
          exact .works hloop (hrequests.trans requests) hworking sent short ends
            (fun _ => hfollows) htold
            sendable

/-- What a read leaves is what the read of an open stream leaves. -/
theorem receive (side : ClientSide ip port uri e x y) {behind chunk rest : Bytes}
    (relies : FromServer (x ++ chunk ++ rest)) (nonempty : chunk ≠ []) (may : e.MayRead behind chunk)
    (step : directClient.receive e behind chunk = some (e', out)) :
    ClientSide ip port uri e' (x ++ chunk) (y ++ out) := by
  obtain ⟨hfills, hreading⟩ : chunk.length + behind.length = suggestedSize ∧
      e.client.uvTcp.state = .reading := by
    simp only [directClient] at step
    split at step
    · obtain ⟨hstep, -, -⟩ := DirectClient.libuv_inv step
      have hcase : CWSClient.StepCase e.client e'.client (.read (readArguments chunk behind)) :=
        CWSClient.step_cases side.owned hstep
      cases hcase with
      | read r hreading case_ => exact ⟨‹_›, hreading⟩
    · cases step
  obtain ⟨mid, hreads, -, -, -, hside⟩ := side.reads hreading relies nonempty hfills may
  rw [step, Option.some.injEq, Prod.mk.injEq] at hreads
  obtain ⟨rfl, rfl⟩ := hreads
  rw [List.append_nil]
  exact hside

/-- A callback without bytes leaves the client on its side of the handshake. -/
theorem libuv (side : ClientSide ip port uri e x y) {a : ClientAction} (quiet : a.quiet = true)
    (may : e.MayAct (.libuv a)) (step : e.libuv a = some (e', out)) :
    ClientSide ip port uri e' x (y ++ out) := by
  obtain ⟨hstep, hsaid, rfl⟩ := DirectClient.libuv_inv step
  obtain ⟨client', said'⟩ := e'
  dsimp only at hstep hsaid ⊢
  subst hsaid
  have hcase : CWSClient.StepCase e.client client' a := CWSClient.step_cases side.owned hstep
  have hnone : sentBytes (e.client.calls.drop e.client.calls.length) = [] := by
    rw [List.drop_length]
    rfl
  cases hcase with
  | connected random requested opened key request handshake s_eq =>
      cases side with
      | idle owned ip_eq port_eq uri_eq closed callbacks requests handshaking silent said_eq =>
          subst ip_eq port_eq uri_eq
          obtain ⟨hkey, hshort, rfl⟩ := sentKey_of_random may handshake
          rw [s_eq, sentBytes_drop]
          have htold : HasTold .reading (e.client.calls ++ [.sendDataWithAsync
              (generateWebsocketClientHandshake e.client.ip e.client.port e.client.uri key)]) [] :=
            ⟨0, by rw [silent]; rfl, fun _ => rfl⟩
          have hside := @asks e.client.ip e.client.port e.client.uri ⟨{ e.client with
              key := key
              status := .handshaking
              uvTcp := { e.client.uvTcp with state := .reading, data := some (callocHandle .client) }
              reconnectTimer := !e.client.enableReconnect && e.client.reconnectTimer
              connectRequests := e.client.connectRequests - 1
              calls := e.client.calls ++ [.sendDataWithAsync
                (generateWebsocketClientHandshake e.client.ip e.client.port e.client.uri key)] },
                  e.said⟩ key owned
            (by show e.client.connectRequests - 1 = 0; omega) rfl hkey hshort
            (fun _ => ⟨rfl, owned, rfl, initBuffers_calloc .client⟩) htold said_eq
          simpa [sentBytes, Call.sent] using hside
      | asks owned requests | works owned requests => omega
  | connectFailed requested s_eq =>
      cases side with
      | idle owned ip_eq port_eq uri_eq closed callbacks requests handshaking silent said_eq =>
          rw [s_eq, hnone]
          exact .idle owned ip_eq port_eq uri_eq closed callbacks
            (Nat.le_trans (Nat.sub_le _ _) requests)
            handshaking silent said_eq
      | asks owned requests | works owned requests => omega
  | tick active s_eq => cases quiet
  | closeCallback pending s_eq =>
      have hclosed : (afterUvCloseClient e.client.uvTcp).state ≠ .reading := fun h => by cases h
      rw [s_eq, hnone, List.append_nil]
      cases side with
      | idle owned ip_eq port_eq uri_eq closed callbacks => omega
      | asks owned requests handshaking sent short greeting told said_eq =>
          exact .asks owned requests handshaking sent short (fun h => absurd h hclosed)
            (told.leave hclosed) said_eq
      | works owned requests working sent short ends follows told sendable =>
          exact .works owned requests working sent short ends (fun h => absurd h hclosed)
            (told.leave hclosed) sendable
  | read r reading case_ =>
      have hle : r.nread ≤ 0 := of_decide_eq_true quiet
      cases case_ with
      | ignored positive | accepted positive | frames positive => omega
      | nothing zero s_eq =>
          rw [s_eq, show e.client.prepared.calls = e.client.calls from rfl, hnone, List.append_nil]
          cases side with
          | idle owned ip_eq port_eq uri_eq closed => rw [closed] at reading; cases reading
          | asks owned requests handshaking sent short greeting told said_eq =>
              have hgreeting := greeting reading
              exact .asks owned requests handshaking sent short (fun _ => ⟨reading, owned, handshaking,
                (CWSClient.handle_prepared e.client).trans hgreeting.fresh⟩) told said_eq
          | works owned requests working sent short ends follows told sendable =>
              obtain ⟨hd, p, ⟨-, -, hdata, -⟩, hstands, hsized, hhalt⟩ := follows reading
              exact .works owned requests working sent short ends
                (fun _ => ⟨hd, p,
                  ⟨reading, owned, congrArg some (CWSClient.handle_of_data hdata hsized), working⟩,
                  hstands, hsized, hhalt⟩)
                told sendable
      | failed negative s_eq =>
          obtain ⟨ends, hheard, hsent⟩ := failure_calls r.nread e.client.uvTcp.isClosing
          have hstate : e.client.prepared.uvTcp.close.state ≠ .reading := by
            rw [@UvStream.close_of_reading e.client.prepared.uvTcp reading]
            exact fun h => by cases h
          rw [s_eq, sentBytes_drop, hsent.sentBytes, List.append_nil]
          cases side with
          | idle owned ip_eq port_eq uri_eq closed => rw [closed] at reading; cases reading
          | asks owned requests handshaking sent short greeting told said_eq =>
              exact .asks (by rw [UvStream.close_loopData]; exact owned) requests handshaking sent short
                (fun h => absurd h hstate) (told.close reading hheard hstate) said_eq
          | works owned requests working sent short ends_ follows told sendable =>
              exact .works (by rw [UvStream.close_loopData]; exact owned) requests working sent short
                ends_ (fun h => absurd h hstate) (told.close reading hheard hstate) sendable

/-- What a callback without bytes does to the stream, and what it sends: the stream stays as it is,
or leaves, and nothing is sent, or it opens, and the request is sent as the first thing of all. -/
inductive Quiet (e : DirectClient) (y : Bytes) (client : CWSClient) : ClientAction → Prop where
  | stays {a : ClientAction} (unchecked : a = .connectFailed ∨ ∃ r, a = .read r)
      (state_eq : client.uvTcp.state = e.client.uvTcp.state)
      (silent : Silent (client.calls.drop e.client.calls.length)) : Quiet e y client a
  | leaves {a : ClientAction} (closing : client.uvTcp.isClosing = true)
      (silent : Silent (client.calls.drop e.client.calls.length)) : Quiet e y client a
  | opens {random request : Bytes} (first : y = []) (initialised : e.client.uvTcp.state = .initialised)
      (reading : client.uvTcp.state = .reading) (nonempty : request ≠ [])
      (short : request.length < handshakeSize)
      (made_eq : client.calls.drop e.client.calls.length = [.sendDataWithAsync request]) :
      Quiet e y client (.connected random)

theorem request_bounds (ip : Bytes) (port : UInt16) (uri key : Bytes) :
    generateWebsocketClientHandshake ip port uri key ≠ [] ∧
      (generateWebsocketClientHandshake ip port uri key).length < handshakeSize := by
  rw [generateWebsocketClientHandshake_eq]
  constructor
  · intro hnil
    rcases List.take_eq_nil_iff.mp hnil with hzero | hnone
    · exact absurd hzero (by decide)
    · exact absurd (List.append_eq_nil_iff.mp hnone).2 (by decide)
  · exact Nat.lt_of_le_of_lt (List.length_take_le _ _) (by decide)

/-- Every callback without bytes is one of these. -/
theorem quiet (side : ClientSide ip port uri e x y) {a : ClientAction} {client : CWSClient}
    (quiet : a.quiet = true) (step : clientMachine.step e.client a = some client) :
    Quiet e y client a := by
  have hcase : CWSClient.StepCase e.client client a := CWSClient.step_cases side.owned step
  cases hcase with
  | connected random requested opened key request handshake s_eq =>
      cases side with
      | idle owned ip_eq port_eq uri_eq closed callbacks requests handshaking silent said_eq =>
          obtain ⟨hnonempty, hshort⟩ := request_bounds e.client.ip e.client.port e.client.uri key
          rw [← CWSClient.onConnectInternal_request handshake] at hnonempty hshort
          refine .opens rfl closed (by rw [s_eq]) hnonempty hshort ?_
          rw [s_eq]
          exact List.drop_left
      | asks owned requests | works owned requests => omega
  | connectFailed requested s_eq =>
      refine .stays (Or.inl rfl) (by rw [s_eq]) ?_
      rw [s_eq]
      exact silent_drop _
  | tick active s_eq => cases quiet
  | closeCallback pending s_eq =>
      refine .leaves (by rw [s_eq]; rfl) ?_
      rw [s_eq]
      exact silent_drop _
  | read r reading case_ =>
      have hle : r.nread ≤ 0 := of_decide_eq_true quiet
      cases case_ with
      | ignored positive | accepted positive | frames positive => omega
      | nothing zero s_eq =>
          refine .stays (Or.inr ⟨r, rfl⟩) (by rw [s_eq]; rfl) ?_
          rw [s_eq]
          exact silent_drop _
      | failed negative s_eq =>
          obtain ⟨ends, -, hsilent⟩ := failure_calls r.nread e.client.uvTcp.isClosing
          have hclosing : e.client.prepared.uvTcp.close.isClosing = true := by
            rw [@UvStream.close_of_reading e.client.prepared.uvTcp reading]
            rfl
          refine .leaves (by rw [s_eq]; exact hclosing) ?_
          rw [s_eq, List.drop_left]
          exact hsilent

/-- A message of the application goes behind the others. -/
theorem say (side : ClientSide ip port uri e x y) {op : UInt8} {data : Bytes}
    (may : e.MayAct (.say op data)) (step : e.say op data = some (e', out)) :
    ClientSide ip port uri e' x (y ++ out) := by
  obtain ⟨hworking, hsendable⟩ := may
  obtain ⟨rfl, rfl⟩ := DirectClient.say_inv hsendable step
  cases side with
  | idle owned ip_eq port_eq uri_eq closed callbacks requests handshaking
  | asks owned requests handshaking =>
      rw [hworking] at handshaking
      cases handshaking
  | works owned requests working sent short ends follows told sendable =>
      rw [List.append_assoc, wireOf_concat]
      refine .works owned requests working sent short ends follows told ?_
      intro m hm
      rcases List.mem_append.mp hm with hm | hm
      · exact sendable m hm
      · rw [List.mem_singleton.mp hm]
        exact hsendable

theorem act (side : ClientSide ip port uri e x y) {a : DirectAction ClientAction} (may : e.MayAct a)
    (step : directClient.act e a = some (e', out)) : ClientSide ip port uri e' x (y ++ out) := by
  cases a with
  | libuv a =>
      simp only [directClient] at step
      split at step
      · exact side.libuv ‹_› may step
      · cases step
  | say op data => exact side.say may step

end ClientSide

/-- **The contract of the client.** -/
def directClientContract (ip : Bytes) (port : UInt16) (uri : Bytes) : Contract directClient where
  holds := ClientSide ip port uri
  relies := FromServer
  mayRead := DirectClient.MayRead
  mayAct := DirectClient.MayAct
  receive := fun side relies nonempty may step => side.receive relies nonempty may step
  act := fun side may step => side.act may step

end AnotherWs
