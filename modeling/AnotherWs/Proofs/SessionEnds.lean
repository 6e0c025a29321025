/-
Module: AnotherWs.Proofs.SessionEnds
Purpose: The endpoints of a session with their handles follow the endpoints without. What one holds
  in its handles is what its stream has not got yet, up to the time that its stream is closed.
Trusted boundary: none
Main exports: Pooled, Behind, ClientEnd.MayRead, ClientEnd.MayAct, ServerEnd.MayRead, ServerEnd.MayAct,
  clientBuffering, serverBuffering
-/
import AnotherWs.Proofs.EndToEnd
import AnotherWs.Proofs.SessionClient
import AnotherWs.Proofs.SessionPool
import AnotherWs.Proofs.SessionServer

namespace AnotherWs

open Machines

/-! ### The pool of an endpoint -/

/-- The pool of an endpoint whose stream is not being closed. The connection is valid while the
stream is open, and nothing has been stored before. -/
structure Pooled (state : HandleState) (sends : SendSystem) (held : Bytes) : Prop where
  queued : Queued sends
  positive : 0 < sends.pool.size
  held_eq : sends.held = held
  connected_iff : sends.connected sessionPeer = true ↔ state = .reading
  untouched : state = .initialised → sends.stored = []

/-- A pool goes on as that of the endpoint while its size and what `CChecker` knows stay the same. -/
theorem Pooled.next {state : HandleState} {sends sends' : SendSystem} {held held' : Bytes}
    (pooled : Pooled state sends held) (queued : Queued sends')
    (connected : sends'.connected = sends.connected)
    (size : sends'.pool.size = sends.pool.size) (held_eq : sends'.held = held')
    (untouched : state = .initialised → sends'.stored = []) : Pooled state sends' held' where
  queued := queued
  positive := by
    rw [size]
    exact pooled.positive
  held_eq := held_eq
  connected_iff := by
    rw [connected]
    exact pooled.connected_iff
  untouched := untouched

/-- The parts of a message that can be sent are not empty, and short. -/
theorem sendWebsocketMsg_pieces {op : UInt8} {data : Bytes} {split : Option (Nat → List Nat)}
    {req : Request} (sendable : Sendable (op, data)) (lawful : ∀ f ∈ split, LawfulSplit f)
    (hreq : sendWebsocketMsg sessionPeer data op split = .ok req) :
    req.parts.flatten = encoding (op, data) ∧ ∀ part ∈ req.parts, part ≠ [] ∧ part.length < 2 ^ 32 := by
  obtain ⟨-, -, hsmall⟩ := sendWebsocketMsg_spec hreq
  obtain ⟨hflatten, hparts⟩ := sendWebsocketMsg_parts (m := (op, data)) sendable hreq lawful
  have hdata := sendWebsocketMsg_data (m := (op, data)) sendable hreq
  refine ⟨hflatten, fun part hpart => ⟨hparts part hpart, ?_⟩⟩
  have hle := (List.sublist_flatten_of_mem hpart).length_le
  rw [hflatten, ← hdata] at hle
  omega

/-- The stream has still to get what the pool holds. The application has sent what was said, until
the stream is closed; what it sends then nobody gets. -/
structure Behind (peer : UvStream) (sends : SendSystem) (sent said : List (UInt8 × Bytes))
    (held : Bytes) :
    Prop where
  front : said <+: sent
  live : peer.isClosing = false → said = sent ∧ Pooled peer.state sends held

theorem UvStream.not_closing_of_reading {peer : UvStream} (reading : peer.state = .reading) :
    peer.isClosing = false := by
  rw [UvStream.isClosing, reading]

/-- A stream that is not being closed and not open has not been opened. -/
theorem UvStream.initialised_of {peer : UvStream} (live : peer.isClosing = false)
    (shut : peer.state ≠ .reading) : peer.state = .initialised := by
  unfold UvStream.isClosing at live
  cases hstate : peer.state with
  | initialised => rfl
  | reading => exact absurd hstate shut
  | closing | closed =>
      rw [hstate] at live
      cases live

namespace Behind

variable {peer peer' : UvStream} {sends sends' : SendSystem} {sent said : List (UInt8 × Bytes)}
  {held : Bytes}

theorem stays (behind : Behind peer sends sent said held) (state_eq : peer'.state = peer.state) :
    Behind peer' sends sent said held where
  front := behind.front
  live h := by
    rw [UvStream.isClosing, state_eq] at h
    rw [state_eq]
    exact behind.live h

theorem leaves (front : said <+: sent) (closing : peer'.isClosing = true) :
    Behind peer' sends' sent said held where
  front := front
  live h := by
    rw [closing] at h
    cases h

/-- While the stream is open, all that was sent was said. -/
theorem open_ (behind : Behind peer sends sent said held) (reading : peer.state = .reading) :
    said = sent ∧ Pooled .reading sends held :=
  reading ▸ behind.live (UvStream.not_closing_of_reading reading)

/-- The loop thread goes through the handles. -/
theorem asyncIo (behind : Behind peer sends sent said held) (scan : sends.asyncIo = some sends') :
    ∃ held', (if peer.state = .reading then sends'.writtenSince sends else []) ++ held' = held ∧
      Behind peer sends' sent said held' := by
  cases hclosing : peer.isClosing with
  | true =>
      refine ⟨held, ?_, leaves behind.front hclosing⟩
      rw [if_neg]
      · rfl
      · intro hreading
        rw [UvStream.not_closing_of_reading hreading] at hclosing
        cases hclosing
  | false =>
      obtain ⟨hsaid, pooled⟩ := behind.live hclosing
      obtain ⟨next, hnext, queued, hconnected, hsize, hstored, hheld, hwritten⟩ := pooled.queued.scans
      rw [scan, Option.some.injEq] at hnext
      subst hnext
      refine ⟨[], ?_, behind.front,
        fun _ => ⟨hsaid, pooled.next queued hconnected hsize hheld (hstored ▸ pooled.untouched)⟩⟩
      rw [List.append_nil]
      split
      · rw [hwritten (pooled.connected_iff.mpr ‹_›), pooled.held_eq]
      · have huntouched := pooled.untouched (UvStream.initialised_of hclosing ‹_›)
        rw [← pooled.held_eq, pooled.queued.held_of_untouched huntouched]

/-- While the stream is open, the loop thread writes all that the handles hold. -/
theorem empties (behind : Behind peer sends sent said held) (reading : peer.state = .reading) :
    ∃ sends', sends.asyncIo = some sends' ∧ sends'.writtenSince sends = sends.held ∧
      sends'.held = [] := by
  obtain ⟨-, pooled⟩ := behind.open_ reading
  obtain ⟨sends', hscan, -, -, -, -, hheld, hwritten⟩ := pooled.queued.scans
  exact ⟨sends', hscan, hwritten (pooled.connected_iff.mpr rfl), hheld⟩

/-- The application sends a message: it goes behind the others, or is refused, or the stream is no
longer open. -/
theorem send (behind : Behind peer sends sent said held) {op : UInt8} {data : Bytes}
    {split : Option (Nat → List Nat)} (sendable : Sendable (op, data))
    (lawful : ∀ f ∈ split, LawfulSplit f)
    (ascends : ∀ req, sendWebsocketMsg sessionPeer data op split = .ok req → sends.Ascends req)
    {accepted : Bool} (call : sends.sendMsgWithAsync op data split = some (sends', accepted)) :
    Behind peer sends' (if accepted then sent ++ [(op, data)] else sent) said held ∨
      peer.state = .reading ∧ Behind peer sends' (if accepted then sent ++ [(op, data)] else sent)
        (said ++ [(op, data)]) (held ++ encoding (op, data)) := by
  have hfront : said <+: if accepted then sent ++ [(op, data)] else sent := by
    split
    · exact behind.front.trans (List.prefix_append _ _)
    · exact behind.front
  cases hclosing : peer.isClosing with
  | true => exact Or.inl (leaves hfront hclosing)
  | false =>
      obtain ⟨rfl, pooled⟩ := behind.live hclosing
      rw [SendSystem.sendMsgWithAsync] at call
      cases hreq : sendWebsocketMsg sessionPeer data op split with
      | error fault =>
          rw [hreq] at call
          cases call
      | ok req =>
          rw [hreq, Option.some.injEq, Prod.mk.injEq] at call
          obtain ⟨rfl, haccepted⟩ := call
          obtain ⟨hpeer, -, -⟩ := sendWebsocketMsg_spec hreq
          obtain ⟨hflatten, hpieces⟩ := sendWebsocketMsg_pieces sendable lawful hreq
          obtain ⟨queued, hconnected, hsize, hsends⟩ :=
            pooled.queued.sends hpeer hpieces (ascends req hreq)
          cases hsends with
          | refused returned_eq stored_eq held_eq reason =>
              left
              rw [returned_eq, decide_eq_false (Nat.lt_irrefl _)] at haccepted
              subst haccepted
              exact ⟨List.prefix_refl _, fun _ => ⟨rfl, pooled.next queued hconnected hsize
                (held_eq.trans pooled.held_eq) (stored_eq ▸ pooled.untouched)⟩⟩
          | accepted connected returned held_eq =>
              right
              have hreading := pooled.connected_iff.mp connected
              rw [decide_eq_true returned] at haccepted
              subst haccepted
              refine ⟨hreading, List.prefix_refl _,
                fun _ => ⟨rfl, pooled.next queued hconnected hsize ?_ fun h => ?_⟩⟩
              · rw [held_eq, pooled.held_eq, hflatten]
              · rw [hreading] at h
                cases h

/-- While the stream is open and the handles are empty, a message is not refused. -/
theorem takes (behind : Behind peer sends sent said held) (reading : peer.state = .reading)
    (empty : sends.held = []) {op : UInt8} {data : Bytes} (sendable : Sendable (op, data)) :
    ∃ sends', sends.sendMsgWithAsync op data none = some (sends', true) ∧
      sends'.held = encoding (op, data) := by
  obtain ⟨-, pooled⟩ := behind.open_ reading
  obtain ⟨buf, hcall, hcontent⟩ := sendable_encodes sendable
  have hreq : sendWebsocketMsg sessionPeer data op none =
      .ok ⟨sessionPeer, encoding (op, data), none⟩ := by
    rw [sendWebsocketMsg, hcall, ok_bind, hcontent]
  have hshort : (encoding (op, data)).length < 2 ^ 32 :=
    Nat.lt_of_le_of_lt sendable.small (by decide)
  obtain ⟨-, -, -, hheld, hreturned⟩ := pooled.queued.accepts
    (pooled.connected_iff.mpr rfl) pooled.positive
    empty sendable.encoding_ne_nil hshort
  refine ⟨sends.sendDataWithAsync ⟨sessionPeer, encoding (op, data), none⟩, ?_, hheld⟩
  rw [SendSystem.sendMsgWithAsync, hreq]
  simp only [decide_eq_true hreturned]

/-- What is sent first, over an open stream, goes to a handle. -/
theorem sendsFirst (behind : Behind peer sends sent said held) (reading : peer.state = .reading)
    (reading' : peer'.state = .reading) (first : held = []) {bytes : Bytes} (nonempty : bytes ≠ [])
    (short : bytes.length < handshakeSize) :
    Behind peer' (sends.sendDataWithAsync ⟨sessionPeer, bytes, none⟩) sent said bytes := by
  obtain ⟨hsaid, pooled⟩ := behind.open_ reading
  obtain ⟨queued, hconnected, hsize, hheld, -⟩ := pooled.queued.accepts (pooled.connected_iff.mpr rfl)
    pooled.positive (pooled.held_eq.trans first) nonempty (Nat.lt_trans short (by decide))
  refine ⟨behind.front, fun _ => ⟨hsaid, ?_⟩⟩
  rw [reading']
  exact pooled.next queued hconnected hsize hheld fun h => by cases h

/-- The stream is opened, which the checker learns. -/
theorem opens (behind : Behind peer sends sent said held) (initialised : peer.state = .initialised)
    (reading : peer'.state = .reading) : held = [] ∧
      Behind peer' sends.registerConnection sent said held := by
  have hlive : peer.isClosing = false := by
    rw [UvStream.isClosing, initialised]
  obtain ⟨hsaid, pooled⟩ := behind.live hlive
  have huntouched := pooled.untouched initialised
  refine ⟨?_, behind.front, fun _ => ⟨hsaid, pooled.queued.registers huntouched, pooled.positive,
    pooled.held_eq, ?_, ?_⟩⟩
  · rw [← pooled.held_eq, pooled.queued.held_of_untouched huntouched]
  · rw [reading]
    refine ⟨fun _ => rfl, fun _ => ?_⟩
    show Function.update sends.connected sessionPeer true sessionPeer = true
    rw [Function.update_self]
  · rw [reading]
    exact fun h => by cases h

/-- Where an open endpoint has emptied its handles, the one without handles has said and written the
same. -/
theorem settled (behind : Behind peer sends sent said held) (reading : peer.state = .reading)
    (empty : sends.pool.contents = []) : said = sent ∧ held = [] := by
  obtain ⟨hsaid, pooled⟩ := behind.open_ reading
  refine ⟨hsaid, ?_⟩
  rw [← pooled.held_eq, pooled.queued.held_eq_nil_iff]
  exact empty

end Behind

/-- Calls that send nothing leave the pool alone. -/
theorem Silent.perform {calls : List Call} (silent : Silent calls) (sends : SendSystem) :
    calls.foldl Call.perform sends = sends := by
  induction calls with
  | nil => rfl
  | cons call rest ih =>
      have hrest : Silent rest := fun bytes h => silent bytes (List.mem_cons_of_mem _ h)
      rw [List.foldl_cons]
      cases call with
      | sendDataWithAsync bytes => exact absurd List.mem_cons_self (silent bytes)
      | onConnect | onData payload flag | onError errcode | onClose | uvClose => exact ih hrest

/-! ### The client -/

/-- A read during the handshake takes exactly the head that the peer has sent, and the buffer that
malloc has given holds a zero somewhere behind it. -/
def ClientEnd.MayRead (e : ClientEnd) (behind chunk : Bytes) : Prop :=
  e.client.status = .handshaking → EndsHead chunk ∧ 0 ∈ behind

/-- A client draws sixteen random bytes. The application sends once it has been told of the
connection, and what it sends is a message, whole or in parts that are not empty; the handles for it
come after those that are still filled. -/
def ClientEnd.MayAct (e : ClientEnd) : EndAction ClientAction → Prop
  | .libuv (.connected random) => random.length = 16
  | .libuv _ | .asyncIo => True
  | .send op data split => e.client.status = .working ∧ Sendable (op, data) ∧
      (∀ f ∈ split, LawfulSplit f) ∧
      ∀ req, sendWebsocketMsg sessionPeer data op split = .ok req → e.sends.Ascends req

/-- A client with its handles, next to one without. -/
structure ClientEnd.Follows (e : ClientEnd) (d : DirectClient) (held : Bytes) : Prop where
  client_eq : d.client = e.client
  behind : Behind e.client.uvTcp e.sends e.said d.said held

/-- What a callback of libuv does. -/
theorem ClientEnd.libuv_inv {e e' : ClientEnd} {a : ClientAction} (step : e.libuv a = some e') :
    clientMachine.step e.client a = some e'.client ∧ e'.said = e.said ∧
      e'.sends = (e'.client.calls.drop e.client.calls.length).foldl Call.perform (e.check a) := by
  obtain ⟨client, hstep, rfl⟩ := Option.map_eq_some_iff.mp step
  exact ⟨hstep, rfl, rfl⟩

/-- A callback that the client can make, it makes with its handles too. -/
theorem ClientEnd.act_of_step {e : ClientEnd} {a : ClientAction} {client : CWSClient}
    (quiet : a.quiet = true) (step : clientMachine.step e.client a = some client) :
    ∃ e', clientParty.act e (.libuv a) = some (e', []) ∧ e'.client = client ∧ e'.said = e.said := by
  simp only [clientParty, if_pos quiet, ClientEnd.libuv, step, Option.map_some]
  exact ⟨_, rfl, rfl, rfl⟩

section Client

variable {ip : Bytes} {port : UInt16} {uri : Bytes} {e e' : ClientEnd} {d : DirectClient}
  {held x y out : Bytes}

/-- **The client reads** as it would without handles, and sends nothing. -/
theorem ClientEnd.Follows.receive (follows : e.Follows d held)
    (side : ClientSide ip port uri d x (y ++ held))
    {behind chunk rest : Bytes} (relies : FromServer (x ++ chunk ++ rest)) (nonempty : chunk ≠ [])
    (may : e.MayRead behind chunk) (step : clientParty.receive e behind chunk = some (e', out)) :
    ∃ d', d.MayRead behind chunk ∧ directClient.receive d behind chunk = some (d', []) ∧
      e'.Follows d' held ∧ out = [] ∧ e'.said = e.said ∧ e'.client.uvTcp.state = .reading := by
  simp only [clientParty] at step
  split at step
  · rename_i fills
    obtain ⟨next, hlibuv, hout⟩ := Option.map_eq_some_iff.mp step
    cases hout
    obtain ⟨hstep, hsaid, hsends⟩ := ClientEnd.libuv_inv hlibuv
    have hmay : d.MayRead behind chunk := by
      rw [DirectClient.MayRead, follows.client_eq]
      exact may
    rw [← follows.client_eq] at hstep
    have hcase : CWSClient.StepCase d.client e'.client (.read (readArguments chunk behind)) :=
      CWSClient.step_cases side.owned hstep
    cases hcase with
    | read r reading case_ =>
        obtain ⟨d', hreceive, hsaid', hreading, hsilent, -⟩ :=
          side.reads reading relies nonempty fills hmay
        have hdirect := hreceive
        simp only [directClient, if_pos fills] at hdirect
        obtain ⟨hstep', -, -⟩ := DirectClient.libuv_inv hdirect
        have hclient : d'.client = e'.client := Option.some.inj (hstep'.symm.trans hstep)
        rw [hclient, follows.client_eq] at hsilent
        rw [hclient] at hreading
        rw [follows.client_eq] at reading
        have hkeep : e'.sends = e.sends := hsends.trans (hsilent.perform _)
        refine ⟨d', hmay, hreceive, ⟨hclient, ?_⟩, rfl, hsaid, hreading⟩
        rw [hkeep, hsaid, hsaid']
        exact follows.behind.stays (hreading.trans reading.symm)
  · cases step

/-- A client with an open stream can read. -/
theorem ClientEnd.Follows.reads (follows : e.Follows d held)
    (side : ClientSide ip port uri d x (y ++ held))
    (reading : e.client.uvTcp.state = .reading) {behind chunk rest : Bytes}
    (relies : FromServer (x ++ chunk ++ rest)) (nonempty : chunk ≠ [])
    (fills : chunk.length + behind.length = suggestedSize) (may : e.MayRead behind chunk) :
    ∃ e', clientParty.receive e behind chunk = some (e', []) ∧ e'.said = e.said ∧
      e'.client.uvTcp.state = .reading ∧ e'.sends.held = e.sends.held := by
  have hmay : d.MayRead behind chunk := by
    rw [DirectClient.MayRead, follows.client_eq]
    exact may
  obtain ⟨d', hdirect, -⟩ :=
    side.reads (by rw [follows.client_eq]; exact reading) relies nonempty fills hmay
  simp only [directClient, if_pos fills] at hdirect
  obtain ⟨hstep, -, -⟩ := DirectClient.libuv_inv hdirect
  rw [follows.client_eq] at hstep
  have hreceive : ∃ e', clientParty.receive e behind chunk = some (e', []) := by
    simp only [clientParty, if_pos fills, ClientEnd.libuv, hstep, Option.map_some]
    exact ⟨_, rfl⟩
  obtain ⟨e', hreceive⟩ := hreceive
  obtain ⟨d'', -, -, hfollows, -, hsaid, hreading⟩ := follows.receive side relies nonempty may hreceive
  refine ⟨e', hreceive, hsaid, hreading, ?_⟩
  rw [(hfollows.behind.open_ hreading).2.held_eq, (follows.behind.open_ reading).2.held_eq]

/-- **A callback of libuv** is one of the client without handles. What it sends is in the handles
then. -/
theorem ClientEnd.Follows.libuv (follows : e.Follows d held)
    (side : ClientSide ip port uri d x (y ++ held)) {a : ClientAction} (quiet : a.quiet = true)
    (may : e.MayAct (.libuv a)) (step : e.libuv a = some e') :
    ∃ d' made, (∃ a', d.MayAct a' ∧ directClient.act d a' = some (d', made)) ∧
      e'.Follows d' (held ++ made) := by
  obtain ⟨hstep, hsaid, hsends⟩ := ClientEnd.libuv_inv step
  rw [← follows.client_eq] at hstep hsends
  have hdirect : directClient.act d (.libuv a) =
      some (⟨e'.client, d.said⟩, sentBytes (e'.client.calls.drop d.client.calls.length)) := by
    simp only [directClient, if_pos quiet, DirectClient.libuv, hstep, Option.map_some]
  have hmay : d.MayAct (.libuv a) := by
    cases a with
    | connected random => exact may
    | connectFailed | tick | read r | closeCallback => trivial
  refine ⟨_, _, ⟨.libuv a, hmay, hdirect⟩, rfl, ?_⟩
  rw [hsaid]
  cases side.quiet quiet hstep with
  | stays unchecked state_eq silent =>
      have hcheck : e.check a = e.sends := by
        rcases unchecked with rfl | ⟨r, rfl⟩ <;> rfl
      rw [hsends, silent.perform, hcheck, silent.sentBytes, List.append_nil]
      rw [follows.client_eq] at state_eq
      exact follows.behind.stays state_eq
  | leaves closing silent => exact .leaves follows.behind.front closing
  | @opens random request first initialised reading nonempty short made_eq =>
      rw [follows.client_eq] at initialised
      obtain ⟨hheld, hopens⟩ := follows.behind.opens initialised reading
      have howned : e.client.uvTcp.loopData = true := by
        rw [← follows.client_eq]
        exact side.owned
      have hcheck : e.check (.connected random) = e.sends.registerConnection := if_pos howned
      rw [made_eq, hcheck] at hsends
      have hmade : held ++ sentBytes [.sendDataWithAsync request] = request := by
        rw [hheld]
        simp [sentBytes, Call.sent]
      rw [hsends, made_eq, hmade]
      exact hopens.sendsFirst reading reading hheld nonempty short

/-- **What the client does by itself** it would do without handles, or it goes through them. -/
theorem ClientEnd.Follows.act (follows : e.Follows d held)
    (side : ClientSide ip port uri d x (y ++ held))
    {a : EndAction ClientAction} (may : e.MayAct a) (step : clientParty.act e a = some (e', out)) :
    ∃ d' made held', (d' = d ∧ made = [] ∨
        ∃ a', d.MayAct a' ∧ directClient.act d a' = some (d', made)) ∧
      e'.Follows d' held' ∧ out ++ held' = held ++ made := by
  cases a with
  | libuv a =>
      simp only [clientParty] at step
      split at step
      · rename_i hquiet
        obtain ⟨next, hlibuv, hout⟩ := Option.map_eq_some_iff.mp step
        cases hout
        obtain ⟨d', made, hdirect, hfollows⟩ := follows.libuv side hquiet may hlibuv
        exact ⟨d', made, held ++ made, Or.inr hdirect, hfollows, rfl⟩
      · cases step
  | send op data split =>
      obtain ⟨next, hsend, hout⟩ := Option.map_eq_some_iff.mp step
      cases hout
      obtain ⟨⟨sends, sent⟩, hcall, rfl⟩ := Option.map_eq_some_iff.mp hsend
      obtain ⟨hworking, sendable, lawful, ascends⟩ := may
      rcases follows.behind.send sendable lawful ascends hcall with hbehind | ⟨hreading, hbehind⟩
      · exact ⟨d, [], held, Or.inl ⟨rfl, rfl⟩, ⟨follows.client_eq, hbehind⟩,
          by rw [List.append_nil]; rfl⟩
      · refine ⟨⟨d.client, d.said ++ [(op, data)]⟩, encoding (op, data), held ++ encoding (op, data),
          Or.inr ⟨.say op data, ⟨?_, sendable⟩, ?_⟩, ⟨follows.client_eq, hbehind⟩, rfl⟩
        · rw [follows.client_eq]
          exact hworking
        · simp only [directClient, DirectClient.say]
          rw [if_pos (by rw [follows.client_eq]; exact hreading), messageBytes_eq sendable]
          rfl
  | asyncIo =>
      obtain ⟨sends, hscan, hout⟩ := Option.map_eq_some_iff.mp step
      cases hout
      obtain ⟨held', hheld, hbehind⟩ := follows.behind.asyncIo hscan
      exact ⟨d, [], held', Or.inl ⟨rfl, rfl⟩, ⟨follows.client_eq, hbehind⟩,
        by rw [List.append_nil]; exact hheld⟩

end Client

/-- **The client follows** the client without handles. -/
def clientBuffering (ip : Bytes) (port : UInt16) (uri : Bytes) :
    Buffering (directClientContract ip port uri) clientParty where
  rel := ClientEnd.Follows
  mayRead := ClientEnd.MayRead
  mayAct := ClientEnd.MayAct
  receive := fun follows side relies nonempty may step => by
    obtain ⟨d', hmay, hreceive, hfollows, rfl, -⟩ := follows.receive side relies nonempty may step
    exact ⟨d', [], _, hmay, hreceive, hfollows, by rw [List.append_nil]; rfl⟩
  act := fun follows side may step => follows.act side may step

/-- The contract of the client. -/
abbrev clientContract (ip : Bytes) (port : UInt16) (uri : Bytes) : Contract clientParty :=
  (clientBuffering ip port uri).contract

/-! ### The server -/

/-- A read during the handshake takes exactly the head that the peer has sent. -/
def ServerEnd.MayRead (e : ServerEnd) (_ : Unit) (chunk : Bytes) : Prop :=
  .onConnect ∉ e.connection.calls → EndsHead chunk

/-- The application sends once it has been told of the connection, and what it sends is a message,
whole or in parts that are not empty; the handles for it come after those that are still filled. -/
def ServerEnd.MayAct (e : ServerEnd) : EndAction ServerAction → Prop
  | .libuv _ | .asyncIo => True
  | .send op data split => .onConnect ∈ e.connection.calls ∧ Sendable (op, data) ∧
      (∀ f ∈ split, LawfulSplit f) ∧
      ∀ req, sendWebsocketMsg sessionPeer data op split = .ok req → e.sends.Ascends req

/-- The connection of a server with its handles, next to one without. -/
structure ServerEnd.Follows (e : ServerEnd) (d : DirectServer) (held : Bytes) : Prop where
  connection_eq : d.connection = e.connection
  behind : Behind e.connection.peer e.sends e.said d.said held

/-- What a callback of libuv does. -/
theorem ServerEnd.libuv_inv {e e' : ServerEnd} {a : ServerAction} (step : e.libuv a = some e') :
    serverMachine.step e.connection a = some e'.connection ∧ e'.said = e.said ∧
      e'.sends = (e'.connection.calls.drop e.connection.calls.length).foldl Call.perform
        (e.check a) := by
  obtain ⟨connection, hstep, rfl⟩ := Option.map_eq_some_iff.mp step
  exact ⟨hstep, rfl, rfl⟩

section Server

variable {ip : Bytes} {port : UInt16} {uri : Bytes} {e e' : ServerEnd} {d : DirectServer}
  {held x y out : Bytes}

/-- **The server reads** as it would without handles. What it would send is in its handles then. -/
theorem ServerEnd.Follows.receive (hip : PlainText ip) (huri : PlainText uri)
    (fits : RequestFits ip port uri)
    (follows : e.Follows d held) (side : ServerSide d x (y ++ held)) {chunk rest : Bytes}
    (relies : FromClient ip port uri (x ++ chunk ++ rest)) (nonempty : chunk ≠ [])
    (may : e.MayRead () chunk) (step : serverParty.receive e () chunk = some (e', out)) :
    ∃ d' made, d.MayRead () chunk ∧ directServer.receive d () chunk = some (d', made) ∧
      e'.Follows d' (held ++ made) ∧ out = [] ∧ e'.said = e.said ∧ e'.connection.peer.state = .reading ∧
      .onConnect ∈ e'.connection.calls ∧
      (made = [] ∨ .onConnect ∉ e.connection.calls ∧ made.length < handshakeSize) := by
  simp only [serverParty] at step
  split at step
  · rename_i small
    obtain ⟨next, hlibuv, hout⟩ := Option.map_eq_some_iff.mp step
    cases hout
    obtain ⟨hstep, hsaid, hsends⟩ := ServerEnd.libuv_inv hlibuv
    have hmay : d.MayRead () chunk := by
      rw [DirectServer.MayRead, follows.connection_eq]
      exact may
    have hreading := (ServerConnection.step_read hstep).1
    obtain ⟨d', made, hreceive, hsaid', hreading', hconnected, hanswers, -⟩ :=
      side.reads hip huri fits (by rw [follows.connection_eq]; exact hreading) relies nonempty small
        hmay
    have hdirect := hreceive
    simp only [directServer, if_pos small] at hdirect
    obtain ⟨hstep', -, -⟩ := DirectServer.libuv_inv hdirect
    rw [follows.connection_eq] at hstep' hanswers
    have hconnection : d'.connection = e'.connection := Option.some.inj (hstep'.symm.trans hstep)
    rw [hconnection] at hanswers hreading' hconnected
    refine ⟨d', made, hmay, hreceive, ⟨hconnection, ?_⟩, rfl, hsaid, hreading', hconnected, ?_⟩
    · rw [hsaid, hsaid', hsends]
      cases hanswers with
      | nothing silent out_eq =>
          rw [silent.perform, out_eq, List.append_nil]
          exact follows.behind.stays (hreading'.trans hreading.symm)
      | response waiting first nonempty short made_eq =>
          have hheld := (List.append_eq_nil_iff.mp first).2
          rw [made_eq, hheld, List.nil_append]
          exact follows.behind.sendsFirst hreading hreading' hheld nonempty short
    · cases hanswers with
      | nothing silent out_eq => exact Or.inl out_eq
      | response waiting first nonempty short made_eq =>
          rw [follows.connection_eq] at waiting
          exact Or.inr ⟨waiting, short⟩
  · cases step

/-- A connection of the server with an open stream can read. -/
theorem ServerEnd.Follows.reads (hip : PlainText ip) (huri : PlainText uri)
    (fits : RequestFits ip port uri)
    (follows : e.Follows d held) (side : ServerSide d x (y ++ held))
    (reading : e.connection.peer.state = .reading) {chunk rest : Bytes}
    (relies : FromClient ip port uri (x ++ chunk ++ rest)) (nonempty : chunk ≠ [])
    (small : chunk.length ≤ suggestedSize) (may : e.MayRead () chunk) :
    ∃ e' made, serverParty.receive e () chunk = some (e', []) ∧ e'.said = e.said ∧
      e'.connection.peer.state = .reading ∧ .onConnect ∈ e'.connection.calls ∧
      e'.sends.held = e.sends.held ++ made ∧
      (made = [] ∨ .onConnect ∉ e.connection.calls ∧ made.length < handshakeSize) := by
  have hmay : d.MayRead () chunk := by
    rw [DirectServer.MayRead, follows.connection_eq]
    exact may
  obtain ⟨d', out, hdirect, -⟩ :=
    side.reads hip huri fits (by rw [follows.connection_eq]; exact reading) relies nonempty small hmay
  simp only [directServer, if_pos small] at hdirect
  obtain ⟨hstep, -, -⟩ := DirectServer.libuv_inv hdirect
  rw [follows.connection_eq] at hstep
  have hreceive : ∃ e', serverParty.receive e () chunk = some (e', []) := by
    simp only [serverParty, if_pos small, ServerEnd.libuv, hstep, Option.map_some]
    exact ⟨_, rfl⟩
  obtain ⟨e', hreceive⟩ := hreceive
  obtain ⟨d'', made, -, -, hfollows, -, hsaid, hreading, hconnected, hmade⟩ :=
    follows.receive hip huri fits side relies nonempty may hreceive
  refine ⟨e', made, hreceive, hsaid, hreading, hconnected, ?_, hmade⟩
  rw [(hfollows.behind.open_ hreading).2.held_eq, (follows.behind.open_ reading).2.held_eq]

/-- **A callback of libuv** is one of the connection without handles, and sends nothing. -/
theorem ServerEnd.Follows.libuv (follows : e.Follows d held) (side : ServerSide d x (y ++ held))
    {a : ServerAction} (quiet : a.quiet = true) (step : e.libuv a = some e') :
    ∃ d', (∃ a', d.MayAct a' ∧ directServer.act d a' = some (d', [])) ∧ e'.Follows d' held := by
  obtain ⟨hstep, hsaid, hsends⟩ := ServerEnd.libuv_inv step
  rw [← follows.connection_eq] at hstep hsends
  obtain ⟨hsilent, hstream⟩ := side.quiet quiet hstep
  have hdirect : directServer.act d (.libuv a) = some (⟨e'.connection, d.said⟩, []) := by
    simp only [directServer, if_pos quiet, DirectServer.libuv, hstep, Option.map_some]
    rw [hsilent.sentBytes]
  refine ⟨_, ⟨.libuv a, trivial, hdirect⟩, rfl, ?_⟩
  rw [hsaid]
  rcases hstream with hclosing | ⟨⟨r, rfl⟩, hstate⟩
  · exact .leaves follows.behind.front hclosing
  · rw [hsends, hsilent.perform]
    rw [follows.connection_eq] at hstate
    exact follows.behind.stays hstate

/-- **What the server does by itself** it would do without handles, or it goes through them. -/
theorem ServerEnd.Follows.act (follows : e.Follows d held) (side : ServerSide d x (y ++ held))
    {a : EndAction ServerAction} (may : e.MayAct a) (step : serverParty.act e a = some (e', out)) :
    ∃ d' made held', (d' = d ∧ made = [] ∨
        ∃ a', d.MayAct a' ∧ directServer.act d a' = some (d', made)) ∧
      e'.Follows d' held' ∧ out ++ held' = held ++ made := by
  cases a with
  | libuv a =>
      simp only [serverParty] at step
      split at step
      · rename_i hquiet
        obtain ⟨next, hlibuv, hout⟩ := Option.map_eq_some_iff.mp step
        cases hout
        obtain ⟨d', hdirect, hfollows⟩ := follows.libuv side hquiet hlibuv
        exact ⟨d', [], held, Or.inr hdirect, hfollows, (List.append_nil held).symm⟩
      · cases step
  | send op data split =>
      obtain ⟨next, hsend, hout⟩ := Option.map_eq_some_iff.mp step
      cases hout
      obtain ⟨⟨sends, sent⟩, hcall, rfl⟩ := Option.map_eq_some_iff.mp hsend
      obtain ⟨hconnected, sendable, lawful, ascends⟩ := may
      rcases follows.behind.send sendable lawful ascends hcall with hbehind | ⟨hreading, hbehind⟩
      · exact ⟨d, [], held, Or.inl ⟨rfl, rfl⟩, ⟨follows.connection_eq, hbehind⟩,
          by rw [List.append_nil]; rfl⟩
      · refine ⟨⟨d.connection, d.said ++ [(op, data)]⟩, encoding (op, data),
          held ++ encoding (op, data),
          Or.inr ⟨.say op data, ⟨?_, sendable⟩, ?_⟩, ⟨follows.connection_eq, hbehind⟩, rfl⟩
        · rw [follows.connection_eq]
          exact hconnected
        · simp only [directServer, DirectServer.say]
          rw [if_pos (by rw [follows.connection_eq]; exact hreading), messageBytes_eq sendable]
          rfl
  | asyncIo =>
      obtain ⟨sends, hscan, hout⟩ := Option.map_eq_some_iff.mp step
      cases hout
      obtain ⟨held', hheld, hbehind⟩ := follows.behind.asyncIo hscan
      exact ⟨d, [], held', Or.inl ⟨rfl, rfl⟩, ⟨follows.connection_eq, hbehind⟩,
        by rw [List.append_nil]; exact hheld⟩

end Server

section Requests

variable {ip : Bytes} {port : UInt16} {uri : Bytes} (hip : PlainText ip) (huri : PlainText uri)
  (fits : RequestFits ip port uri)

/-- **The connection of the server follows** the one without handles. -/
def serverBuffering : Buffering (directServerContract hip huri fits) serverParty where
  rel := ServerEnd.Follows
  mayRead := ServerEnd.MayRead
  mayAct := ServerEnd.MayAct
  receive := fun follows side relies nonempty may step => by
    obtain ⟨d', made, hmay, hreceive, hfollows, rfl, -⟩ :=
      follows.receive hip huri fits side relies nonempty may step
    exact ⟨d', made, _, hmay, hreceive, hfollows, rfl⟩
  act := fun follows side may step => follows.act side may step

/-- The contract of the server. -/
abbrev serverContract : Contract serverParty := (serverBuffering hip huri fits).contract

end Requests

end AnotherWs
