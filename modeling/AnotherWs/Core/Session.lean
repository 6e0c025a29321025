/-
Module: AnotherWs.Core.Session
Purpose: A client of CWSClient.cpp and the connection of CWSServer.cpp that it has opened, with the
  bytes on the way between them. Either side reads what the other has written, in chunks of any
  size, hears of errors of its stream, and sends messages through the handles of its CAsyncs, which
  its loop thread empties.
Trusted boundary: TCP delivers the bytes in order, or not at all; libuv reads no more than one
  buffer at a time, and writes nothing to a stream that is being closed. The server has its buffers
  from calloc, so they are zero behind the bytes that were read, the client from malloc, which
  leaves anything there. An application sends from the loop thread of its endpoint, between two
  callbacks, so a send call runs to its end before anything else happens there. The server has no
  other connection, and the client no heartbeat. A tick of the reconnect timer opens another
  connection, and ends this one.
Main exports: readArguments, zeroedArguments, SendSystem.sendDataWithAsync, SendSystem.sendMsgWithAsync,
  SendSystem.asyncIo, ClientEnd, ServerEnd, clientParty, serverParty, Session, sessionMachine
-/
import AnotherWs.Core.Asyncs
import AnotherWs.Core.Client
import AnotherWs.Core.Server
import AnotherWs.Lib.Link

namespace AnotherWs

open Machines

/-! ### Reads -/

/-- The size that libuv suggests for a buffer to read into. -/
def suggestedSize : Nat := 65536

theorem readArguments_le (data behind : Bytes) : (data.length : Int) ≤ (data ++ behind).length := by
  rw [List.length_append]
  omega

/-- The arguments of the read callback for bytes that were read into a buffer with other bytes
behind them. -/
def readArguments (data behind : Bytes) : UvRead where
  nread := data.length
  base := data ++ behind
  nread_le := readArguments_le data behind

/-- The arguments for a buffer of zeros, which `on_uv_alloc` of CWSServer.cpp gives. -/
def zeroedArguments (data : Bytes) : UvRead :=
  readArguments data (List.replicate (suggestedSize - data.length) 0)

/-! ### Sends of the loop thread -/

/-- The thread that runs the callbacks. -/
def loopThread : Nat := 0

/-- The connection of the session, for the pool of either side. -/
def sessionPeer : Nat := 0

namespace SendSystem

/-- A send call that has its handles goes on, up to its end. -/
def resume (thread : Nat) : Nat → SendSystem → SendSystem
  | 0, s => s
  | fuel + 1, s =>
      match s.senders thread with
      | none => s
      | some c => resume thread fuel (if c.filled then s.notify thread c else s.fill thread c)

variable (s : SendSystem)

/-- `sendDataWithAsync` on the loop thread. A handle takes two steps. -/
def sendDataWithAsync (req : Request) : SendSystem :=
  (s.call loopThread req).resume loopThread (2 * s.pool.size)

/-- `sendMsgWithAsync` on the loop thread, and what it returns. -/
def sendMsgWithAsync (op : UInt8) (data : Bytes) (split : Option (Nat → List Nat)) :
    Option (SendSystem × Bool) :=
  match sendWebsocketMsg sessionPeer data op split with
  | .ok req =>
      let s' := s.sendDataWithAsync req
      some (s', s.returned.length < s'.returned.length)
  | .error _ => none

/-- `uv__async_io`: the loop thread visits the handles in the order of initialisation. -/
def asyncIo : Option SendSystem := sendMachine.exec s ((List.range s.pool.size).map .visit)

/-- `registerConnection` -/
def registerConnection : SendSystem :=
  { s with connected := Function.update s.connected sessionPeer true }

/-- `unregisterConnection` -/
def unregisterConnection : SendSystem :=
  { s with connected := Function.update s.connected sessionPeer false }

/-- What has been written to the connection since an earlier state. -/
def writtenSince (before : SendSystem) : Bytes :=
  (s.wire sessionPeer).drop (before.wire sessionPeer).length

end SendSystem

/-- What a call out of a callback does to the pool. Nobody looks at the result of a send. -/
def Call.perform (s : SendSystem) : Call → SendSystem
  | .sendDataWithAsync bytes => s.sendDataWithAsync ⟨sessionPeer, bytes, none⟩
  | .onConnect | .onData _ _ | .onError _ | .onClose | .uvClose => s

/-- What an endpoint does by itself: libuv calls it back without bytes, the application sends, or
the loop thread goes through the handles. -/
inductive EndAction (α : Type) where
  | libuv (a : α)
  | send (op : UInt8) (data : Bytes) (split : Option (Nat → List Nat))
  | asyncIo

/-! ### The client -/

/-- The client, its pool, and the messages that its application has sent, those for which it was
told `true`. -/
structure ClientEnd where
  client : CWSClient
  sends : SendSystem
  said : List (UInt8 × Bytes)

/-- A callback that brings no bytes and stays with this connection. -/
def ClientAction.quiet : ClientAction → Bool
  | .read r => r.nread ≤ 0
  | .tick => false
  | .connected _ | .connectFailed | .closeCallback => true

namespace ClientEnd

/-- What a callback tells `CChecker`: `onConnectInternal` before it sends, `after_uv_close_client`
if there is a handle on the stream. -/
def check (e : ClientEnd) : ClientAction → SendSystem
  | .connected _ => if e.client.uvTcp.loopData then e.sends.registerConnection else e.sends
  | .closeCallback => if e.client.uvTcp.data.isSome then e.sends.unregisterConnection else e.sends
  | .connectFailed | .tick | .read _ => e.sends

/-- A callback of libuv. -/
def libuv (e : ClientEnd) (a : ClientAction) : Option ClientEnd :=
  (clientMachine.step e.client a).map fun client =>
    { e with
      client := client
      sends := (client.calls.drop e.client.calls.length).foldl Call.perform (e.check a) }

/-- `sendMsgWithAsync` of CWSClient.cpp -/
def sendMsgWithAsync (e : ClientEnd) (op : UInt8) (data : Bytes) (split : Option (Nat → List Nat)) :
    Option ClientEnd :=
  (e.sends.sendMsgWithAsync op data split).map fun (sends, sent) =>
    { e with sends := sends, said := if sent then e.said ++ [(op, data)] else e.said }

/-- The loop thread empties the handles, and what it finds goes to the stream while that is open. -/
def asyncIo (e : ClientEnd) : Option (ClientEnd × Bytes) :=
  e.sends.asyncIo.map fun sends =>
    ({ e with sends := sends },
      if e.client.uvTcp.state = .reading then sends.writtenSince e.sends else [])

end ClientEnd

/-- The client as a party. A read comes with what `alloc_cb` of CWSClient.cpp has left behind its
bytes. -/
def clientParty : Party ClientEnd Bytes (EndAction ClientAction) UInt8 where
  receive := fun e behind data =>
    if data.length + behind.length = suggestedSize then
      (e.libuv (.read (readArguments data behind))).map fun e => (e, [])
    else none
  act := fun e a =>
    match a with
    | .libuv a => if a.quiet then (e.libuv a).map fun e => (e, []) else none
    | .send op data split => (e.sendMsgWithAsync op data split).map fun e => (e, [])
    | .asyncIo => e.asyncIo

/-! ### The server -/

/-- The connection of the server, the pool, and the messages that its application has sent over it,
those for which it was told `true`. -/
structure ServerEnd where
  connection : ServerConnection
  sends : SendSystem
  said : List (UInt8 × Bytes)

/-- A callback that brings no bytes. -/
def ServerAction.quiet : ServerAction → Bool
  | .read r => r.nread ≤ 0
  | .closeCallback => true

namespace ServerEnd

/-- What a callback tells `CChecker`: `after_uv_close_client` if there is a handle on the stream. -/
def check (e : ServerEnd) : ServerAction → SendSystem
  | .closeCallback => if e.connection.peer.data.isSome then e.sends.unregisterConnection else e.sends
  | .read _ => e.sends

/-- A callback of libuv. -/
def libuv (e : ServerEnd) (a : ServerAction) : Option ServerEnd :=
  (serverMachine.step e.connection a).map fun connection =>
    { e with
      connection := connection
      sends := (connection.calls.drop e.connection.calls.length).foldl Call.perform (e.check a) }

/-- `sendMsgWithAsync` of CWSServer.cpp -/
def sendMsgWithAsync (e : ServerEnd) (op : UInt8) (data : Bytes) (split : Option (Nat → List Nat)) :
    Option ServerEnd :=
  (e.sends.sendMsgWithAsync op data split).map fun (sends, sent) =>
    { e with sends := sends, said := if sent then e.said ++ [(op, data)] else e.said }

/-- The loop thread empties the handles, and what it finds goes to the stream while that is open. -/
def asyncIo (e : ServerEnd) : Option (ServerEnd × Bytes) :=
  e.sends.asyncIo.map fun sends =>
    ({ e with sends := sends },
      if e.connection.peer.state = .reading then sends.writtenSince e.sends else [])

end ServerEnd

/-- The connection of the server as a party. -/
def serverParty : Party ServerEnd Unit (EndAction ServerAction) UInt8 where
  receive := fun e _ data =>
    if data.length ≤ suggestedSize then
      (e.libuv (.read (zeroedArguments data))).map fun e => (e, [])
    else none
  act := fun e a =>
    match a with
    | .libuv a => if a.quiet then (e.libuv a).map fun e => (e, []) else none
    | .send op data split => (e.sendMsgWithAsync op data split).map fun e => (e, [])
    | .asyncIo => e.asyncIo

/-! ### Both -/

/-- The client on the left, its connection at the server on the right. -/
abbrev Session := Link ClientEnd ServerEnd UInt8

/-- Actions of a session. -/
abbrev SessionAction := LinkAction Bytes (EndAction ClientAction) Unit (EndAction ServerAction)

/-- The two endpoints and the connection between them as a machine. -/
def sessionMachine : Machine Session SessionAction := linkMachine clientParty serverParty

/-- A client that has started up, and the connection as the server accepts it, which registers it.
Either side has its number of handles. -/
def Session.init (ip : Bytes) (port : UInt16) (uri : Bytes) (enableReconnect : Bool)
    (clientSize serverSize : Nat) : Session where
  left := ⟨(CWSClient.constructed ip port uri enableReconnect).startup,
    .init clientSize fun _ => false, []⟩
  right := ⟨.accepted, .init serverSize fun _ => true, []⟩
  toRight := .empty
  toLeft := .empty

end AnotherWs
