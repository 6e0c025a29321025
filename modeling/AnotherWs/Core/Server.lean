/-
Module: AnotherWs.Core.Server
Purpose: One connection of the server: on_read of CWSServer.cpp, and the connection as a machine of read
  callbacks and the close callback.
Trusted boundary: libuv delivers no read after uv_close, and runs the close callback once for each
  uv_close; a callback that does not come back ends the run. So does a handshake read that fills its
  buffer without a zero byte: the string functions would run on behind the buffer, and where they
  stop inside it is parseHttpHeadsScan of AnotherWs.Core.HeadScan.
Main exports: CWSServer.onRead, ServerConnection, ServerAction, serverMachine
-/
import AnotherWs.Core.Peer
import AnotherWs.Lib.Machine

namespace AnotherWs

namespace CWSServer

/-- `on_close` of CWSServer.cpp -/
def onClose : UvStream → Except Fault (List Call) := AnotherWs.onClose

/-- The field that `on_read` looks for in a handshake request. -/
def keyField : Bytes := ascii "Sec-WebSocket-Key:"

/-- `on_read` of CWSServer.cpp -/
def onRead (peer : UvStream) (r : UvRead) : Except Fault (UvStream × List Call) := do
  let hd := initBuffers (peer.data.getD (callocHandle .server))
  let peer := { peer with data := some hd }
  if ¬ peer.loopData then .ok (peer, [])
  else if 0 < r.nread then
    if hd.protoBuf.flag &&& flagWebsocket ≠ 0 then do
      let trace ← CWSServer.onReadWebsocket hd r.data
      makeCalls onClose { peer with data := some trace.handle } trace.events
    else do
      let key ← parseHttpHeads r.base keyField
      match key with
      | some key => do
          let hd := { hd with protoBuf := hd.protoBuf.setFlag flagWebsocket }
          let response ← generateWebsocketServerHandshake key
          .ok ({ peer with data := some hd }, [.sendDataWithAsync response, .onConnect])
      | none => twCloseClient onClose peer
  else if r.nread = 0 then .ok (peer, [])
  else do
    let errors := if r.nread ≠ uvEof then [Call.onError r.nread] else []
    let (peer, calls) ← twCloseClient onClose peer
    .ok (peer, errors ++ calls)

/-- What `on_connection` leaves of an accepted connection. It reads the owner of the loop, which the
constructor has set. -/
def accepted : UvStream := ⟨.reading, 0, none, true⟩

end CWSServer

/-- A connection of the server, and the calls made for it so far. -/
structure ServerConnection where
  peer : UvStream
  calls : List Call

/-- What libuv does with a connection. -/
inductive ServerAction where
  | read (r : UvRead)
  | closeCallback

namespace ServerConnection

/-- A connection that has just been accepted. -/
def accepted : ServerConnection := ⟨CWSServer.accepted, []⟩

/-- One step. -/
def step (s : ServerConnection) : ServerAction → Option ServerConnection
  | .read r =>
      if s.peer.state = .reading then
        match CWSServer.onRead s.peer r with
        | .ok (peer, calls) => some ⟨peer, s.calls ++ calls⟩
        | .error _ => none
      else none
  | .closeCallback =>
      if 0 < s.peer.closeCallbacks then some { s with peer := afterUvCloseClient s.peer } else none

end ServerConnection

/-- A connection of the server as a machine. -/
def serverMachine : Machines.Machine ServerConnection ServerAction := ⟨ServerConnection.step⟩

end AnotherWs
