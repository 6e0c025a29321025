/-
Module: AnotherWs.Core.Client
Purpose: CWSClient.cpp as a machine: connecting, the reconnect timer, the handshake and on_read,
  with what libuv still has to do for the handle and the connect request of the client.
Trusted boundary: libuv delivers no read after uv_close, runs one close callback for each uv_close, and
  cancels the connect requests of a handle that is closed; uv_tcp_init succeeds, and a connect that
  fails at once is one whose callback fails. The heartbeat timer touches none of this state and is
  left out. A callback that does not come back ends the run. So does a handshake read that fills its
  buffer without a zero byte: the string functions would run on behind the buffer, and where they
  stop inside it is parseHttpHeadsScan of AnotherWs.Core.HeadScan.
Main exports: WSClientStatus, CWSClient, CWSClient.onRead, CWSClient.connect, CWSClient.startup,
  ClientAction, clientMachine
-/
import AnotherWs.Core.Peer
import AnotherWs.Lib.Machine

namespace AnotherWs

/-- `WSClientStatus` -/
inductive WSClientStatus where
  | handshaking
  | working
deriving DecidableEq, Repr

/-- `CWSClient`: its parameters, the key and the status, `m_uv_tcp_t`, whether the reconnect timer is
active, how many requests on `m_uv_connect_t` are outstanding, and a record of the calls made. -/
structure CWSClient where
  ip : Bytes
  port : UInt16
  uri : Bytes
  enableReconnect : Bool
  key : Bytes
  status : WSClientStatus
  uvTcp : UvStream
  reconnectTimer : Bool
  connectRequests : Nat
  calls : List Call

/-- What libuv does with a client. -/
inductive ClientAction where
  | connected (random : Bytes)
  | connectFailed
  | tick
  | read (r : UvRead)
  | closeCallback

namespace CWSClient

/-- `on_close` of CWSClient.cpp -/
def onClose : UvStream → Except Fault (List Call) := AnotherWs.onClose

/-- The field that `on_read` looks for in a handshake response. -/
def acceptField : Bytes := ascii "Sec-WebSocket-Accept:"

/-- `on_read` of CWSClient.cpp. A response is taken for its accept field, whatever its value. -/
def onRead (s : CWSClient) (r : UvRead) : Except Fault CWSClient := do
  let hd := initBuffers (s.uvTcp.data.getD (callocHandle .client))
  let s := { s with uvTcp := { s.uvTcp with data := some hd } }
  if ¬ s.uvTcp.loopData then .ok s
  else if 0 < r.nread then
    match s.status with
    | .handshaking => do
        let key ← parseHttpHeads r.base acceptField
        match key with
        | none => .ok s
        | some key =>
            if 0 < key.length then .ok { s with status := .working, calls := s.calls ++ [.onConnect] }
            else .ok s
    | .working => do
        let trace ← CWSClient.onReadWebsocket hd r.data
        let (peer, calls) ← makeCalls onClose { s.uvTcp with data := some trace.handle } trace.events
        .ok { s with uvTcp := peer, calls := s.calls ++ calls }
  else if r.nread = 0 then .ok s
  else do
    let errors := if r.nread ≠ uvEof then [Call.onError r.nread] else []
    let (peer, calls) ← twCloseClient onClose s.uvTcp
    let s := { s with uvTcp := peer, calls := s.calls ++ (errors ++ calls) }
    if s.enableReconnect then .ok { s with reconnectTimer := true } else .ok s

/-- `connect` -/
def connect (s : CWSClient) : CWSClient :=
  { s with
    uvTcp := { s.uvTcp with state := .initialised }
    connectRequests := s.connectRequests + 1 }

/-- `onConnectInternal` with status zero: the timer, the key and the request, and the handle that the
stream is read with. -/
def afterConnect (s : CWSClient) (random : Bytes) : Except Fault CWSClient :=
  if ¬ s.uvTcp.loopData then .ok s
  else do
    let s := if s.enableReconnect then { s with reconnectTimer := false } else s
    let (key, request) ← CWSClient.onConnectInternal s.ip s.port s.uri random
    .ok { s with
      key := key
      status := .handshaking
      uvTcp := { s.uvTcp with state := .reading, data := some (callocHandle .client) }
      calls := s.calls ++ [.sendDataWithAsync request] }

/-- `reconnect_timer_callback` -/
def reconnectTimerCallback (s : CWSClient) : CWSClient := if s.uvTcp.loopData then s.connect else s

/-- A client that has been constructed. The constructor sets the owner of the loop. -/
def constructed (ip : Bytes) (port : UInt16) (uri : Bytes) (enableReconnect : Bool) : CWSClient where
  ip := ip
  port := port
  uri := uri
  enableReconnect := enableReconnect
  key := []
  status := .handshaking
  uvTcp := ⟨.initialised, 0, none, true⟩
  reconnectTimer := false
  connectRequests := 0
  calls := []

/-- `startup` -/
def startup (s : CWSClient) : CWSClient :=
  let s := if s.enableReconnect then { s with reconnectTimer := true } else s
  s.connect

/-- One step. -/
def step (s : CWSClient) : ClientAction → Option CWSClient
  | .connected random =>
      if 0 < s.connectRequests ∧ ¬ s.uvTcp.isClosing then
        match { s with connectRequests := s.connectRequests - 1 }.afterConnect random with
        | .ok s => some s
        | .error _ => none
      else none
  | .connectFailed =>
      if 0 < s.connectRequests then some { s with connectRequests := s.connectRequests - 1 } else none
  | .tick => if s.reconnectTimer then some s.reconnectTimerCallback else none
  | .read r =>
      if s.uvTcp.state = .reading then
        match s.onRead r with
        | .ok s => some s
        | .error _ => none
      else none
  | .closeCallback =>
      if 0 < s.uvTcp.closeCallbacks then some { s with uvTcp := afterUvCloseClient s.uvTcp } else none

end CWSClient

/-- The client as a machine. -/
def clientMachine : Machines.Machine CWSClient ClientAction := ⟨CWSClient.step⟩

end AnotherWs
