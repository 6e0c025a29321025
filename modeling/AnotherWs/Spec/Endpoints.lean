/-
Module: AnotherWs.Spec.Endpoints
Purpose: The endpoints of a session as they would be without their handles: what a callback or the
  application sends is on the stream at once, and no send is refused while the stream is open.
Trusted boundary: none
Main exports: sentBytes, DirectAction, DirectClient, DirectServer, directClient, directServer
-/
import AnotherWs.Core.Session

namespace AnotherWs

open Machines

/-- What a call sends. -/
def Call.sent : Call → Bytes
  | .sendDataWithAsync bytes => bytes
  | .onConnect | .onData _ _ | .onError _ | .onClose | .uvClose => []

/-- What the calls send. -/
def sentBytes (calls : List Call) : Bytes := calls.flatMap Call.sent

/-- What an endpoint without handles does by itself: libuv calls it back without bytes, or it says
something. -/
inductive DirectAction (α : Type) where
  | libuv (a : α)
  | say (op : UInt8) (data : Bytes)

/-- The bytes of a message on an open stream. An empty message is refused. -/
def messageBytes (op : UInt8) (data : Bytes) : Option Bytes :=
  if data = [] then none
  else
    match generateWebsocketFrame (membufInit 128) data op with
    | .ok buf => some buf.content
    | .error _ => none

/-! ### The client -/

/-- A client, and what it has said. -/
structure DirectClient where
  client : CWSClient
  said : List (UInt8 × Bytes)

namespace DirectClient

/-- A callback of libuv, and what it sends. -/
def libuv (e : DirectClient) (a : ClientAction) : Option (DirectClient × Bytes) :=
  (clientMachine.step e.client a).map fun client =>
    ({ e with client := client }, sentBytes (client.calls.drop e.client.calls.length))

/-- A message on an open stream. -/
def say (e : DirectClient) (op : UInt8) (data : Bytes) : Option (DirectClient × Bytes) :=
  if e.client.uvTcp.state = .reading then
    (messageBytes op data).map fun bytes => ({ e with said := e.said ++ [(op, data)] }, bytes)
  else none

end DirectClient

/-- The client without handles as a party. -/
def directClient : Party DirectClient Bytes (DirectAction ClientAction) UInt8 where
  receive := fun e behind data =>
    if data.length + behind.length = suggestedSize then e.libuv (.read (readArguments data behind))
    else none
  act := fun e a =>
    match a with
    | .libuv a => if a.quiet then e.libuv a else none
    | .say op data => e.say op data

/-! ### The server -/

/-- The connection of a server, and what the server has said over it. -/
structure DirectServer where
  connection : ServerConnection
  said : List (UInt8 × Bytes)

namespace DirectServer

/-- A callback of libuv, and what it sends. -/
def libuv (e : DirectServer) (a : ServerAction) : Option (DirectServer × Bytes) :=
  (serverMachine.step e.connection a).map fun connection =>
    ({ e with connection := connection },
      sentBytes (connection.calls.drop e.connection.calls.length))

/-- A message on an open stream. -/
def say (e : DirectServer) (op : UInt8) (data : Bytes) : Option (DirectServer × Bytes) :=
  if e.connection.peer.state = .reading then
    (messageBytes op data).map fun bytes => ({ e with said := e.said ++ [(op, data)] }, bytes)
  else none

end DirectServer

/-- The connection of a server without handles as a party. -/
def directServer : Party DirectServer Unit (DirectAction ServerAction) UInt8 where
  receive := fun e _ data =>
    if data.length ≤ suggestedSize then e.libuv (.read (zeroedArguments data)) else none
  act := fun e a =>
    match a with
    | .libuv a => if a.quiet then e.libuv a else none
    | .say op data => e.say op data

end AnotherWs
