/-
Module: AnotherWs.Core.Checker
Purpose: CChecker.cpp and the connections of the server: on_connection, the close callback, and the
contexts that wait in the async handles between sendDataWithAsync and send_data_impl.
Trusted boundary: a call that holds the checker's mutex is one step; a connection has been read from
before it is closed; memory does not run out; a context waits in a handle of its own.
Main exports:
  CChecker, Connection, QueuedContext, Connections, ConnectionAction, connectionMachine
-/
import AnotherWs.Core.Membuf
import AnotherWs.Lib.Machine

namespace AnotherWs

/-- `CChecker`: the addresses in `m_connections`. -/
structure CChecker where
  connections : List Nat
deriving DecidableEq, Repr

namespace CChecker

/-- `registerConnection`: `insert` leaves an address that is there alone. -/
def registerConnection (checker : CChecker) (client : Nat) : CChecker :=
  if client ∈ checker.connections then checker else ⟨client :: checker.connections⟩

/-- `unregisterConnection` -/
def unregisterConnection (checker : CChecker) (client : Nat) : CChecker :=
  ⟨checker.connections.filter fun other => other ≠ client⟩

/-- `checkConnection` -/
def checkConnection (checker : CChecker) (client : Nat) : Bool := client ∈ checker.connections

end CChecker

/-- A connection: which one it is, and the address of its `uv_stream_t`. -/
structure Connection where
  id : Nat
  stream : Nat
deriving DecidableEq, Repr

/-- A `SendDataContext` in a handle. The `owner` is the connection that the bytes were meant for;
the code keeps the address alone. -/
structure QueuedContext where
  peer : Nat
  data : Bytes
  owner : Nat
deriving DecidableEq, Repr

/-- The live connections, the checker, the contexts that wait, and a record of what became of the
others: the connection they were written to (`none` for memory that is in use by no connection), or
discarded. `sent` records all contexts that were queued. -/
structure Connections where
  nextId : Nat
  live : List Connection
  checker : CChecker
  queue : List QueuedContext
  sent : List QueuedContext
  written : List (Option Nat × QueuedContext)
  discarded : List QueuedContext
deriving DecidableEq, Repr

/-- What happens on the server. -/
inductive ConnectionAction where
  | accept (stream : Nat)
  | closed (id : Nat)
  | send (id : Nat) (data : Bytes)
  | deliver (handle : Nat)
deriving DecidableEq, Repr

namespace Connections

/-- No connection yet. -/
def init : Connections := ⟨0, [], ⟨[]⟩, [], [], [], []⟩

variable (s : Connections)

/-- The live connection with this identity. -/
def find (id : Nat) : Option Connection := s.live.find? fun c => c.id = id

/-- The live connection at an address. -/
def at_ (stream : Nat) : Option Connection := s.live.find? fun c => c.stream = stream

/-- `on_connection`: `malloc` returns an address that is not in use, and the checker learns it. -/
def onConnection (stream : Nat) : Connections :=
  { s with
    nextId := s.nextId + 1
    live := ⟨s.nextId, stream⟩ :: s.live
    checker := s.checker.registerConnection stream }

/-- `after_uv_close_client`: the checker forgets the address and the memory is freed. -/
def afterUvCloseClient (c : Connection) : Connections :=
  { s with
    live := s.live.filter fun other => other ≠ c
    checker := s.checker.unregisterConnection c.stream }

/-- `sendDataWithAsync` for a live connection. -/
def sendDataWithAsync (c : Connection) (data : Bytes) : Connections :=
  if data = [] then s
  else if s.checker.checkConnection c.stream then
    { s with
      queue := s.queue ++ [⟨c.stream, data, c.id⟩]
      sent := s.sent ++ [⟨c.stream, data, c.id⟩] }
  else s

/-- `send_data_impl`: the address is checked, twice, and `uv_write` writes to whatever is there. -/
def sendDataImpl (ctx : QueuedContext) : Connections :=
  if s.checker.checkConnection ctx.peer ∧ s.checker.checkConnection ctx.peer then
    { s with written := s.written ++ [((s.at_ ctx.peer).map Connection.id, ctx)] }
  else { s with discarded := s.discarded ++ [ctx] }

/-- `async_send_callback` on the handle at a place of the queue. -/
def asyncSendCallback (handle : Nat) (ctx : QueuedContext) : Connections :=
  { s with queue := s.queue.eraseIdx handle }.sendDataImpl ctx

/-- One step. -/
def step (s : Connections) : ConnectionAction → Option Connections
  | .accept stream =>
      match s.at_ stream with
      | none => some (s.onConnection stream)
      | some _ => none
  | .closed id => (s.find id).map s.afterUvCloseClient
  | .send id data => (s.find id).map fun c => s.sendDataWithAsync c data
  | .deliver handle => (s.queue[handle]?).map (s.asyncSendCallback handle)

end Connections

/-- The server's connections as a machine. -/
def connectionMachine : Machines.Machine Connections ConnectionAction := ⟨Connections.step⟩

end AnotherWs
