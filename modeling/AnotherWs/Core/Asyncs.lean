/-
Module: AnotherWs.Core.Asyncs
Purpose: CAsyncs.cpp: the pool of async handles, the send calls of any number of threads, and the loop
thread that drains the handles.
Trusted boundary: an acquire is one step (it holds the mutex); storing a context and uv_async_send are
one step each; uv__async_io clears the pending flag of a handle and runs its callback; memory does not
run out; an encoding that the encoder cannot build ends the process before a handle is acquired. A split
function gives no lengths beyond the data: the source reads behind the data there, where splitParts has
what is left of it.
Main exports:
  CAsyncs, acquireOneUvAsync, acquireManyUvAsync, Request, SendSystem, Action, sendMachine
-/
import AnotherWs.Core.Encoder
import AnotherWs.Lib.Machine
import Mathlib.Data.List.Rotate
import Mathlib.Logic.Function.Basic

namespace AnotherWs

/-! ### The pool -/

/-- What `async->data` points to. `call` and `part` stand for the address: the number of the send call
that allocated the context and of the part within the call. No two contexts share them. -/
structure SendDataContext where
  peer : Nat
  data : Bytes
  len : Nat
  call : Nat
  part : Nat
deriving Repr, DecidableEq

/-- `uv_async_t`: the context behind `data` and libuv's pending flag. -/
structure UvAsync where
  data : Option SendDataContext
  pending : Bool
deriving Repr, DecidableEq

/-- `CAsyncs`. A handle is known by the `id` of its `AsyncContext`, its place in the order of
initialisation; the deque holds the ids. -/
structure CAsyncs where
  size : Nat
  asyncQueue : List Nat
  asyncs : Nat → UvAsync

/-- The constructor. -/
def CAsyncs.init (size : Nat) : CAsyncs := ⟨size, List.range size, fun _ => ⟨none, false⟩⟩

/-- `acquireOneUvAsync`: the handle at the head of the queue, if its `data` is `NULL`. -/
def acquireOneUvAsync (pool : CAsyncs) : Option Nat × CAsyncs :=
  match pool.asyncQueue with
  | [] => (none, pool)
  | id :: rest =>
      if (pool.asyncs id).data = none then
        (some id, { pool with asyncQueue := rest ++ [id] })
      else (none, pool)

/-- The `for` loop of `acquireManyUvAsync` over the first `num` handles: not `broken`. -/
def windowFree (asyncs : Nat → UvAsync) : Nat → Nat → List Nat → Bool
  | 0, _, _ => true
  | _ + 1, _, [] => false
  | num + 1, prevId, id :: rest =>
      if (asyncs id).data ≠ none ∨ id < prevId then false else windowFree asyncs num id rest

/-- The `while` loop of `acquireManyUvAsync`. A broken window moves the head of the queue to its
back. -/
def findWindow (asyncs : Nat → UvAsync) (num maxPos : Nat) : Nat → Nat → List Nat → Bool × List Nat
  | 0, _, queue => (false, queue)
  | fuel + 1, beginPos, queue =>
      if beginPos + num ≤ maxPos then
        if windowFree asyncs num 0 queue then (true, queue)
        else findWindow asyncs num maxPos fuel (beginPos + 1) (queue.rotate 1)
      else (false, queue)

/-- `acquireManyUvAsync`: the first `num` handles of the queue once they are all free and in the
order of their ids. -/
def acquireManyUvAsync (num : Nat) (pool : CAsyncs) : Option (List Nat) × CAsyncs :=
  if pool.asyncQueue = [] then (none, pool)
  else if num > pool.asyncQueue.length then (none, pool)
  else
    let maxPos := pool.asyncQueue.length - 1
    let (found, queue) := findWindow pool.asyncs num maxPos (maxPos + 1) 0 pool.asyncQueue
    if found then (some (queue.take num), { pool with asyncQueue := queue.rotate num })
    else (none, { pool with asyncQueue := queue })

/-! ### Send calls -/

/-- The arguments of `sendDataWithAsync`, with or without a split function. -/
structure Request where
  peer : Nat
  data : Bytes
  splitDataLenFunction : Option (Nat → List Nat)

/-- `sendWebsocketMsg` encodes the message and goes on as `sendDataWithAsync` does. -/
def sendWebsocketMsg (peer : Nat) (buffer : Bytes) (op : UInt8)
    (splitDataLenFunction : Option (Nat → List Nat)) : Except Fault Request := do
  let buf ← generateWebsocketFrame (membufInit 128) buffer op
  .ok ⟨peer, buf.content, splitDataLenFunction⟩

/-- The walk of `dataptr` over the results of the split function. -/
def splitParts : List Nat → Bytes → List Bytes
  | [], _ => []
  | size :: rest, data => data.take size :: splitParts rest (data.drop size)

/-- A send call that has its handles: the loop over `asyncResult`, at counter `i`. `filled` says that
`async->data` of the handle is set and `uv_async_send` is still to come. -/
structure SendCall where
  call : Nat
  peer : Nat
  asyncResult : List Nat
  parts : List Bytes
  i : Nat
  filled : Bool

/-- The part that the loop sends at counter `j`. -/
def SendCall.part (c : SendCall) (j : Nat) : Bytes := c.parts.getD j []

/-- The context that `sendDataWithAsync` allocates for a part. Its `len` is a `uint`. -/
def SendCall.context (c : SendCall) (j : Nat) : SendDataContext :=
  ⟨c.peer, c.part j, (c.part j).length % 2 ^ 32, c.call, j⟩

/-- The handle of the loop at counter `j`. -/
def SendCall.async (c : SendCall) (j : Nat) : Nat := c.asyncResult.getD j 0

/-- How many contexts the call has stored. -/
def SendCall.count (c : SendCall) : Nat := if c.filled then c.i + 1 else c.i

/-- The handles the call has acquired and not yet filled. -/
def SendCall.unfilled (c : SendCall) : List Nat := c.asyncResult.drop c.count

/-- The handles for a request and the parts they carry. `acquireOneUvAsync` serves a call without a
split function. -/
def Request.acquire (req : Request) (pool : CAsyncs) : Option (List Nat × List Bytes) × CAsyncs :=
  match req.splitDataLenFunction with
  | none =>
      match acquireOneUvAsync pool with
      | (some id, pool') => (some ([id], [req.data]), pool')
      | (none, pool') => (none, pool')
  | some split =>
      if req.data = [] then (none, pool)
      else
        let sizes := split req.data.length
        match acquireManyUvAsync sizes.length pool with
        | (some ids, pool') => (some (ids, splitParts sizes req.data), pool')
        | (none, pool') => (none, pool')

/-! ### The threads -/

/-- The pool, the connections that `CChecker` knows, the next handle of the loop thread's scan, and for
each thread its send call in progress. `stored`, `returned` and `reached` record the contexts stored
in a handle, those of the calls that returned `true` and the arguments of `send_data_impl`. -/
structure SendSystem where
  pool : CAsyncs
  connected : Nat → Bool
  cursor : Nat
  calls : Nat
  senders : Nat → Option SendCall
  stored : List SendDataContext
  returned : List SendDataContext
  reached : List SendDataContext
  wire : Nat → Bytes

def SendSystem.init (size : Nat) (connected : Nat → Bool) : SendSystem :=
  ⟨CAsyncs.init size, connected, 0, 0, fun _ => none, [], [], [], fun _ => []⟩

/-- The steps of the system. -/
inductive Action where
  | call (thread : Nat) (req : Request)
  | fill (thread : Nat)
  | notify (thread : Nat)
  | refuse (thread : Nat)
  | visit (id : Nat)
  | close (peer : Nat)

namespace SendSystem

variable (s : SendSystem)

/-- Write one handle. -/
def setAsync (id : Nat) (async : UvAsync) : SendSystem :=
  { s with pool := { s.pool with asyncs := Function.update s.pool.asyncs id async } }

/-- Write the state of one thread. -/
def setSender (thread : Nat) (sender : Option SendCall) : SendSystem :=
  { s with senders := Function.update s.senders thread sender }

/-- The start of a send call, up to and with the acquire. It returns `false` at once when the connection
is not valid or no handles are found. -/
def call (thread : Nat) (req : Request) : SendSystem :=
  if s.connected req.peer then
    match req.acquire s.pool with
    | (none, pool') => { s with pool := pool' }
    | (some ([], _), pool') => { s with pool := pool' }
    | (some (ids, parts), pool') =>
        { s with pool := pool', calls := s.calls + 1 }.setSender thread
          (some ⟨s.calls, req.peer, ids, parts, 0, false⟩)
  else s

/-- `async->data = ctx`. An empty part ends the call. -/
def fill (thread : Nat) (c : SendCall) : SendSystem :=
  if c.part c.i = [] then s.setSender thread none
  else
    ({ s with stored := s.stored ++ [c.context c.i] }.setAsync (c.async c.i)
      { s.pool.asyncs (c.async c.i) with data := some (c.context c.i) }).setSender thread
        (some { c with filled := true })

/-- `uv_async_send`. After the last part the call returns `true`. -/
def notify (thread : Nat) (c : SendCall) : SendSystem :=
  let s' := s.setAsync (c.async c.i) { s.pool.asyncs (c.async c.i) with pending := true }
  if c.i + 1 < c.asyncResult.length then
    s'.setSender thread (some { c with i := c.i + 1, filled := false })
  else
    { s' with returned := s.returned ++ (List.range c.asyncResult.length).map c.context }.setSender
      thread none

/-- `send_data_impl`: a peer that is still connected is written to. -/
def sendDataImpl (ctx : SendDataContext) : SendSystem :=
  let s' := { s with reached := s.reached ++ [ctx] }
  if s.connected ctx.peer then
    { s' with wire := Function.update s.wire ctx.peer (s.wire ctx.peer ++ ctx.data.take ctx.len) }
  else s'

/-- The loop thread at one handle: `async_send_callback` if the handle is pending. -/
def visit (id : Nat) : SendSystem :=
  let s' := { s with cursor := if id + 1 < s.pool.size then id + 1 else 0 }
  if (s.pool.asyncs id).pending then
    match (s.pool.asyncs id).data with
    | none => s'.setAsync id ⟨none, false⟩
    | some ctx => (s'.sendDataImpl ctx).setAsync id ⟨none, false⟩
  else s'

/-- One step. A thread makes one call at a time; a call is refused when its connection is gone. -/
def step (s : SendSystem) : Action → Option SendSystem
  | .call thread req =>
      match s.senders thread with
      | none => some (s.call thread req)
      | some _ => none
  | .fill thread =>
      match s.senders thread with
      | some c => if c.filled then none else some (s.fill thread c)
      | none => none
  | .notify thread =>
      match s.senders thread with
      | some c => if c.filled then some (s.notify thread c) else none
      | none => none
  | .refuse thread =>
      match s.senders thread with
      | some c => if c.filled ∨ s.connected c.peer then none else some (s.setSender thread none)
      | none => none
  | .visit id => if id < s.pool.size then some (s.visit id) else none
  | .close peer => some { s with connected := Function.update s.connected peer false }

end SendSystem

/-- The threads and the loop thread as a machine. -/
def sendMachine : Machines.Machine SendSystem Action := ⟨SendSystem.step⟩

end AnotherWs
