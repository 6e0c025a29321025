/-
Module: AnotherWs.Core.SendMemory
Purpose: The send path of CAsyncs.cpp with its memory: the frame of a message, the copy of each
  part, the context behind a handle and the write request, and async_send_callback statement by
  statement, between the steps of the sending threads.
Trusted boundary: malloc hands out no block that is in use; the malloc of a context does not fail,
  since the source does not look at its result; libuv calls after_write once for each write request
  that it has taken, for one stream in their order, and takes none for a stream that is closing. A
  frame is one block from membuf_init to membuf_uninit.
Main exports: Block, Draft, CallbackPoint, WriteRequest, SendMemory, MemoryAction, memoryMachine
-/
import AnotherWs.Core.Asyncs
import AnotherWs.Lib.Heap

namespace AnotherWs

open Heaps

/-- What the send path allocates: the frame of a message, the `newdata` of a part, its context, and
`uv_write_t`. -/
inductive Block where
  | frame (call : Nat)
  | newdata (call part : Nat)
  | ctx (call part : Nat)
  | req (request : Nat)
deriving DecidableEq

/-- What a thread holds besides its send call: the frame of a message, whether the call splits it, and
whether the next part is copied into `newdata`. -/
structure Draft where
  frame : Bool
  split : Bool
  copied : Bool
deriving DecidableEq

/-- Where the loop thread is in `async_send_callback`. -/
inductive CallbackPoint where
  | idle
  | loaded (id : Nat) (ctx : SendDataContext)
  | requested (id : Nat) (ctx : SendDataContext) (request : Nat)
  | failed (id : Nat) (ctx : SendDataContext)
  | sent (id : Nat) (ctx : SendDataContext)
  | freed (id : Nat) (ctx : SendDataContext)
deriving DecidableEq

/-- A write request that libuv has taken. -/
structure WriteRequest where
  request : Nat
  ctx : SendDataContext
deriving DecidableEq

/-- The threads and the loop thread with their memory. A connection that is `closing` has been given to
`uv_close`, and is still known to `CChecker`. -/
structure SendMemory extends SendSystem where
  closing : Nat → Bool
  drafts : Nat → Draft
  point : CallbackPoint
  writes : List WriteRequest
  requests : Nat
  heap : Heap Block

def SendMemory.init (size : Nat) (connected : Nat → Bool) : SendMemory :=
  ⟨SendSystem.init size connected, fun _ => false, fun _ => ⟨false, false, false⟩, .idle, [], 0, .empty⟩

/-- The steps. The Booleans say whether malloc gives memory. -/
inductive MemoryAction where
  | call (thread : Nat) (req : Request) (message : Bool)
  | copy (thread : Nat) (memory : Bool)
  | fill (thread : Nat)
  | notify (thread : Nat)
  | visit (id : Nat)
  | resume (memory : Bool)
  | afterWrite (peer : Nat)
  | close (peer : Nat)
  | afterClose (peer : Nat)

namespace SendMemory

variable (s : SendMemory)

/-- Write the draft of one thread. -/
def setDraft (thread : Nat) (draft : Draft) : SendMemory :=
  { s with drafts := Function.update s.drafts thread draft }

/-- The start of a send call. A message has its frame when its handles are acquired. -/
def call (thread : Nat) (req : Request) (message : Bool) : SendMemory :=
  let s' := { s with toSendSystem := s.toSendSystem.call thread req }
  match s'.senders thread with
  | none => s'
  | some c =>
      { s' with heap := if message then s.heap.alloc (.frame c.call) else s.heap }.setDraft thread
        ⟨message, req.splitDataLenFunction.isSome, false⟩

/-- `return false` of `sendDataWithAsync`. The call without a split function frees its frame, the
loop over the parts returns without. -/
def refuse (thread : Nat) (c : SendCall) : SendMemory :=
  { s with
    toSendSystem := s.toSendSystem.setSender thread none
    heap := if (s.drafts thread).frame ∧ ¬ (s.drafts thread).split then s.heap.free (.frame c.call)
      else s.heap }

/-- The part is not sent: it is empty, its connection is gone, or there is no memory. -/
def Refuses (c : SendCall) (memory : Bool) : Prop :=
  c.part c.i = [] ∨ s.connected c.peer = false ∨ memory = false

instance (c : SendCall) (memory : Bool) : Decidable (s.Refuses c memory) := instDecidableOr

/-- `sendDataWithAsync` up to the `memcpy` into `newdata`. -/
def copy (thread : Nat) (c : SendCall) (memory : Bool) : SendMemory :=
  if s.Refuses c memory then s.refuse thread c
  else
    { s with
      heap := (if (s.drafts thread).frame then s.heap.use (.frame c.call) else s.heap).alloc
        (.newdata c.call c.i) }.setDraft thread { s.drafts thread with copied := true }

/-- `async->data = ctx`. -/
def fill (thread : Nat) (c : SendCall) : SendMemory :=
  { s with
    toSendSystem := s.toSendSystem.fill thread c
    heap := s.heap.alloc (.ctx c.call c.i) }.setDraft thread { s.drafts thread with copied := false }

/-- `uv_async_send`. Behind the last part the frame is freed. -/
def notify (thread : Nat) (c : SendCall) : SendMemory :=
  { s with
    toSendSystem := s.toSendSystem.notify thread c
    heap := if c.i + 1 < c.asyncResult.length then s.heap
      else if (s.drafts thread).frame then s.heap.free (.frame c.call) else s.heap }

/-- The cursor behind a handle. -/
def next (id : Nat) : Nat := if id + 1 < s.pool.size then id + 1 else 0

/-- The loop thread gets to a handle: it takes the pending flag, and reads `handle->data`. -/
def visit (id : Nat) : SendMemory :=
  let async := s.pool.asyncs id
  if async.pending then
    match async.data with
    | none =>
        { s with toSendSystem := { s.toSendSystem with cursor := s.next id }.setAsync id ⟨none, false⟩ }
    | some ctx =>
        { s with toSendSystem := s.toSendSystem.setAsync id ⟨some ctx, false⟩, point := .loaded id ctx }
  else { s with toSendSystem := { s.toSendSystem with cursor := s.next id } }

/-- `send_data_impl` up to the malloc of the request. -/
def request (id : Nat) (ctx : SendDataContext) (memory : Bool) : SendMemory :=
  let heap := s.heap.use (.ctx ctx.call ctx.part)
  let s' := { s with reached := s.reached ++ [ctx] }
  if s.connected ctx.peer ∧ memory then
    { s' with
      heap := heap.alloc (.req s.requests)
      requests := s.requests + 1
      point := .requested id ctx s.requests }
  else { s' with heap := heap, point := .failed id ctx }

/-- `send_data_impl` from the second check on. The result of `uv_write` is not looked at; `wire` is
what it is called with. -/
def write (id : Nat) (ctx : SendDataContext) (request : Nat) : SendMemory :=
  if s.connected ctx.peer then
    { s with
      heap := s.heap.use (.newdata ctx.call ctx.part)
      wire := Function.update s.wire ctx.peer (s.wire ctx.peer ++ ctx.data.take ctx.len)
      writes := if s.closing ctx.peer then s.writes else s.writes ++ [⟨request, ctx⟩]
      point := .sent id ctx }
  else { s with heap := s.heap.free (.req request), point := .failed id ctx }

/-- `free(ctx->data)` behind a `send_data_impl` that has failed. -/
def freeData (id : Nat) (ctx : SendDataContext) : SendMemory :=
  { s with
    heap := (s.heap.use (.ctx ctx.call ctx.part)).free (.newdata ctx.call ctx.part)
    point := .sent id ctx }

/-- `free(ctx)` -/
def freeContext (id : Nat) (ctx : SendDataContext) : SendMemory :=
  { s with heap := s.heap.free (.ctx ctx.call ctx.part), point := .freed id ctx }

/-- `handle->data = NULL`, whatever it is by now. -/
def release (id : Nat) : SendMemory :=
  { s with
    toSendSystem := { s.toSendSystem with cursor := s.next id }.setAsync id
      { s.pool.asyncs id with data := none }
    point := .idle }

/-- The next statement of the callback. -/
def resume (memory : Bool) : Option SendMemory :=
  match s.point with
  | .idle => none
  | .loaded id ctx => some (s.request id ctx memory)
  | .requested id ctx request => some (s.write id ctx request)
  | .failed id ctx => some (s.freeData id ctx)
  | .sent id ctx => some (s.freeContext id ctx)
  | .freed id _ => some (s.release id)

/-- `after_write` of the first request on a stream. -/
def afterWrite (w : WriteRequest) : SendMemory :=
  { s with
    heap := ((s.heap.use (.req w.request)).free (.newdata w.ctx.call w.ctx.part)).free (.req w.request)
    writes := s.writes.filter fun other => other.request ≠ w.request }

/-- One step. Callbacks of libuv do not interrupt each other. A closed connection is unregistered
when its writes have been called back. -/
def step (s : SendMemory) : MemoryAction → Option SendMemory
  | .call thread req message =>
      match s.senders thread with
      | none => some (s.call thread req message)
      | some _ => none
  | .copy thread memory =>
      match s.senders thread with
      | some c => if c.filled ∨ (s.drafts thread).copied then none else some (s.copy thread c memory)
      | none => none
  | .fill thread =>
      match s.senders thread with
      | some c => if (s.drafts thread).copied then some (s.fill thread c) else none
      | none => none
  | .notify thread =>
      match s.senders thread with
      | some c => if c.filled then some (s.notify thread c) else none
      | none => none
  | .visit id => if s.point = .idle ∧ id < s.pool.size then some (s.visit id) else none
  | .resume memory => s.resume memory
  | .afterWrite peer =>
      if s.point = .idle then
        (s.writes.find? fun w => w.ctx.peer = peer).map s.afterWrite
      else none
  | .close peer =>
      if s.point = .idle ∧ s.connected peer then
        some { s with closing := Function.update s.closing peer true }
      else none
  | .afterClose peer =>
      if s.point = .idle ∧ s.closing peer ∧ ∀ w ∈ s.writes, w.ctx.peer ≠ peer then
        some { s with
          toSendSystem :=
            { s.toSendSystem with connected := Function.update s.connected peer false } }
      else none

end SendMemory

/-- The send path with its memory as a machine. -/
def memoryMachine : Machines.Machine SendMemory MemoryAction := ⟨SendMemory.step⟩

end AnotherWs
