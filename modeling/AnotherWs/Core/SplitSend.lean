/-
Module: AnotherWs.Core.SplitSend
Purpose: CAsyncs.cpp: a send call with a split function, from its first check to its return, while the
connection may go and memory may run out between two parts.
Trusted boundary: the pointers other than the data are not null; a split function fills in as many
  lengths as it counts; the buffer of the encoder never runs out of memory.
Main exports: SendEnv, SendState, sendDataWithAsyncPart, sendParts, sendDataWithAsyncSplit,
  sendWebsocketMsgSplit
-/
import AnotherWs.Core.Checker
import AnotherWs.Core.Pool

namespace AnotherWs

/-- What a send call meets: the connections at each of its checks (number 0 is the check at the entry,
`i + 1` the one of part `i`), and whether the two `malloc`s of part `i` succeed. -/
structure SendEnv where
  checker : Nat → CChecker
  mallocData : Nat → Bool
  mallocContext : Nat → Bool

/-- The pool and a record of what the call has queued: the handle and the context behind its `data`. -/
structure SendState where
  pool : CAsyncs
  queued : List (Nat × SendDataContext)

/-- `async->data = ctx` and `uv_async_send`. -/
def SendState.queue (s : SendState) (id : Nat) (ctx : SendDataContext) : SendState :=
  ⟨{ s.pool with asyncs := Function.update s.pool.asyncs id ⟨some ctx, true⟩ }, s.queued ++ [(id, ctx)]⟩

section Loop

variable (env : SendEnv) (call peer : Nat)

/-- `sendDataWithAsync` for one handle: part `i`, the `len` bytes at `dataptr`. The second `malloc`
is not checked. -/
def sendDataWithAsyncPart (i id : Nat) (dataptr : Bytes) (len : Nat) (s : SendState) :
    Except Fault (Bool × SendState) :=
  if len = 0 then .ok (false, s)
  else if !(env.checker (i + 1)).checkConnection peer then .ok (false, s)
  else if !env.mallocData i then .ok (false, s)
  else if dataptr.length < len then .error .outOfBounds
  else if !env.mallocContext i then .error .nullPointer
  else .ok (true, s.queue id ⟨peer, dataptr.take len, len % 2 ^ 32, call, i⟩)

/-- The loop over the results of the split function, from part `i` on. -/
def sendParts : Nat → List Nat → List Nat → Bytes → SendState → Except Fault (Bool × SendState)
  | _, _, [], _, s => .ok (true, s)
  | _, [], _ :: _, _, _ => .error .outOfBounds
  | i, id :: asyncResult, size :: sizes, dataptr, s => do
      let (ret, s) ← sendDataWithAsyncPart env call peer i id dataptr size s
      if ret then sendParts (i + 1) asyncResult sizes (dataptr.drop size) s else .ok (false, s)

/-- The common end of both calls: the lengths, the handles, the loop. -/
def sendSplit (data : Bytes) (splitDataLenFunction : Nat → List Nat) (pool : CAsyncs) :
    Except Fault (Bool × SendState) :=
  let sizes := splitDataLenFunction data.length
  let (found, asyncResult, pool) := acquireManyInto sizes.length [] pool
  if found then sendParts env call peer 0 asyncResult sizes data ⟨pool, []⟩
  else .ok (false, ⟨pool, []⟩)

/-- `sendDataWithAsync` with a split function; `none` is the null pointer. -/
def sendDataWithAsyncSplit (data : Option Bytes) (splitDataLenFunction : Nat → List Nat)
    (pool : CAsyncs) : Except Fault (Bool × SendState) :=
  if !(env.checker 0).checkConnection peer then .ok (false, ⟨pool, []⟩)
  else
    match data with
    | none => .ok (false, ⟨pool, []⟩)
    | some data =>
        if data = [] then .ok (false, ⟨pool, []⟩)
        else sendSplit env call peer data splitDataLenFunction pool

/-- `sendWebsocketMsg` with a split function. -/
def sendWebsocketMsgSplit (buffer : Option Bytes) (op : UInt8) (splitDataLenFunction : Nat → List Nat)
    (pool : CAsyncs) : Except Fault (Bool × SendState) :=
  if !(env.checker 0).checkConnection peer then .ok (false, ⟨pool, []⟩)
  else
    match buffer with
    | none => .ok (false, ⟨pool, []⟩)
    | some buffer =>
        if buffer = [] then .ok (false, ⟨pool, []⟩)
        else do
          let buf ← generateWebsocketFrame (membufInit 128) buffer op
          sendSplit env call peer buf.content splitDataLenFunction pool

end Loop

end AnotherWs
