/-
Module: AnotherWs.Core.ReadLoop
Purpose: on_read_websocket of CWSServer.cpp and CWSClient.cpp: the receive loop over one chunk, the
  dispatch of a complete frame, and the callbacks it makes.
Trusted boundary: the callbacks (onData, sendDataWithAsync, tw_close_client) are recorded as events and
  leave the handle alone; the data recording behind the *_DATA_RECORD_ENABLE switches is off.
Main exports: Event, dispatchFrame, readPass, readLoop, onReadWebsocket, loopPasses, feedChunks,
  connectionEvents, Fresh, Allocated, newHandle, Reachable
-/
import AnotherWs.Core.Protocol

namespace AnotherWs

/-- `FLAG_WEBSOCKET_TEXT` -/
def flagWebsocketText : UInt8 := 0x1

/-- `FLAG_WEBSOCKET_BIN` -/
def flagWebsocketBin : UInt8 := 0x2

/-- `FLAG_WEBSOCKET` -/
def flagWebsocket : UInt8 := 0x4

/-- The calls that the receive loop makes to the outside. -/
inductive Event where
  | onData (payload : Bytes) (flag : UInt8)
  | sendDataWithAsync (bytes : Bytes)
  | twCloseClient
deriving DecidableEq, Repr

/-- `generate_close_control_frame`, `generate_ping_control_frame` and `generate_pong_control_frame`
differ in the opcode alone. -/
def controlFrame (op : UInt8) : Bytes := [((1 : UInt8) <<< 7) ||| (op &&& 0x0F), 2]

/-- `generate_close_control_frame` -/
def generateCloseControlFrame : Bytes := controlFrame 0x8

/-- `generate_ping_control_frame` -/
def generatePingControlFrame : Bytes := controlFrame 0x9

/-- `generate_pong_control_frame` -/
def generatePongControlFrame : Bytes := controlFrame 0xA

/-- `SET_FLAG(buf.flag, value)` -/
def Membuf.setFlag (buf : Membuf) (value : UInt8) : Membuf := { buf with flag := buf.flag ||| value }

@[simp] theorem Membuf.setFlag_content (buf : Membuf) (value : UInt8) :
    (buf.setFlag value).content = buf.content := rfl

@[simp] theorem Membuf.setFlag_flag (buf : Membuf) (value : UInt8) :
    (buf.setFlag value).flag = buf.flag ||| value := rfl

@[simp] theorem Membuf.setFlag_size (buf : Membuf) (value : UInt8) :
    (buf.setFlag value).size = buf.size := rfl

/-- `case 0`, a continuation frame: the fragment joins the merge buffer, and the last one delivers
it. The buffer keeps its bytes afterwards. -/
def dispatchContinuation (hd : WebsocketHandle) : Except Fault (WebsocketHandle × List Event) := do
  let mergeBuf ← membufAppendData hd.mergeBuf hd.protoBuf.content
  let hd := { hd with mergeBuf := mergeBuf }
  if hd.isEof then .ok (hd, [.onData hd.mergeBuf.content hd.mergeBuf.flag])
  else .ok (hd, [])

/-- `case 1` and `case 2`, which differ in the flag alone. -/
def dispatchData (flag : UInt8) (hd : WebsocketHandle) :
    Except Fault (WebsocketHandle × List Event) :=
  let hd := { hd with protoBuf := hd.protoBuf.setFlag flag }
  if hd.isEof then .ok (hd, [.onData hd.protoBuf.content hd.protoBuf.flag])
  else do
    let mergeBuf ← membufAppendData ((membufClear hd.mergeBuf 0).setFlag flag) hd.protoBuf.content
    .ok ({ hd with mergeBuf := mergeBuf }, [])

/-- The `switch` over `hd->type`. A close frame does not leave the loop. -/
def dispatchFrame (hd : WebsocketHandle) : Except Fault (WebsocketHandle × List Event) :=
  match hd.type.toNat with
  | 0 => dispatchContinuation hd
  | 1 => dispatchData flagWebsocketText hd
  | 2 => dispatchData flagWebsocketBin hd
  | 8 => .ok (hd, [.twCloseClient])
  | 9 => .ok (hd, [.sendDataWithAsync generatePongControlFrame])
  | _ => .ok (hd, [])

/-- What one pass through the loop body leaves: the handle, the callbacks it made, and whether it
took the `break`. -/
structure Pass where
  handle : WebsocketHandle
  events : List Event
  leaves : Bool

/-- The loop body up to the counters. The endpoints differ in an incomplete frame alone: the server
breaks, and in the client the `break` is commented out. -/
def readPass (endpoint : EndpointType) (hd : WebsocketHandle) (data : Bytes) :
    Except Fault Pass := do
  let (_, hd) ← tryParseProtocol hd data
  match hd.parseState with
  | .complete => do
      let (hd, events) ← dispatchFrame hd
      .ok ⟨hd, events, false⟩
  | .failed => .ok ⟨hd, [.twCloseClient], false⟩
  | .incomplete => .ok ⟨hd, [], endpoint = .server⟩

/-- What a call of `on_read_websocket` leaves: the handle, and for every pass its `readCount` and its
callbacks. -/
structure Trace where
  handle : WebsocketHandle
  passes : List (Nat × List Event)
deriving DecidableEq

/-- The callbacks of a call, in order. -/
def Trace.events (trace : Trace) : List Event := trace.passes.flatMap Prod.snd

/-- A pass in front of a trace. -/
def Trace.after (pass : Nat × List Event) (trace : Trace) : Trace :=
  { trace with passes := pass :: trace.passes }

@[simp] theorem Trace.after_handle (pass : Nat × List Event) (trace : Trace) :
    (trace.after pass).handle = trace.handle := rfl

@[simp] theorem Trace.after_passes (pass : Nat × List Event) (trace : Trace) :
    (trace.after pass).passes = pass :: trace.passes := rfl

@[simp] theorem Trace.after_events (pass : Nat × List Event) (trace : Trace) :
    (trace.after pass).events = pass.2 ++ trace.events := rfl

/-- The `do`-`while` loop from the pass that starts at `haveReadCount`, for at most `fuel` passes. -/
def readLoop (endpoint : EndpointType) (data : Bytes) :
    Nat → Nat → WebsocketHandle → Except Fault Trace
  | 0, _, _ => .error .outOfFuel
  | fuel + 1, haveReadCount, hd => do
      let pass ← readPass endpoint hd (data.drop haveReadCount)
      let count := pass.handle.readCount
      if pass.leaves = false ∧ haveReadCount + count < data.length then do
        let trace ← readLoop endpoint data fuel (haveReadCount + count) pass.handle
        .ok (trace.after (count, pass.events))
      else .ok ⟨pass.handle, [(count, pass.events)]⟩

/-- `on_read_websocket` with one pass for every byte of the chunk, which is as many as a loop that
makes progress can take. -/
def onReadWebsocket (endpoint : EndpointType) (hd : WebsocketHandle) (data : Bytes) :
    Except Fault Trace :=
  readLoop endpoint data data.length 0 hd

/-- The passes that a call makes within `fuel`, each with the offset in the chunk at which it starts. A
call that never comes back makes them too. -/
def loopPasses (endpoint : EndpointType) (data : Bytes) :
    Nat → Nat → WebsocketHandle → List (Nat × Pass)
  | 0, _, _ => []
  | fuel + 1, haveReadCount, hd =>
      match readPass endpoint hd (data.drop haveReadCount) with
      | .error _ => []
      | .ok pass =>
          let count := pass.handle.readCount
          (haveReadCount, pass) ::
            if pass.leaves = false ∧ haveReadCount + count < data.length then
              loopPasses endpoint data fuel (haveReadCount + count) pass.handle
            else []

/-- The callbacks of one call within `fuel` passes. -/
def callEvents (endpoint : EndpointType) (data : Bytes) (fuel : Nat) (hd : WebsocketHandle) :
    List (List Event) :=
  (loopPasses endpoint data fuel 0 hd).map fun at_ => at_.2.events

namespace CWSServer

/-- `on_read_websocket` of CWSServer.cpp -/
def onReadWebsocket : WebsocketHandle → Bytes → Except Fault Trace := AnotherWs.onReadWebsocket .server

end CWSServer

namespace CWSClient

/-- `on_read_websocket` of CWSClient.cpp -/
def onReadWebsocket : WebsocketHandle → Bytes → Except Fault Trace := AnotherWs.onReadWebsocket .client

end CWSClient

/-- The chunks of a connection, one call after the other, and all the callbacks. -/
def feedChunks (endpoint : EndpointType) : WebsocketHandle → List Bytes →
    Except Fault (WebsocketHandle × List Event)
  | hd, [] => .ok (hd, [])
  | hd, chunk :: chunks => do
      let trace ← onReadWebsocket endpoint hd chunk
      let (hd, events) ← feedChunks endpoint trace.handle chunks
      .ok (hd, trace.events ++ events)

/-- The callbacks over the chunks of a connection. The first call that does not come back is the last
one, and makes one pass for every byte of its chunk. -/
def connectionEvents (endpoint : EndpointType) : WebsocketHandle → List Bytes → List Event
  | _, [] => []
  | hd, chunk :: chunks =>
      match onReadWebsocket endpoint hd chunk with
      | .ok trace => trace.events ++ connectionEvents endpoint trace.handle chunks
      | .error _ => (callEvents endpoint chunk chunk.length hd).flatten

/-- A handle before its first frame. -/
structure Fresh (hd : WebsocketHandle) : Prop where
  parseState_eq : hd.parseState = .complete
  protoBuf_empty : hd.protoBuf.content = []
  mergeBuf_empty : hd.mergeBuf.content = []

/-- A fresh handle with the buffers that `on_read` gives it. The server has already set
`FLAG_WEBSOCKET` on it. -/
structure Allocated (hd : WebsocketHandle) : Prop extends Fresh hd where
  protoBuf_capacity : hd.protoBuf.bufferSize = 128
  mergeBuf_capacity : hd.mergeBuf.bufferSize = 128

/-- The handle that `on_read` allocates with `calloc` and two calls of `membuf_init`. -/
def newHandle (endpoint : EndpointType) : WebsocketHandle where
  isEof := false
  dfExt := 0
  type := 0
  hasMask := false
  payloadLen := 0
  mask := fun _ => 0
  realPayloadLen := 0
  protoBuf := membufInit 128
  mergeBuf := membufInit 128
  endpointType := endpoint
  readCount := 0
  parseState := .complete

theorem newHandle_allocated (endpoint : EndpointType) : Allocated (newHandle endpoint) where
  parseState_eq := rfl
  protoBuf_empty := membufInit_content 128
  mergeBuf_empty := membufInit_content 128
  protoBuf_capacity := rfl
  mergeBuf_capacity := rfl

/-- The handles that a connection goes through: an allocated one, and what a call on a non-empty
chunk leaves of one. -/
inductive Reachable (endpoint : EndpointType) : WebsocketHandle → Prop where
  | allocated {hd : WebsocketHandle} (allocated : Allocated hd) : Reachable endpoint hd
  | read {hd : WebsocketHandle} {data : Bytes} {trace : Trace} (before : Reachable endpoint hd)
      (nonempty : data ≠ []) (call : onReadWebsocket endpoint hd data = .ok trace) :
      Reachable endpoint trace.handle

end AnotherWs
