/-
Module: AnotherWs.Core.Peer
Purpose: What CWSServer.cpp and CWSClient.cpp share beside the receive loop: the stream of a
  connection as libuv sees it, the calls that a read callback makes, and the close functions of
  uvutil.cpp.
Trusted boundary: uv_close marks the handle at once and runs its callback later; the calls made to the
  application and to the send path are recorded and leave the connection alone.
Main exports: UvRead, HandleState, UvStream, Call, initBuffers, callocHandle, onClose, twCloseClient,
  makeCalls, afterUvCloseClient
-/
import AnotherWs.Core.HttpHead
import AnotherWs.Core.Handshake
import AnotherWs.Core.ReadLoop

namespace AnotherWs

/-- The arguments of a read callback: a count or an error code, and the whole buffer. -/
structure UvRead where
  nread : Int
  base : Bytes
  nread_le : nread ≤ base.length

/-- The bytes that were read. -/
def UvRead.data (r : UvRead) : Bytes := r.base.take r.nread.toNat

/-- `UV_EOF` -/
def uvEof : Int := -4095

/-- Where a `uv_stream_t` is between `uv_tcp_init` and the end of its close callback. -/
inductive HandleState where
  | initialised
  | reading
  | closing
  | closed
deriving DecidableEq, Repr

/-- A `uv_stream_t`: the handle hung on it, whether its loop has an owner, and how many close callbacks
libuv still has to run on it. -/
structure UvStream where
  state : HandleState
  closeCallbacks : Nat
  data : Option WebsocketHandle
  loopData : Bool
deriving DecidableEq

/-- `uv_is_closing` -/
def UvStream.isClosing (peer : UvStream) : Bool :=
  match peer.state with
  | .initialised | .reading => false
  | .closing | .closed => true

/-- The calls that leave a read callback. -/
inductive Call where
  | onConnect
  | onData (payload : Bytes) (flag : UInt8)
  | onError (errcode : Int)
  | onClose
  | sendDataWithAsync (bytes : Bytes)
  | uvClose
deriving DecidableEq, Repr

/-- A handle straight from `calloc`, without buffers. -/
def callocHandle (endpoint : EndpointType) : WebsocketHandle :=
  { newHandle endpoint with protoBuf := membufInit 0, mergeBuf := membufInit 0 }

/-- `membuf_init` on the buffers that have no memory yet. -/
def initBuffers (hd : WebsocketHandle) : WebsocketHandle :=
  { hd with
    protoBuf := if hd.protoBuf.bufferSize = 0 then membufInit 128 else hd.protoBuf
    mergeBuf := if hd.mergeBuf.bufferSize = 0 then membufInit 128 else hd.mergeBuf }

/-- A virtual call of `onClose` through the pointer in `loop->data`. -/
def notifyClose (loopData : Bool) : Except Fault (List Call) :=
  if loopData then .ok [.onClose] else .error .nullPointer

/-- `on_close`, of which each endpoint has its own copy. -/
def onClose (peer : UvStream) : Except Fault (List Call) :=
  if ¬ peer.loopData then notifyClose peer.loopData else .ok []

/-- `tw_close_client` -/
def twCloseClient (onClose : UvStream → Except Fault (List Call)) (peer : UvStream) :
    Except Fault (UvStream × List Call) := do
  let calls ← onClose peer
  if ¬ peer.isClosing then
    .ok ({ peer with state := .closing, closeCallbacks := peer.closeCallbacks + 1 },
      calls ++ [.uvClose])
  else .ok (peer, calls)

/-- `after_uv_close_client`, once libuv has closed the handle. -/
def afterUvCloseClient (peer : UvStream) : UvStream :=
  { peer with state := .closed, closeCallbacks := peer.closeCallbacks - 1, data := none }

/-- One call of the receive loop. -/
def makeCall (onClose : UvStream → Except Fault (List Call)) (peer : UvStream) :
    Event → Except Fault (UvStream × List Call)
  | .onData payload flag => .ok (peer, [.onData payload flag])
  | .sendDataWithAsync bytes => .ok (peer, [.sendDataWithAsync bytes])
  | .twCloseClient => twCloseClient onClose peer

/-- The calls of the receive loop, in order. -/
def makeCalls (onClose : UvStream → Except Fault (List Call)) :
    UvStream → List Event → Except Fault (UvStream × List Call)
  | peer, [] => .ok (peer, [])
  | peer, event :: events => do
      let (peer, calls) ← makeCall onClose peer event
      let (peer, more) ← makeCalls onClose peer events
      .ok (peer, calls ++ more)

end AnotherWs
