/-
Module: AnotherWs.Core.Encoder
Purpose: The sending side of wsutil.cpp: one frame, and a message cut into fragments.
Trusted boundary: `counter` is an unbounded natural; the log calls are left out.
Main exports: writeTwoByteLength, writeFourByteLength, generateWebsocketFrameWithoutFragment,
  generateWebsocketFrame, Outbound, emitAll
-/
import AnotherWs.Core.ReadLoop

namespace AnotherWs

/-- `DATA_FRAME_MAX_LEN` -/
def dataFrameMaxLen : Nat := 65520

/-- `FIN_ENABLE` -/
def finEnable : UInt8 := 1

/-- `FIN_DISABLE` -/
def finDisable : UInt8 := 0

/-- `WS_CONTINUE_FRAME` -/
def wsContinueFrame : UInt8 := 0x0

/-- `WS_TEXT_FRAME` -/
def wsTextFrame : UInt8 := 0x1

/-- `WS_BIN_FRAME` -/
def wsBinFrame : UInt8 := 0x2

/-- `write_two_byte_length`: network order, cut to 16 bits. -/
def writeTwoByteLength (lengthValue : Nat) : Bytes :=
  [UInt8.ofNat (lengthValue / 2 ^ 8), UInt8.ofNat lengthValue]

/-- `write_four_byte_length`: network order, cut to 32 bits. -/
def writeFourByteLength (lengthValue : Nat) : Bytes :=
  [UInt8.ofNat (lengthValue / 2 ^ 24), UInt8.ofNat (lengthValue / 2 ^ 16),
    UInt8.ofNat (lengthValue / 2 ^ 8), UInt8.ofNat lengthValue]

/-- The one masking key of `generate_websocket_frame_without_fragment`. -/
def staticMask : Fin 4 → UInt8
  | 0 => 0x1a
  | 1 => 0x2b
  | 2 => 0x3c
  | 3 => 0x4d

/-- The four key bytes, when masking is enabled. -/
def headerMask (enableMask : UInt8) : Bytes :=
  if enableMask ≠ 0 then [staticMask 0, staticMask 1, staticMask 2, staticMask 3] else []

/-- `header[0 .. header_size)`, or nothing when the data is too big to send. -/
def generateHeader (datalen : Nat) (op fin enableMask : UInt8) : Option Bytes :=
  let first := (fin <<< 7) ||| (op &&& 0x0F)
  if datalen ≤ 125 then
    some ([first, (enableMask <<< 7) ||| (UInt8.ofNat datalen &&& 0x7F)] ++ headerMask enableMask)
  else if datalen ≤ 65535 then
    some ([first, (enableMask <<< 7) ||| (0x7E &&& 0x7F)] ++ writeTwoByteLength datalen ++
      headerMask enableMask)
  else if datalen ≤ 0xFFFFFFFF then
    some ([first, (enableMask <<< 7) ||| (0x7F &&& 0x7F)] ++ [0, 0, 0, 0] ++
      writeFourByteLength datalen ++ headerMask enableMask)
  else none

/-- `generate_websocket_frame_without_fragment`. Data that is too big is dropped with a message on the
console. -/
def generateWebsocketFrameWithoutFragment (buf : Membuf) (data : Bytes)
    (op fin enableMask : UInt8) : Except Fault Membuf :=
  match generateHeader data.length op fin enableMask with
  | none => .ok buf
  | some header => do
      let buf ← membufAppendData buf header
      let buf ← membufAppendData buf data
      if enableMask ≠ 0 then membufMask buf (buf.size - data.length) staticMask
      else .ok buf

/-- The frame of one fragment: the only one, the first, the last, or one in the middle. -/
def wrapFragment (buf : Membuf) (part : Bytes) (op : UInt8) (fragNum counter : Nat) :
    Except Fault Membuf :=
  if fragNum = 1 then generateWebsocketFrameWithoutFragment buf part op finEnable 0
  else if counter = 0 then generateWebsocketFrameWithoutFragment buf part op finDisable 0
  else if counter = fragNum - 1 then
    generateWebsocketFrameWithoutFragment buf part wsContinueFrame finEnable 0
  else generateWebsocketFrameWithoutFragment buf part wsContinueFrame finDisable 0

/-- The `do`-`while` loop of `generate_websocket_frame`, for at most `fuel` fragments. -/
def fragmentLoop (data : Bytes) (op : UInt8) (fragNum : Nat) :
    Nat → Nat → Nat → Membuf → Except Fault Membuf
  | 0, _, _, _ => .error .outOfFuel
  | fuel + 1, haveWrappedCount, counter, buf => do
      let num :=
        if data.length - haveWrappedCount > dataFrameMaxLen then dataFrameMaxLen
        else data.length - haveWrappedCount
      let buf ← wrapFragment buf ((data.drop haveWrappedCount).take num) op fragNum counter
      if haveWrappedCount + num < data.length ∧ counter + 1 < fragNum then
        fragmentLoop data op fragNum fuel (haveWrappedCount + num) (counter + 1) buf
      else .ok buf

/-- `generate_websocket_frame` -/
def generateWebsocketFrame (buf : Membuf) (data : Bytes) (op : UInt8) : Except Fault Membuf :=
  if data.length = 0 then .ok buf
  else
    let a := data.length / dataFrameMaxLen
    let b := if data.length % dataFrameMaxLen = 0 then 0 else 1
    let fragNum := a + b
    fragmentLoop data op fragNum fragNum 0 0 buf

/-- Something that an endpoint sends: a message, or one of the two-byte control frames that the
heartbeat timer and the ping handler send. -/
inductive Outbound where
  | message (op : UInt8) (data : Bytes)
  | ping
  | pong
  | close
deriving DecidableEq

/-- The bytes that are sent. A message is written into a buffer of its own, as `sendWebsocketMsg`
does. -/
def Outbound.emit : Outbound → Except Fault Bytes
  | .message op data => do
      let buf ← generateWebsocketFrame (membufInit 128) data op
      .ok buf.content
  | .ping => .ok generatePingControlFrame
  | .pong => .ok generatePongControlFrame
  | .close => .ok generateCloseControlFrame

/-- Everything that is sent, in order. -/
def emitAll : List Outbound → Except Fault Bytes
  | [] => .ok []
  | action :: actions => do
      let bytes ← action.emit
      let rest ← emitAll actions
      .ok (bytes ++ rest)

end AnotherWs
