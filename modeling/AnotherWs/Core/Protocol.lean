/-
Module: AnotherWs.Core.Protocol
Purpose: The restartable frame parser of wsutil.cpp: the handle, the reader that mixes buffered and
  fresh bytes, and try_parse_protocol with all of its early returns.
Trusted boundary: `size_t` counters are unbounded naturals; the log calls are left out.
Main exports: ParseState, FrameHeader, WebsocketHandle, ReadCursor, readCharFromBufOrData,
  tryParseProtocol, ParsedFrame, parseFrames
-/
import AnotherWs.Core.Membuf
import Mathlib.Data.Fintype.Pi

namespace AnotherWs

/-- `parse_state` -/
inductive ParseState where
  | complete
  | failed
  | incomplete
deriving DecidableEq, Repr

/-- `endpoint_type` -/
inductive EndpointType where
  | client
  | server
deriving DecidableEq, Repr

/-- The header fields of `websocket_handle`. The bit-fields keep their widths. -/
structure FrameHeader where
  isEof : Bool
  dfExt : BitVec 3
  type : BitVec 4
  hasMask : Bool
  payloadLen : BitVec 7
  mask : Fin 4 → UInt8
  realPayloadLen : Nat
deriving DecidableEq

/-- `websocket_handle` -/
structure WebsocketHandle extends FrameHeader where
  protoBuf : Membuf
  mergeBuf : Membuf
  endpointType : EndpointType
  readCount : Nat
  parseState : ParseState
deriving DecidableEq

/-- A mask has bytes, so its indices have numerals. -/
instance neZero_mask : NeZero (4 : Nat) := ⟨by decide⟩

/-- `do_mask` -/
def doMask (data : Bytes) (mask : Fin 4 → UInt8) : Bytes :=
  data.mapIdx fun i byte => byte ^^^ mask (Fin.ofNat 4 i)

/-- `do_mask` over `data[headerLen .. size)` of a buffer. The length is a `size_t` difference, so a
header longer than the buffer would send the loop out of bounds. -/
def membufMask (buf : Membuf) (headerLen : Nat) (mask : Fin 4 → UInt8) : Except Fault Membuf :=
  if inside : headerLen ≤ buf.size then
    .ok { buf with
      data := buf.data.take headerLen ++
        doMask ((buf.data.drop headerLen).take (buf.size - headerLen)) mask ++
        buf.data.drop buf.size
      data_length := by
        have := buf.data_length
        have := buf.size_le
        simp only [doMask, List.length_append, List.length_take, List.length_mapIdx,
          List.length_drop]
        omega }
  else .error .outOfBounds

/-- `read_two_byte_length`: network order, whatever the host's order. -/
def readTwoByteLength (input : Bytes) : Nat :=
  (input.getD 0 0).toNat * 2 ^ 8 + (input.getD 1 0).toNat

/-- `read_four_byte_length` -/
def readFourByteLength (input : Bytes) : Nat :=
  (input.getD 0 0).toNat * 2 ^ 24 + (input.getD 1 0).toNat * 2 ^ 16 +
    (input.getD 2 0).toNat * 2 ^ 8 + (input.getD 3 0).toNat

/-- The buffer and the three counters that `read_char_from_buf_or_data` updates through pointers. -/
structure ReadCursor where
  buf : Membuf
  bufRead : Nat
  dataRead : Nat
  realReadNum : Nat

/-- The return value of `read_char_from_buf_or_data`, the bytes it stored at `readchar`, and the
counters. -/
structure ReadResult where
  ret : Bool
  stored : Bytes
  cursor : ReadCursor

/-- `read_char_from_buf_or_data`: first the unread rest of the buffer, then fresh data, which is
copied into the buffer as it is read. -/
def readCharFromBufOrData (cursor : ReadCursor) (data : Bytes) (readlen : Nat) :
    Except Fault ReadResult :=
  let { buf, bufRead, dataRead, realReadNum } := cursor
  if bufRead + readlen ≤ buf.size then
    .ok
      { ret := true
        stored := (buf.content.drop bufRead).take readlen
        cursor := { cursor with bufRead := bufRead + readlen } }
  else
    let bufAvailable := buf.size - bufRead
    let fromBuf := (buf.content.drop bufRead).take bufAvailable
    let bufRead := bufRead + bufAvailable
    if dataRead + readlen - bufAvailable ≤ data.length then do
      let rest := readlen - bufAvailable
      let fromData := (data.drop dataRead).take rest
      let buf ← membufAppendData buf fromData
      .ok
        { ret := true
          stored := fromBuf ++ fromData
          cursor :=
            { buf := buf
              bufRead := bufRead + rest
              dataRead := dataRead + rest
              realReadNum := realReadNum + rest } }
    else
      let dataAvailable := data.length - dataRead
      if 0 < dataAvailable then do
        let fromData := (data.drop dataRead).take dataAvailable
        let buf ← membufAppendData buf fromData
        .ok
          { ret := false
            stored := fromBuf ++ fromData
            cursor :=
              { buf := buf
                bufRead := bufRead + dataAvailable
                dataRead := dataRead + dataAvailable
                realReadNum := realReadNum + dataAvailable } }
      else
        .ok { ret := false, stored := fromBuf, cursor := { cursor with bufRead := bufRead } }

/-- The fields taken from the first byte. `dfExt` keeps the low three bits of `temp & 0x70`. -/
def FrameHeader.setFirstByte (header : FrameHeader) (temp : UInt8) : FrameHeader :=
  { header with
    isEof := temp >>> 7 != 0
    dfExt := BitVec.ofNat 3 (temp &&& 0x70).toNat
    type := BitVec.ofNat 4 (temp &&& 0xF).toNat }

/-- The fields taken from the second byte. -/
def FrameHeader.setSecondByte (header : FrameHeader) (temp : UInt8) : FrameHeader :=
  { header with
    hasMask := temp >>> 7 != 0
    payloadLen := BitVec.ofNat 7 (temp &&& 0x7f).toNat }

/-- `handle->realPayloadLen = n` -/
def FrameHeader.setLength (header : FrameHeader) (n : Nat) : FrameHeader :=
  { header with realPayloadLen := n }

/-- Copying `stored` to the front of `handle->mask`. -/
def FrameHeader.storeMask (header : FrameHeader) (stored : Bytes) : FrameHeader :=
  { header with mask := fun i => stored.getD i (header.mask i) }

/-- Replace the header fields. -/
def WebsocketHandle.setHeader (hd : WebsocketHandle) (header : FrameHeader) : WebsocketHandle :=
  { hd with toFrameHeader := header }

/-- `handle->parseState = state` -/
def WebsocketHandle.setState (hd : WebsocketHandle) (state : ParseState) : WebsocketHandle :=
  { hd with parseState := state }

/-- What the reader has changed behind the handle's pointers. -/
def WebsocketHandle.sync (hd : WebsocketHandle) (cursor : ReadCursor) : WebsocketHandle :=
  { hd with protoBuf := cursor.buf, readCount := cursor.realReadNum }

/-- A stage of `try_parse_protocol` either returns from the function or goes on. -/
inductive ParseStep where
  | done (ret : Bool) (hd : WebsocketHandle)
  | next (hd : WebsocketHandle) (cursor : ReadCursor) (headerLen : Nat)

/-- "read mask", the same three times in the source. -/
def readMask (hd : WebsocketHandle) (cursor : ReadCursor) (data : Bytes) (headerLen : Nat) :
    Except Fault ParseStep :=
  if hd.hasMask then do
    let read ← readCharFromBufOrData cursor data 4
    let hd := hd.setHeader (hd.storeMask read.stored)
    if read.ret then .ok (.next hd read.cursor (headerLen + 4))
    else .ok (.done false (hd.sync read.cursor))
  else .ok (.next hd cursor headerLen)

/-- The extended length and the masking key. A zero 7-bit length ends the parse at once: neither the
key is read nor the header removed. -/
def parseLength (hd : WebsocketHandle) (cursor : ReadCursor) (data : Bytes) :
    Except Fault ParseStep :=
  if hd.payloadLen.toNat < 126 then
    let hd := hd.setHeader (hd.setLength hd.payloadLen.toNat)
    if hd.realPayloadLen = 0 then .ok (.done true ((hd.setState .complete).sync cursor))
    else readMask hd cursor data 2
  else if hd.payloadLen.toNat = 126 then do
    let read ← readCharFromBufOrData cursor data 2
    if read.ret then
      readMask (hd.setHeader (hd.setLength (readTwoByteLength read.stored))) read.cursor data 4
    else .ok (.done false (hd.sync read.cursor))
  else if hd.payloadLen.toNat = 127 then do
    let upper ← readCharFromBufOrData cursor data 4
    if upper.ret then
      if upper.stored = [0, 0, 0, 0] then do
        let lower ← readCharFromBufOrData upper.cursor data 4
        if lower.ret then
          readMask (hd.setHeader (hd.setLength (readFourByteLength lower.stored))) lower.cursor
            data 10
        else .ok (.done false (hd.sync lower.cursor))
      else .ok (.done false ((hd.setState .failed).sync upper.cursor))
    else .ok (.done false (hd.sync upper.cursor))
  else .ok (.done false ((hd.setState .failed).sync cursor))

/-- The payload is unmasked in place when the frame has a key. -/
def unmaskPayload (header : FrameHeader) (buf : Membuf) (headerLen : Nat) : Except Fault Membuf :=
  if header.hasMask then membufMask buf headerLen header.mask else .ok buf

/-- "read payload", then unmask it and remove the header. -/
def parsePayload (hd : WebsocketHandle) (cursor : ReadCursor) (data : Bytes) (headerLen : Nat) :
    Except Fault (Bool × WebsocketHandle) := do
  let read ← readCharFromBufOrData cursor data hd.realPayloadLen
  if read.ret then do
    let buf ← unmaskPayload hd.toFrameHeader read.cursor.buf headerLen
    let buf ← membufRemove buf 0 headerLen
    .ok (true, (hd.setState .complete).sync { read.cursor with buf := buf })
  else .ok (false, hd.sync read.cursor)

/-- The entry of `try_parse_protocol`: after a complete frame the buffer and the mask are cleared. -/
def beginParse (hd : WebsocketHandle) : WebsocketHandle :=
  if hd.parseState = .complete then
    { hd with
      protoBuf := membufClear hd.protoBuf 0
      mask := fun _ => 0
      parseState := .incomplete }
  else hd.setState .incomplete

/-- `try_parse_protocol`. Every call starts again at the first header byte and reads the buffered
bytes before the fresh ones. The first read cannot fail, so its return value is ignored. -/
def tryParseProtocol (hd : WebsocketHandle) (data : Bytes) :
    Except Fault (Bool × WebsocketHandle) :=
  if data = [] then .ok (false, { hd with readCount := 0 })
  else do
    let hd := beginParse hd
    let first ← readCharFromBufOrData ⟨hd.protoBuf, 0, 0, 0⟩ data 1
    let hd := hd.setHeader (hd.setFirstByte (first.stored.getD 0 0))
    let second ← readCharFromBufOrData first.cursor data 1
    if second.ret then do
      let hd := hd.setHeader (hd.setSecondByte (second.stored.getD 0 0))
      match ← parseLength hd second.cursor data with
      | .done ret hd => .ok (ret, hd)
      | .next hd cursor headerLen => parsePayload hd cursor data headerLen
    else .ok (false, hd.sync second.cursor)

/-- What a caller sees of a frame that `try_parse_protocol` has completed. -/
structure ParsedFrame where
  readCount : Nat
  isEof : Bool
  type : Nat
  payload : Bytes
deriving DecidableEq

/-- The frame in a handle. -/
def WebsocketHandle.frame (hd : WebsocketHandle) : ParsedFrame :=
  ⟨hd.readCount, hd.isEof, hd.type.toNat, hd.protoBuf.content⟩

/-- `try_parse_protocol` called again and again while it completes a frame and data is left, for at
most `fuel` frames. -/
def parseFrames : Nat → WebsocketHandle → Bytes →
    Except Fault (List ParsedFrame × WebsocketHandle)
  | 0, hd, data => if data = [] then .ok ([], hd) else .error .outOfFuel
  | fuel + 1, hd, data =>
      if data = [] then .ok ([], hd)
      else do
        let (complete, hd) ← tryParseProtocol hd data
        if complete then do
          let (frames, last) ← parseFrames fuel hd (data.drop hd.readCount)
          .ok (hd.frame :: frames, last)
        else .ok ([], hd)

end AnotherWs
