/-
Module: AnotherWs.Core.HeadScan
Purpose: parse_http_heads of uvutil.cpp byte by byte, with every access to the buffer, and what
  on_read of both endpoints does with its result during the handshake.
Trusted boundary: strstr, strchr and isspace look at one byte after the other from the left and at none
  that they do not need; the capacity bounds the number of steps of a scan.
Main exports: matchAt, strstrScan, skipSpacesScan, strchrScan, valueScan, parseHttpHeadsScan,
  HandshakeDecision, handshakeScan
-/
import AnotherWs.Core.HttpHead
import AnotherWs.Core.Client
import AnotherWs.Core.Server
import AnotherWs.Lib.Scan

namespace AnotherWs

open Scans

/-- A pattern at offset `p`, up to the first byte that differs. -/
def matchAt : Nat → Bytes → Scan UInt8 Bool
  | _, [] => .done true
  | p, c :: pattern => .read p fun d => if d = c then matchAt (p + 1) pattern else .done false

/-- `strstr` from offset `p`: the offset that is found. The number bounds the steps; behind the last of
them it reads where the buffer has ended. -/
def strstrScan (pattern : Bytes) : Nat → Nat → Scan UInt8 (Option Nat)
  | 0, p => .read p fun _ => .done none
  | steps + 1, p => (matchAt p pattern).bind fun found =>
      if found then .done (some p)
      else .read p fun c => if c = 0 then .done none else strstrScan pattern steps (p + 1)

/-- `while (isspace(*key)) key++` -/
def skipSpacesScan : Nat → Nat → Scan UInt8 Nat
  | 0, p => .read p fun _ => .done p
  | steps + 1, p => .read p fun c => if isspace c then skipSpacesScan steps (p + 1) else .done p

/-- `strchr` from offset `p`: the bytes it passes, and whether it stops at the character. -/
def strchrScan (c : UInt8) : Nat → Nat → Scan UInt8 (Bytes × Bool)
  | 0, p => .read p fun _ => .done ([], false)
  | steps + 1, p => .read p fun d =>
      if d = c then .done ([], true)
      else if d = 0 then .done ([], false)
      else (strchrScan c steps (p + 1)).bind fun out => .done (d :: out.1, out.2)

/-- The part of `parse_http_heads` behind the name, from offset `key` on: white space, and the value
up to the carriage return, which is cut off. -/
def valueScan (cap key : Nat) : Scan UInt8 (Option Bytes) :=
  (skipSpacesScan cap key).bind fun key =>
    (strchrScan 0x0d cap key).bind fun out =>
      if out.2 then .write (key + out.1.length) 0 (.done (some out.1)) else .done (some out.1)

/-- `parse_http_heads` over a buffer of `cap` bytes: the string at the pointer that it returns. -/
def parseHttpHeadsScan (cap : Nat) (keyName : Bytes) : Scan UInt8 (Option Bytes) :=
  (strstrScan headEnd cap 0).bind fun data =>
    match data with
    | none => .done none
    | some data => .write data 0 <|
        (strstrScan keyName cap 0).bind fun key =>
          match key with
          | none => .done none
          | some key => valueScan cap (key + (keyName.length + 1))

/-- What `on_read` does with the result: it takes the handshake, closes the connection, or waits for the
next read. -/
inductive HandshakeDecision where
  | accept (text : Bytes)
  | close
  | wait
deriving DecidableEq, Repr

/-- The field that an endpoint looks for. -/
def handshakeField : EndpointType → Bytes
  | .server => CWSServer.keyField
  | .client => CWSClient.acceptField

/-- The branches of `on_read`. -/
def handshakeDecision : EndpointType → Option Bytes → HandshakeDecision
  | .server, some key => .accept key
  | .server, none => .close
  | .client, some key => if 0 < key.length then .accept key else .wait
  | .client, none => .wait

/-- `on_read` during the handshake, as far as its decision. -/
def handshakeScan (endpoint : EndpointType) (cap : Nat) : Scan UInt8 HandshakeDecision :=
  (parseHttpHeadsScan cap (handshakeField endpoint)).bind fun key =>
    .done (handshakeDecision endpoint key)

end AnotherWs
