/-
Module: AnotherWs.Core.Handshake
Purpose: The opening handshake of wsutil.cpp and the part of CWSClient::onConnectInternal that derives
  the key and the request.
Trusted boundary: a string argument is given as its characters, without the terminating zero; the
  random bytes of get_random are an input, and the timers and the registration are left out.
Main exports: sha1AndBase64, generateWebsocketServerHandshake, generateWebsocketClientHandshake,
  CWSClient.onConnectInternal
-/
import AnotherWs.Core.Sha1
import AnotherWs.Core.Encode

namespace AnotherWs

/-- `WS_KEY_SUFFFIX` -/
def wsKeySuffix : Bytes := ascii "258EAFA5-E914-47DA-95CA-C5AB0DC85B11"

/-- `HANDSHAKE_SIZE` -/
def handshakeSize : Nat := 1024

/-- `sha1_and_base64`. The length goes to `hash1_write` as a `uint`, and what is encoded ends at the
first zero byte of the block buffer. -/
def sha1AndBase64 (input : Bytes) : Except Fault (Option Bytes) := do
  let hd := hash1Final (hash1Write hash1Reset (input.take (input.length % 2 ^ 32)))
  let n ← strlen hd.buf 0
  base64Encode (hd.buf.take n)

/-- `snprintf` into a zeroed buffer of `HANDSHAKE_SIZE` bytes, as the string that is left there. -/
def snprintfHandshake (text : Bytes) : Bytes := text.take (handshakeSize - 1)

/-- `generate_websocket_client_handshake` -/
def generateWebsocketClientHandshake (ip : Bytes) (port : UInt16) (path key : Bytes) : Bytes :=
  snprintfHandshake (ascii "GET " ++ path ++ ascii " HTTP/1.1\r\n" ++
    ascii "Host: " ++ ip ++ ascii ":" ++ ascii (toString port.toNat) ++ ascii "\r\n" ++
    ascii "Upgrade: websocket\r\n" ++
    ascii "Connection: Upgrade\r\n" ++
    ascii "Sec-WebSocket-Key: " ++ key ++ ascii "\r\n" ++
    ascii "Sec-WebSocket-Version: 13\r\n" ++
    ascii "\r\n")

/-- The text in front of the accept value. -/
def acceptHead : Bytes :=
  ascii "HTTP/1.1 101 Switching Protocols\r\n" ++
    ascii "Upgrade: websocket\r\n" ++
    ascii "Connection: Upgrade\r\n" ++
    ascii "Sec-WebSocket-Accept: "

/-- The buffer `akey` of a hundred bytes after the two copies: the key, the suffix behind it, and what
is left of the zeros. -/
def fillAkey (key : Bytes) : Except Fault Bytes := do
  let akey := List.replicate 100 0
  let akey ← memStore akey 0 (key ++ [0])
  memStore akey key.length wsKeySuffix

/-- What `%s` prints for a pointer. The GNU library prints a null pointer as `(null)`. -/
def formatString (p : Option Bytes) : Bytes := p.getD (ascii "(null)")

/-- `generate_websocket_server_handshake` -/
def generateWebsocketServerHandshake (key : Bytes) : Except Fault Bytes := do
  let akey ← fillAkey key
  let n ← strlen akey 0
  let p ← sha1AndBase64 (akey.take n)
  .ok (snprintfHandshake (acceptHead ++ formatString p ++ ascii "\r\n" ++ ascii "\r\n"))

namespace CWSClient

/-- `CWSClient::onConnectInternal` after a successful connect: the key `m_key` from sixteen random
bytes, and the request that goes out. A null `key` cannot be assigned to `m_key`. -/
def onConnectInternal (ip : Bytes) (port : UInt16) (uri random : Bytes) :
    Except Fault (Bytes × Bytes) := do
  let key ← sha1AndBase64 random
  match key with
  | none => .error .nullPointer
  | some key => .ok (key, generateWebsocketClientHandshake ip port uri key)

end CWSClient

end AnotherWs
