/-
Module: AnotherWs.Proofs.OwnHandshake
Purpose: The handshake texts that both endpoints format, as the peer reads them.
Trusted boundary: none
Main exports: PlainText, SentKey, HeadLines.reads_field, RequestUnderstood, ResponseUnderstood,
  ownHandshake_understood_iff
-/
import AnotherWs.Core.Client
import AnotherWs.Core.Server
import AnotherWs.Proofs.Handshake
import AnotherWs.Proofs.HeaderLookup

namespace AnotherWs

/-! ### Characters -/

/-- Characters that are neither white space nor a zero. -/
def Visible (text : Bytes) : Prop := ∀ c ∈ text, isspace c = false ∧ c ≠ 0

instance (text : Bytes) : Decidable (Visible text) := List.decidableBAll _ text

theorem Visible.lineText {text : Bytes} (visible : Visible text) : LineText text :=
  ⟨fun h => (by cases (visible _ h).1), fun h => (by cases (visible _ h).1), fun h =>
    (visible _ h).2 rfl⟩

theorem visible_text : Visible Base64.text := by decide +kernel

/-- What `%d` prints is digits. -/
theorem mem_ascii_toString {n : Nat} {c : UInt8} (h : c ∈ ascii (toString n)) :
    0x30 ≤ c.toNat ∧ c.toNat ≤ 0x39 := by
  obtain ⟨d, hd, rfl⟩ := List.mem_map.mp h
  have hdigit : d.isDigit = true := by
    refine Nat.isDigit_of_mem_toDigits (b := 10) (n := n) (by decide) (by decide) ?_
    rwa [← Nat.toList_repr]
  obtain ⟨hlow, hhigh⟩ : 48 ≤ d.toNat ∧ d.toNat ≤ 57 := by
    simpa [Char.isDigit, UInt32.le_iff_toNat_le] using hdigit
  rw [UInt8.toNat_ofNat', Nat.mod_eq_of_lt (by omega)]
  exact ⟨hlow, hhigh⟩

theorem visible_digits (n : Nat) : Visible (ascii (toString n)) := by
  intro c h
  obtain ⟨hlow, -⟩ := mem_ascii_toString h
  have hspace : c ≠ 0x20 := by
    rintro rfl
    revert hlow
    decide
  have hbreak : ¬ c ≤ 13 := by
    rw [UInt8.le_iff_toNat_le, show (13 : UInt8).toNat = 13 from rfl]
    omega
  have hzero : c ≠ 0 := by
    rintro rfl
    revert hlow
    decide
  exact ⟨by simp [isspace, hspace, hbreak], hzero⟩

theorem length_ascii (text : String) : (ascii text).length = text.length := by
  rw [ascii, List.length_map, String.length_toList]

/-! ### Texts -/

/-- What a line starts with decides whether it starts with white space. -/
theorem solid_append {front : Bytes} (head : front.head?.map isspace = some false) (back : Bytes) :
    ∃ c l, front ++ back = c :: l ∧ isspace c = false := by
  cases front with
  | nil => cases head
  | cons c front => exact ⟨c, front ++ back, rfl, Option.some.inj head⟩

theorem solid_of_head {line : Bytes} (head : line.head?.map isspace = some false) :
    ∃ c l, line = c :: l ∧ isspace c = false := by
  have hsolid := solid_append head []
  rwa [List.append_nil] at hsolid

/-- The value of a field, with one space in front of it, in a head that a buffer of zeros holds. -/
theorem HeadLines.reads_field {line name value : Bytes} {front after : List Bytes}
    (isHead : HeadLines line (front ++ (name ++ 0x20 :: value) :: after)) (nonempty : name ≠ [])
    (text : LineText name) (missing : ∀ l ∈ line :: front, ¬ name <:+: l) (visible : Visible value)
    (some_value : value ≠ []) (room : Nat) :
    parseHttpHeads (zeroFilled
      (joinLines line (front ++ (name ++ 0x20 :: value) :: after) ++ crlf ++ crlf) room) name =
        .ok (some value) := by
  have hfound : Search.offset name (name ++ 0x20 :: value) = some 0 :=
    Search.offset_of_isPrefix (List.prefix_append _ _)
  have hhere := @FirstIn.here name _ after 0 hfound
  rw [Nat.zero_add, List.drop_left] at hhere
  have hfirst : FirstIn name (line :: (front ++ (name ++ 0x20 :: value) :: after)) (0x20 :: value)
      after := FirstIn.append missing hhere
  have hread := isHead.parseHttpHeads_first (List.not_mem_nil (a := 0)) nonempty text
    (List.replicate room 0) hfirst
  have hvalue : readBehind [] (0x20 :: value) after = value := by
    obtain ⟨c, rest, rfl⟩ := List.exists_cons_of_ne_nil some_value
    have hsolid : isspace c = false := (visible c List.mem_cons_self).1
    have hdrop : (c :: rest).dropWhile isspace = c :: rest :=
      List.dropWhile_cons_of_neg (by rw [hsolid]; exact Bool.false_ne_true)
    cases after with
    | nil => rw [readBehind, hdrop]
    | cons next after =>
        have hnot : ¬ ∀ d ∈ (0x20 :: c :: rest).drop 1, isspace d = true := fun hblank => by
          rw [hblank c List.mem_cons_self] at hsolid
          cases hsolid
        rw [readBehind, if_neg hnot]
        exact hdrop
  rw [List.append_nil, hvalue] at hread
  exact hread

/-! ### Requests -/

/-- Text that does not end a line and does not hold the name of the key field. -/
def PlainText (text : Bytes) : Prop := LineText text ∧ ¬ ascii "Sec-WebSocket-Key" <:+: text

instance (text : Bytes) : Decidable (PlainText text) := instDecidableAnd

/-- A key as it goes into a request. -/
structure SentKey (key : Bytes) : Prop where
  nonempty : key ≠ []
  short : key.length ≤ 63
  text : ∀ c ∈ key, c ∈ Base64.text

theorem SentKey.visible {key : Bytes} (sent : SentKey key) : Visible key :=
  fun c hc => visible_text c (sent.text c hc)

/-- The first line of a request. -/
def requestLine (path : Bytes) : Bytes := ascii "GET " ++ path ++ ascii " HTTP/1.1"

/-- The line of a request that names the server. -/
def hostLine (ip : Bytes) (port : UInt16) : Bytes :=
  ascii "Host: " ++ ip ++ ascii ":" ++ ascii (toString port.toNat)

/-- The lines of a request behind the first. -/
def requestFields (ip : Bytes) (port : UInt16) (key : Bytes) : List Bytes :=
  [hostLine ip port, ascii "Upgrade: websocket", ascii "Connection: Upgrade"] ++
    (CWSServer.keyField ++ 0x20 :: key) :: [ascii "Sec-WebSocket-Version: 13"]

section Request

variable {ip path key : Bytes} (port : UInt16)

/-- The request is made of lines, and cut where the buffer ends. -/
theorem generateWebsocketClientHandshake_eq (ip path key : Bytes) :
    generateWebsocketClientHandshake ip port path key =
      (joinLines (requestLine path) (requestFields ip port key) ++ crlf ++ crlf).take
        (handshakeSize - 1) := by
  have hversion : ascii " HTTP/1.1\r\n" = ascii " HTTP/1.1" ++ crlf := by decide +kernel
  have hkey : ascii "Sec-WebSocket-Key: " = CWSServer.keyField ++ [0x20] := by decide +kernel
  have hlast : ascii "Sec-WebSocket-Version: 13\r\n" = ascii "Sec-WebSocket-Version: 13" ++ crlf := by
    decide +kernel
  obtain ⟨hupgrade, hconnection, hend⟩ := ascii_upgradeLines
  rw [generateWebsocketClientHandshake, snprintfHandshake, hversion, hupgrade, hconnection, hkey, hlast,
    hend, requestFields, requestLine, hostLine]
  simp only [joinLines, List.cons_append, List.nil_append, List.append_assoc]

/-- How long the whole text of a request is. -/
theorem length_request (ip path key : Bytes) :
    (joinLines (requestLine path) (requestFields ip port key) ++ crlf ++ crlf).length =
      path.length + ip.length + (toString port.toNat).length + key.length + 115 := by
  have hparts : (ascii "GET ").length = 4 ∧ (ascii " HTTP/1.1").length = 9 ∧
      (ascii "Host: ").length = 6 ∧ (ascii ":").length = 1 ∧
      (ascii "Upgrade: websocket").length = 18 ∧ (ascii "Connection: Upgrade").length = 19 ∧
      CWSServer.keyField.length = 18 ∧ (ascii "Sec-WebSocket-Version: 13").length = 25 ∧
      crlf.length = 2 := by decide +kernel
  obtain ⟨hget, hversion, hhost, hcolon, hupgrade, hconnection, hkey, hlast, hend⟩ := hparts
  simp only [joinLines, requestFields, requestLine, hostLine, List.cons_append, List.nil_append,
    List.length_append, List.length_cons, hget, hversion, hhost, hcolon, hupgrade, hconnection, hkey,
    hlast, hend, length_ascii (toString port.toNat)]
  omega

theorem request_headLines (hip : LineText ip) (hpath : LineText path) (sent : SentKey key) :
    HeadLines (requestLine path) (requestFields ip port key) := by
  have hget : LineText (ascii "GET ") ∧ LineText (ascii " HTTP/1.1") := by decide +kernel
  have hhost : LineText (ascii "Host: ") ∧ LineText (ascii ":") := by decide +kernel
  have hupgrade : LineText (ascii "Upgrade: websocket") := by decide +kernel
  have hconnection : LineText (ascii "Connection: Upgrade") := by decide +kernel
  have hkey : LineText CWSServer.keyField ∧ LineText [0x20] := by decide +kernel
  have hversion : LineText (ascii "Sec-WebSocket-Version: 13") := by decide +kernel
  constructor
  · refine List.forall_mem_cons.mpr ⟨(hget.1.append hpath).append hget.2, ?_⟩
    refine List.forall_mem_cons.mpr
      ⟨((hhost.1.append hip).append hhost.2).append (visible_digits _).lineText, ?_⟩
    refine List.forall_mem_cons.mpr ⟨hupgrade, List.forall_mem_cons.mpr ⟨hconnection, ?_⟩⟩
    refine List.forall_mem_cons.mpr ⟨hkey.1.append (hkey.2.append sent.visible.lineText), ?_⟩
    exact List.forall_mem_singleton.mpr hversion
  · have hhostLine : ∃ c l, hostLine ip port = c :: l ∧ isspace c = false := by
      rw [hostLine, List.append_assoc, List.append_assoc]
      exact solid_append (by decide +kernel) _
    refine List.forall_mem_cons.mpr ⟨hhostLine, ?_⟩
    refine List.forall_mem_cons.mpr ⟨solid_of_head (by decide +kernel), ?_⟩
    refine List.forall_mem_cons.mpr ⟨solid_of_head (by decide +kernel), ?_⟩
    refine List.forall_mem_cons.mpr ⟨solid_append (by decide +kernel) _, ?_⟩
    exact List.forall_mem_singleton.mpr (solid_of_head (by decide +kernel))

/-- The lines in front of the key do not hold the name of its field. -/
theorem request_plain (hip : PlainText ip) (hpath : PlainText path) :
    ∀ l ∈ requestLine path :: [hostLine ip port, ascii "Upgrade: websocket",
      ascii "Connection: Upgrade"], ¬ CWSServer.keyField <:+: l := by
  have hfield : ascii "Sec-WebSocket-Key" <:+: CWSServer.keyField := by decide +kernel
  have hspace : 0x20 ∉ ascii "Sec-WebSocket-Key" := by decide +kernel
  have hcolon : 0x3a ∉ ascii "Sec-WebSocket-Key" := by decide +kernel
  have hnonempty : ascii "Sec-WebSocket-Key" ≠ [] := by decide +kernel
  have hrequest : ¬ ascii "Sec-WebSocket-Key" <:+: requestLine path := by
    have hparts : requestLine path = ascii "GET" ++ 0x20 :: (path ++ 0x20 :: ascii "HTTP/1.1") := by
      have hget : ascii "GET " = ascii "GET" ++ [0x20] := by decide +kernel
      have hversion : ascii " HTTP/1.1" = 0x20 :: ascii "HTTP/1.1" := by decide +kernel
      rw [requestLine, hget, hversion, List.append_assoc, List.append_assoc]
      rfl
    rw [hparts, Search.infix_append_cons_iff hspace hnonempty,
      Search.infix_append_cons_iff hspace hnonempty, not_or, not_or]
    exact ⟨by decide +kernel, hpath.2, by decide +kernel⟩
  have hhost : ¬ ascii "Sec-WebSocket-Key" <:+: hostLine ip port := by
    have hparts : hostLine ip port =
        ascii "Host:" ++ 0x20 :: (ip ++ 0x3a :: ascii (toString port.toNat)) := by
      have hhead : ascii "Host: " = ascii "Host:" ++ [0x20] := by decide +kernel
      have hsep : ascii ":" = [0x3a] := by decide +kernel
      rw [hostLine, hhead, hsep, List.append_assoc, List.append_assoc, List.append_assoc]
      rfl
    have hdigits : ¬ ascii "Sec-WebSocket-Key" <:+: ascii (toString port.toNat) := by
      intro hin
      have hletter : 0x53 ∈ ascii "Sec-WebSocket-Key" := by decide +kernel
      have hdigit := mem_ascii_toString (hin.subset hletter)
      revert hdigit
      decide
    rw [hparts, Search.infix_append_cons_iff hspace hnonempty,
      Search.infix_append_cons_iff hcolon hnonempty, not_or, not_or]
    exact ⟨by decide +kernel, hip.2, hdigits⟩
  refine List.forall_mem_cons.mpr ⟨fun h => hrequest (hfield.trans h), ?_⟩
  refine List.forall_mem_cons.mpr ⟨fun h => hhost (hfield.trans h), ?_⟩
  exact List.forall_mem_cons.mpr ⟨by decide +kernel, List.forall_mem_singleton.mpr (by decide +kernel)⟩

/-- The server reads the key from a request that fits into the buffer, and nothing from one that does
not. -/
theorem parseHttpHeads_request (hip : PlainText ip) (hpath : PlainText path) (sent : SentKey key)
    (room : Nat) :
    parseHttpHeads (zeroFilled (generateWebsocketClientHandshake ip port path key) room)
        CWSServer.keyField =
      .ok (if path.length + ip.length + (toString port.toNat).length + key.length + 115 < handshakeSize
        then some key else none) := by
  have hhead := request_headLines port hip.1 hpath.1 sent
  have hlen := length_request port ip path key
  rw [generateWebsocketClientHandshake_eq]
  split
  · rename_i hfits
    rw [List.take_of_length_le (by rw [hlen]; omega)]
    exact hhead.reads_field (by decide +kernel) (by decide +kernel) (request_plain port hip hpath)
      sent.visible sent.nonempty room
  · rename_i hlong
    rw [parseHttpHeads_eq, headValue_unended]
    apply hhead.unended_cut
    rw [hlen, handshakeSize]
    rw [handshakeSize] at hlong
    omega

end Request

/-! ### Responses -/

/-- Whatever is encoded, the formatted value is there to be read. -/
theorem formatString_visible (bytes : Bytes) :
    Visible (formatString (encodeText bytes)) ∧ formatString (encodeText bytes) ≠ [] := by
  unfold encodeText
  split
  · decide +kernel
  · rename_i hne
    refine ⟨fun c hc => visible_text c (Base64.encode_text bytes c hc), fun hnil => ?_⟩
    have hlen := congrArg List.length hnil
    have hpos := List.length_pos_iff.mpr hne
    rw [formatString, Option.getD_some, Base64.length_encode, List.length_nil] at hlen
    omega

/-- The client reads the value that was formatted into the response. -/
theorem parseHttpHeads_response {value : Bytes} (visible : Visible value) (some_value : value ≠ [])
    (short : value.length ≤ 900) (room : Nat) :
    parseHttpHeads (zeroFilled
        (snprintfHandshake (acceptHead ++ value ++ ascii "\r\n" ++ ascii "\r\n")) room)
      CWSClient.acceptField = .ok (some value) := by
  have hfield : ascii "Sec-WebSocket-Accept: " = CWSClient.acceptField ++ [0x20] := by decide +kernel
  have hlines : snprintfHandshake (acceptHead ++ value ++ ascii "\r\n" ++ ascii "\r\n") =
      joinLines (ascii "HTTP/1.1 101 Switching Protocols")
        ([ascii "Upgrade: websocket", ascii "Connection: Upgrade"] ++
          (CWSClient.acceptField ++ 0x20 :: value) :: []) ++ crlf ++ crlf := by
    rw [snprintfHandshake_response short, hfield]
    simp only [joinLines, List.cons_append, List.nil_append, List.append_assoc]
  have hhead : HeadLines (ascii "HTTP/1.1 101 Switching Protocols")
      ([ascii "Upgrade: websocket", ascii "Connection: Upgrade"] ++
        (CWSClient.acceptField ++ 0x20 :: value) :: []) := by
    have htexts : LineText (ascii "HTTP/1.1 101 Switching Protocols") ∧
        LineText (ascii "Upgrade: websocket") ∧ LineText (ascii "Connection: Upgrade") ∧
        LineText CWSClient.acceptField ∧ LineText [0x20] := by decide +kernel
    obtain ⟨hstatus, hupgrade, hconnection, haccept, hspace⟩ := htexts
    constructor
    · refine List.forall_mem_cons.mpr ⟨hstatus, List.forall_mem_cons.mpr ⟨hupgrade, ?_⟩⟩
      refine List.forall_mem_cons.mpr ⟨hconnection, List.forall_mem_singleton.mpr ?_⟩
      exact haccept.append (hspace.append visible.lineText)
    · refine List.forall_mem_cons.mpr ⟨solid_of_head (by decide +kernel), ?_⟩
      refine List.forall_mem_cons.mpr ⟨solid_of_head (by decide +kernel), ?_⟩
      exact List.forall_mem_singleton.mpr (solid_append (by decide +kernel) _)
  rw [hlines]
  exact hhead.reads_field (by decide +kernel) (by decide +kernel) (by decide +kernel) visible some_value
    room

/-! ### Both texts -/

/-- The server reads the key from the request, in whatever buffer of zeros it arrives whole. -/
def RequestUnderstood (ip : Bytes) (port : UInt16) (path key : Bytes) : Prop :=
  ∀ room, parseHttpHeads (zeroFilled (generateWebsocketClientHandshake ip port path key) room)
    CWSServer.keyField = .ok (some key)

/-- The client reads from the response the accept value that was formatted into it. -/
def ResponseUnderstood (key : Bytes) : Prop :=
  ∃ p response, sha1AndBase64 (key ++ wsKeySuffix) = .ok p ∧
    response = snprintfHandshake (acceptHead ++ formatString p ++ ascii "\r\n" ++ ascii "\r\n") ∧
    generateWebsocketServerHandshake key = .ok response ∧
    ∀ room, parseHttpHeads (zeroFilled response room) CWSClient.acceptField =
      .ok (some (formatString p))

theorem SentKey.responseUnderstood {key : Bytes} (sent : SentKey key) : ResponseUnderstood key := by
  have hsuffix : wsKeySuffix.length = 36 := rfl
  have hshort := sent.short
  have hp := @sha1AndBase64_eq (key ++ wsKeySuffix) (by rw [List.length_append]; omega)
  have hresponse := generateWebsocketServerHandshake_eq sent.visible.lineText.2.2 (by omega)
  rw [hp] at hresponse
  obtain ⟨-, hlength⟩ := formatString_plain (length_takeWhile_finalBuf (key ++ wsKeySuffix))
  obtain ⟨hvisible, hnonempty⟩ :=
    formatString_visible ((finalBuf (key ++ wsKeySuffix)).takeWhile (· ≠ 0))
  exact ⟨_, _, hp, rfl, hresponse, parseHttpHeads_response hvisible hnonempty hlength⟩

/-- **Own handshakes.** The peers read the key and the accept value from each other's texts exactly
when the request fits into the buffer that it is formatted into. -/
theorem ownHandshake_understood_iff {ip path key : Bytes} (port : UInt16) (hip : PlainText ip)
    (hpath : PlainText path) (sent : SentKey key) :
    RequestUnderstood ip port path key ∧ ResponseUnderstood key ↔
      path.length + ip.length + (toString port.toNat).length + key.length + 115 < handshakeSize := by
  constructor
  · rintro ⟨request, -⟩
    by_contra hlong
    have hread := request 0
    rw [parseHttpHeads_request port hip hpath sent, if_neg hlong] at hread
    cases hread
  · intro hfits
    refine ⟨fun room => ?_, sent.responseUnderstood⟩
    rw [parseHttpHeads_request port hip hpath sent, if_pos hfits]

/-- A key of twenty-four characters. -/
theorem sentKey_sample : SentKey (ascii "dGhlIHNhbXBsZSBub25jZQ==") :=
  ⟨by decide +kernel, by decide +kernel, by decide +kernel⟩

theorem ownHandshake_understood_iff_sample :
    PlainText (ascii "127.0.0.1") ∧ PlainText (ascii "/chat") ∧
    SentKey (ascii "dGhlIHNhbXBsZSBub25jZQ==") ∧
    (RequestUnderstood (ascii "127.0.0.1") 80 (ascii "/chat") (ascii "dGhlIHNhbXBsZSBub25jZQ==") ∧
        ResponseUnderstood (ascii "dGhlIHNhbXBsZSBub25jZQ==") ↔
      (ascii "/chat").length + (ascii "127.0.0.1").length +
        (toString (80 : UInt16).toNat).length + (ascii "dGhlIHNhbXBsZSBub25jZQ==").length + 115 <
          handshakeSize) :=
  ⟨by decide +kernel, by decide +kernel, sentKey_sample,
    ownHandshake_understood_iff 80 (by decide +kernel) (by decide +kernel) sentKey_sample⟩

/-- A request for a path of a thousand characters loses its end in the buffer, and the server finds no
key in it. -/
theorem longRequest_not_understood :
    PlainText (ascii "127.0.0.1") ∧ PlainText (List.replicate 1000 0x61) ∧
    SentKey (ascii "dGhlIHNhbXBsZSBub25jZQ==") ∧
    parseHttpHeads (zeroFilled (generateWebsocketClientHandshake (ascii "127.0.0.1") 80
        (List.replicate 1000 0x61) (ascii "dGhlIHNhbXBsZSBub25jZQ==")) 64512) CWSServer.keyField =
      .ok none ∧
    ¬ (RequestUnderstood (ascii "127.0.0.1") 80 (List.replicate 1000 0x61)
        (ascii "dGhlIHNhbXBsZSBub25jZQ==") ∧
      ResponseUnderstood (ascii "dGhlIHNhbXBsZSBub25jZQ==")) := by
  have hip : PlainText (ascii "127.0.0.1") := by decide +kernel
  have hpath : PlainText (List.replicate 1000 0x61) := by decide +kernel
  have hread := parseHttpHeads_request 80 hip hpath sentKey_sample 64512
  rw [List.length_replicate, handshakeSize, if_neg (by omega)] at hread
  refine ⟨hip, hpath, sentKey_sample, hread, fun understood => ?_⟩
  rw [understood.1 64512] at hread
  cases hread

end AnotherWs
