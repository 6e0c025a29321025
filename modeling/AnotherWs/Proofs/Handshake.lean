/-
Module: AnotherWs.Proofs.Handshake
Purpose: The digest that sha1_and_base64 encodes ends at its first zero byte, so the handshake texts
  carry the whole digest exactly when it has none.
Trusted boundary: none
Main exports: sha1AndBase64_eq, sha1AndBase64_whole_iff, generateWebsocketServerHandshake_eq,
  generateWebsocketServerHandshake_isOk_iff, handshakeDigests_whole_iff
-/
import AnotherWs.Core.Handshake
import AnotherWs.Spec.Handshake
import AnotherWs.Proofs.Sha1
import AnotherWs.Proofs.Encode
import Mathlib.Data.List.TakeWhile

namespace AnotherWs

/-! ### The digest as a string -/

/-- The string that `base64_encode` makes of some bytes. -/
def encodeText (bytes : Bytes) : Option Bytes :=
  if bytes = [] then none else some (Base64.encode bytes)

theorem base64Encode_text {bytes : Bytes} (small : bytes.length * 3 < 2 ^ 32) :
    base64Encode bytes = .ok (encodeText bytes) := by
  unfold encodeText
  split
  · rename_i hnil
    rw [hnil, base64Encode_nil]
  · rename_i hne
    exact base64Encode_eq (List.length_pos_iff.mpr hne) small

/-- The block buffer after `hash1_final`: the digest, and what is left of the last block. -/
def finalBuf (message : Bytes) : Bytes := Sha1.hash message ++ (Sha1.lastBlock message).drop 20

theorem length_finalBuf (message : Bytes) : (finalBuf message).length = 64 := by
  obtain ⟨front, hfront, hlast, -⟩ := Sha1.lastBlock_split message
  simp only [finalBuf, hlast, List.length_append, List.length_drop, Sha1.length_hash, hfront,
    Sha1.length_lengthBytes]

/-- The first byte of the length is a zero behind the digest, as long as the length fits a `uint`. -/
theorem finalBuf_zero {message : Bytes} (small : message.length < 2 ^ 32) : 0 ∈ finalBuf message := by
  obtain ⟨front, hfront, hlast, -⟩ := Sha1.lastBlock_split message
  rw [finalBuf, hlast, List.drop_append_of_le_length (by omega)]
  apply List.mem_append_right
  apply List.mem_append_right
  apply Sha1.lengthBytes_zero
  omega

theorem length_takeWhile_finalBuf (message : Bytes) :
    ((finalBuf message).takeWhile (· ≠ 0)).length ≤ 64 := by
  rw [← length_finalBuf message]
  exact (List.takeWhile_prefix _).length_le

/-- `strlen` and the cut at it are the bytes in front of the first zero. -/
theorem take_strlen {mem : Bytes} (terminated : 0 ∈ mem) :
    ∃ n, strlen mem 0 = .ok n ∧ mem.take n = mem.takeWhile (· ≠ 0) := by
  refine ⟨(mem.takeWhile (· ≠ 0)).length, ?_, ?_⟩
  · rw [strlen, cString, List.drop_zero, if_pos terminated]
    rfl
  · exact (List.prefix_iff_eq_take.mp (List.takeWhile_prefix _)).symm

/-- `sha1_and_base64` encodes what stands in front of the first zero byte of the block buffer. -/
theorem sha1AndBase64_eq {input : Bytes} (small : input.length < 2 ^ 32) :
    sha1AndBase64 input = .ok (encodeText ((finalBuf input).takeWhile (· ≠ 0))) := by
  have hinput : input.take (input.length % 2 ^ 32) = input := by
    rw [Nat.mod_eq_of_lt small, List.take_length]
  have hbuf : (hash1Final (hash1Write hash1Reset input)).buf = finalBuf input :=
    hash1_buf (Nat.lt_trans small (by decide : 2 ^ 32 < 2 ^ 38))
  obtain ⟨n, hn, htake⟩ := take_strlen (finalBuf_zero small)
  have hshort := length_takeWhile_finalBuf input
  simp only [sha1AndBase64, hinput, hbuf, hn, ok_bind, htake]
  apply base64Encode_text
  omega

/-- Messages whose last block has zeros behind the place of the digest. -/
def Quiet (input : Bytes) : Prop := input.length % 64 < 20 ∨ 56 ≤ input.length % 64

/-- There the string ends with the digest at the latest. -/
theorem takeWhile_digest {input : Bytes} (quiet : Quiet input) :
    (finalBuf input).takeWhile (· ≠ 0) = (Sha1.hash input).takeWhile (· ≠ 0) := by
  obtain ⟨front, hfront, hlast, hzeros⟩ := Sha1.lastBlock_split input
  rw [finalBuf, hlast, List.drop_append_of_le_length (by omega), hzeros quiet]
  have htail : (List.replicate 36 0 ++ Sha1.lengthBytes (8 * input.length)).takeWhile (· ≠ 0) =
      ([] : Bytes) := rfl
  rw [List.takeWhile_append, htail, List.append_nil]
  split
  · rename_i hwhole
    exact ((List.takeWhile_prefix _).eq_of_length hwhole).symm
  · rfl

/-- The whole digest is encoded exactly when no byte of it is zero. -/
theorem sha1AndBase64_whole_iff {input : Bytes} (small : input.length < 2 ^ 32)
    (quiet : Quiet input) :
    sha1AndBase64 input = .ok (some (Base64.encode (Sha1.hash input))) ↔ 0 ∉ Sha1.hash input := by
  rw [sha1AndBase64_eq small, takeWhile_digest quiet]
  have hwhole : (Sha1.hash input).takeWhile (· ≠ 0) = Sha1.hash input ↔ 0 ∉ Sha1.hash input := by
    rw [List.takeWhile_eq_self_iff]
    constructor
    · intro hall hmem
      exact of_decide_eq_true (hall 0 hmem) rfl
    · intro hnone c hc
      apply decide_eq_true
      rintro rfl
      exact hnone hc
  have hdigest : Sha1.hash input ≠ [] := by
    intro hnil
    have hlength := congrArg List.length hnil
    rw [Sha1.length_hash] at hlength
    cases hlength
  rw [← hwhole]
  constructor
  · intro hsame
    injection hsame with hsame
    unfold encodeText at hsame
    split at hsame
    · cases hsame
    · injection hsame with hsame
      exact Base64.encode_injective hsame
  · intro hsame
    rw [hsame, encodeText, if_neg hdigest]

/-! ### The server's response -/

/-- A key that fits is stored in front of zeros. -/
theorem storeKey_eq {key : Bytes} (fits : key.length < 100) :
    memStore (List.replicate 100 0) 0 (key ++ [0]) =
      .ok (key ++ List.replicate (100 - key.length) 0) := by
  have hzeros : 100 - key.length = 1 + (100 - (key.length + 1)) := by omega
  rw [memStore,
    if_pos (by rw [List.length_append, List.length_singleton, List.length_replicate]; omega),
    List.take_zero, List.nil_append, List.drop_replicate, List.length_append,
    List.length_singleton, Nat.zero_add, hzeros, ← List.replicate_append_replicate,
    List.append_assoc]
  rfl

/-- A key that fits leaves itself and the suffix in `akey`, with a zero behind. -/
theorem fillAkey_eq {key : Bytes} (fits : key.length + 36 < 100) :
    fillAkey key = .ok (key ++ wsKeySuffix ++ 0 :: List.replicate (63 - key.length) 0) := by
  have hsuffix : wsKeySuffix.length = 36 := rfl
  have hrest : 100 - key.length - 36 = 63 - key.length + 1 := by omega
  rw [fillAkey]
  simp only [storeKey_eq (show key.length < 100 by omega), ok_bind]
  rw [memStore, if_pos (by rw [List.length_append, List.length_replicate]; omega), List.take_left,
    ← List.drop_drop, List.drop_left, List.drop_replicate, hsuffix, hrest, List.replicate_succ]

/-- The response to a key that fits. -/
theorem generateWebsocketServerHandshake_eq {key : Bytes} (text : 0 ∉ key)
    (fits : key.length + 36 < 100) :
    generateWebsocketServerHandshake key =
      (sha1AndBase64 (key ++ wsKeySuffix)).map fun p =>
        snprintfHandshake (acceptHead ++ formatString p ++ ascii "\r\n" ++ ascii "\r\n") := by
  have hall : 0 ∉ key ++ wsKeySuffix := by
    have hsuffix : 0 ∉ wsKeySuffix := by decide
    intro hmem
    rcases List.mem_append.mp hmem with hkey | hmem
    · exact text hkey
    · exact hsuffix hmem
  rw [generateWebsocketServerHandshake, fillAkey_eq fits, ok_bind, strlen, cString_start hall, ok_bind,
    ok_bind, List.take_left]
  cases sha1AndBase64 (key ++ wsKeySuffix) with
  | ok p => rfl
  | error fault => rfl

/-- A key of sixty-four characters or more leaves no room for the terminating zero. -/
theorem fillAkey_overfull {key : Bytes} (text : 0 ∉ key) (overfull : 64 ≤ key.length) :
    ∃ fault, (fillAkey key >>= fun akey => strlen akey 0) = .error fault := by
  have hsuffix : wsKeySuffix.length = 36 := rfl
  refine ⟨.outOfBounds, ?_⟩
  rw [fillAkey]
  by_cases hkey : key.length < 100
  · simp only [storeKey_eq hkey, ok_bind]
    by_cases hboth : key.length = 64
    · -- the suffix ends where the array ends
      have hall : 0 ∉ key ++ wsKeySuffix := by
        rw [List.mem_append, not_or]
        exact ⟨text, by decide⟩
      rw [memStore, if_pos (by rw [List.length_append, List.length_replicate]; omega), List.take_left,
        List.drop_eq_nil_of_le (by rw [List.length_append, List.length_replicate]; omega),
        List.append_nil, ok_bind, strlen, cString, List.drop_zero, if_neg hall]
      rfl
    · rw [memStore, if_neg (by rw [List.length_append, List.length_replicate]; omega)]
      rfl
  · rw [memStore, if_neg (by
      rw [List.length_append, List.length_singleton, List.length_replicate]; omega)]
    rfl

/-- **Which keys are answered**: those shorter than sixty-four characters. -/
theorem generateWebsocketServerHandshake_isOk_iff {key : Bytes} (text : 0 ∉ key) :
    (∃ response, generateWebsocketServerHandshake key = .ok response) ↔ key.length < 64 := by
  constructor
  · rintro ⟨response, hcall⟩
    by_contra hlong
    obtain ⟨fault, hfault⟩ := fillAkey_overfull text (Nat.le_of_not_lt hlong)
    obtain ⟨akey, hfill, hcall⟩ := bind_eq_ok.mp hcall
    obtain ⟨n, hn, -⟩ := bind_eq_ok.mp hcall
    rw [hfill, ok_bind, hn] at hfault
    cases hfault
  · intro hshort
    have hsuffix : wsKeySuffix.length = 36 := rfl
    rw [generateWebsocketServerHandshake_eq text (by omega),
      sha1AndBase64_eq (by rw [List.length_append]; omega)]
    exact ⟨_, rfl⟩

/-- The lines that requests and responses share. -/
theorem ascii_upgradeLines :
    ascii "Upgrade: websocket\r\n" = ascii "Upgrade: websocket" ++ crlf ∧
    ascii "Connection: Upgrade\r\n" = ascii "Connection: Upgrade" ++ crlf ∧
    ascii "\r\n" = crlf := by decide +kernel

/-- A response with a short value fits into the buffer, and is made of lines. -/
theorem snprintfHandshake_response {value : Bytes} (short : value.length ≤ 900) :
    snprintfHandshake (acceptHead ++ value ++ ascii "\r\n" ++ ascii "\r\n") =
      ascii "HTTP/1.1 101 Switching Protocols" ++ crlf ++ (ascii "Upgrade: websocket" ++ crlf ++
        (ascii "Connection: Upgrade" ++ crlf ++
          ((ascii "Sec-WebSocket-Accept: " ++ value) ++ crlf ++ crlf))) := by
  have hfits : (acceptHead ++ value ++ ascii "\r\n" ++ ascii "\r\n").length ≤ handshakeSize - 1 := by
    have hhead : acceptHead.length = 97 := by decide
    have hcrlf : (ascii "\r\n").length = 2 := by decide
    have hsize : handshakeSize = 1024 := rfl
    simp only [List.length_append, hhead, hcrlf]
    omega
  have hstatus : ascii "HTTP/1.1 101 Switching Protocols\r\n" =
      ascii "HTTP/1.1 101 Switching Protocols" ++ crlf := by decide +kernel
  obtain ⟨hupgrade, hconnection, hend⟩ := ascii_upgradeLines
  rw [snprintfHandshake, List.take_of_length_le hfits, acceptHead, hstatus, hupgrade, hconnection, hend]
  simp only [List.append_assoc]

/-- The value that was formatted into the response is the value of its accept field. -/
theorem acceptValue_response {value : Bytes} (plain : 0x0d ∉ value) (short : value.length ≤ 900) :
    acceptValue
      (snprintfHandshake (acceptHead ++ value ++ ascii "\r\n" ++ ascii "\r\n")) = some value := by
  have hplain : 0x0d ∉ ascii "Sec-WebSocket-Accept: " ++ value := by
    intro hmem
    rcases List.mem_append.mp hmem with hname | hvalue
    · revert hname
      decide
    · exact plain hvalue
  rw [snprintfHandshake_response short, acceptValue, fieldValue,
    headLines_cons (by decide), headLines_cons (by decide), headLines_cons (by decide),
    headLines_cons hplain]
  have hname : ascii "Sec-WebSocket-Accept" ++ ascii ": " = ascii "Sec-WebSocket-Accept: " := by decide
  have hfound : (ascii "Sec-WebSocket-Accept: ").isPrefixOf (ascii "Sec-WebSocket-Accept: " ++ value) =
      true := by
    rw [List.isPrefixOf_iff_prefix]
    exact List.prefix_append _ _
  rw [hname, List.find?_cons_of_neg (by decide), List.find?_cons_of_neg (by decide),
    List.find?_cons_of_neg (by decide), List.find?_cons_of_pos hfound, Option.map_some,
    List.drop_left]

/-- Whatever the digest, the formatted value has no line end in it and is short. -/
theorem formatString_plain {bytes : Bytes} (short : bytes.length ≤ 64) :
    0x0d ∉ formatString (encodeText bytes) ∧ (formatString (encodeText bytes)).length ≤ 900 := by
  unfold encodeText
  split
  · decide
  · constructor
    · intro hmem
      have hnone : (0x0d : UInt8) ∉ Base64.text := by decide
      exact hnone (Base64.encode_text bytes _ hmem)
    · show (Base64.encode bytes).length ≤ 900
      rw [Base64.length_encode]
      omega

/-- The accept value is the standard answer exactly when the whole digest is encoded. -/
theorem acceptValue_iff {key : Bytes} (text : 0 ∉ key) (fits : key.length + 36 < 100) :
    (∃ response, generateWebsocketServerHandshake key = .ok response ∧
        acceptValue response = some (Base64.encode (Sha1.hash (key ++ wsKeySuffix)))) ↔
      sha1AndBase64 (key ++ wsKeySuffix) =
        .ok (some (Base64.encode (Sha1.hash (key ++ wsKeySuffix)))) := by
  have hsmall : (key ++ wsKeySuffix).length < 2 ^ 32 := by
    have hsuffix : wsKeySuffix.length = 36 := rfl
    rw [List.length_append]
    omega
  have hcut := sha1AndBase64_eq hsmall
  obtain ⟨hplain, hlength⟩ := formatString_plain (length_takeWhile_finalBuf (key ++ wsKeySuffix))
  have hresponse := generateWebsocketServerHandshake_eq text fits
  rw [hcut] at hresponse ⊢
  generalize encodeText ((finalBuf (key ++ wsKeySuffix)).takeWhile (· ≠ 0)) = p
    at hplain hlength hresponse ⊢
  have hvalue := acceptValue_response hplain hlength
  constructor
  · rintro ⟨response, hcall, haccept⟩
    rw [hresponse] at hcall
    cases hcall
    rw [hvalue] at haccept
    injection haccept with haccept
    cases p with
    | none =>
        -- `(null)` is too short
        have hshort := congrArg List.length haccept
        rw [Base64.length_encode, Sha1.length_hash] at hshort
        cases hshort
    | some text => rw [← haccept]; rfl
  · intro hsame
    injection hsame with hsame
    refine ⟨_, hresponse, ?_⟩
    rw [hvalue, hsame]
    rfl

/-- The accept value of the response to a key. -/
theorem acceptValue_whole_iff {key : Bytes} (hkey : KeyText key) :
    (∃ response, generateWebsocketServerHandshake key = .ok response ∧
        acceptValue response = some (Base64.encode (Sha1.hash (key ++ wsKeySuffix)))) ↔
      0 ∉ Sha1.hash (key ++ wsKeySuffix) := by
  have hlength := hkey.length_eq
  have hall : (key ++ wsKeySuffix).length = 60 := by
    have hsuffix : wsKeySuffix.length = 36 := rfl
    rw [List.length_append]
    omega
  have htext : 0 ∉ key := by
    intro hmem
    have hnone : (0 : UInt8) ∉ Base64.text := by decide
    exact hnone (hkey.text 0 hmem)
  rw [acceptValue_iff htext (by omega)]
  apply sha1AndBase64_whole_iff
  · omega
  · right
    omega

/-- The key that the client derives. -/
theorem clientKey_whole_iff (ip : Bytes) (port : UInt16) (uri : Bytes) {random : Bytes}
    (hrandom : random.length = 16) :
    (∃ key request, CWSClient.onConnectInternal ip port uri random = .ok (key, request) ∧
        key.length = 28 ∧ key = Base64.encode (Sha1.hash random)) ↔
      0 ∉ Sha1.hash random := by
  rw [← sha1AndBase64_whole_iff (by omega) (Or.inl (by omega))]
  constructor
  · rintro ⟨key, request, hcall, -, hkey⟩
    obtain ⟨p, hp, hcall⟩ := bind_eq_ok.mp hcall
    cases p with
    | none => cases hcall
    | some text =>
        cases hcall
        rw [hp, ← hkey]
  · intro hp
    refine ⟨Base64.encode (Sha1.hash random),
      generateWebsocketClientHandshake ip port uri (Base64.encode (Sha1.hash random)), ?_, ?_, rfl⟩
    · rw [CWSClient.onConnectInternal, hp]
      rfl
    · rw [Base64.length_encode, Sha1.length_hash]

/-- **Handshake digests.** The accept value of the response to a key, and the key that the client
derives from sixteen random bytes, are the encodings of the whole digests exactly when the digests
have no zero byte. -/
theorem handshakeDigests_whole_iff {key random : Bytes} (hkey : KeyText key)
    (hrandom : random.length = 16) (ip : Bytes) (port : UInt16) (uri : Bytes) :
    ((∃ response, generateWebsocketServerHandshake key = .ok response ∧
        acceptValue response = some (Base64.encode (Sha1.hash (key ++ wsKeySuffix)))) ↔
      0 ∉ Sha1.hash (key ++ wsKeySuffix)) ∧
    ((∃ key request, CWSClient.onConnectInternal ip port uri random = .ok (key, request) ∧
        key.length = 28 ∧ key = Base64.encode (Sha1.hash random)) ↔
      0 ∉ Sha1.hash random) :=
  ⟨acceptValue_whole_iff hkey, clientKey_whole_iff ip port uri hrandom⟩

/-- A key and random bytes whose digests have no zero byte. -/
theorem handshakeDigests_whole_iff_sample :
    (∃ response, generateWebsocketServerHandshake (ascii "dGhlIHNhbXBsZSBub25jZQ==") = .ok response ∧
      acceptValue response = some (ascii "s3pPLMBiTxaQ9kYGzzhZRbK+xOo=")) ∧
    (∃ key request, CWSClient.onConnectInternal (ascii "10.0.0.1") 80 (ascii "/")
        (List.replicate 16 0) = .ok (key, request) ∧ key.length = 28 ∧
      key = Base64.encode (Sha1.hash (List.replicate 16 0))) := by
  have hkey : KeyText (ascii "dGhlIHNhbXBsZSBub25jZQ==") :=
    ⟨by decide +kernel, by decide +kernel⟩
  have hvalue : Base64.encode (Sha1.hash (ascii "dGhlIHNhbXBsZSBub25jZQ==" ++ wsKeySuffix)) =
      ascii "s3pPLMBiTxaQ9kYGzzhZRbK+xOo=" := by decide +kernel
  rw [← hvalue]
  have hwhole := handshakeDigests_whole_iff hkey (List.length_replicate (n := 16) (a := (0 : UInt8)))
    (ascii "10.0.0.1") 80 (ascii "/")
  exact ⟨hwhole.1.mpr (by decide +kernel), hwhole.2.mpr (by decide +kernel)⟩

/-- The digest for this key ends with a zero byte, so the accept value encodes nineteen bytes; the
digest of these random bytes begins with one, so the key is a null pointer. -/
theorem digest_cut_at_zero :
    KeyText (ascii "AAAAAAAAAAAAAAAAAAAADg==") ∧
    ((generateWebsocketServerHandshake (ascii "AAAAAAAAAAAAAAAAAAAADg==")).map acceptValue =
        .ok (some (ascii "2hQNe2A6apmN/ve6xTsSExajZw==")) ∧
      Base64.encode (Sha1.hash (ascii "AAAAAAAAAAAAAAAAAAAADg==" ++ wsKeySuffix)) =
        ascii "2hQNe2A6apmN/ve6xTsSExajZwA=") ∧
    sha1AndBase64 (List.replicate 15 0 ++ [172]) = .ok none ∧
    (¬ ∃ response, generateWebsocketServerHandshake (ascii "AAAAAAAAAAAAAAAAAAAADg==") =
        .ok response ∧ acceptValue response =
          some (Base64.encode (Sha1.hash (ascii "AAAAAAAAAAAAAAAAAAAADg==" ++ wsKeySuffix)))) ∧
    ¬ ∃ key request, CWSClient.onConnectInternal (ascii "10.0.0.1") 80 (ascii "/")
        (List.replicate 15 0 ++ [172]) = .ok (key, request) ∧ key.length = 28 ∧
      key = Base64.encode (Sha1.hash (List.replicate 15 0 ++ [172])) := by
  have hcut : (generateWebsocketServerHandshake (ascii "AAAAAAAAAAAAAAAAAAAADg==")).map acceptValue =
      .ok (some (ascii "2hQNe2A6apmN/ve6xTsSExajZw==")) := by decide +kernel
  have hwhole : Base64.encode (Sha1.hash (ascii "AAAAAAAAAAAAAAAAAAAADg==" ++ wsKeySuffix)) =
      ascii "2hQNe2A6apmN/ve6xTsSExajZwA=" := by decide +kernel
  have hnull : sha1AndBase64 (List.replicate 15 0 ++ [172]) = .ok none := by decide +kernel
  refine ⟨⟨by decide +kernel, by decide +kernel⟩, ⟨hcut, hwhole⟩, hnull, ?_, ?_⟩
  · rintro ⟨response, hcall, haccept⟩
    rw [hcall, Except.map, haccept, hwhole] at hcut
    revert hcut
    decide
  · rintro ⟨key, request, hcall, -, -⟩
    rw [CWSClient.onConnectInternal, hnull] at hcall
    cases hcall

end AnotherWs
