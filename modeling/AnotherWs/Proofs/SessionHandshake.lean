/-
Module: AnotherWs.Proofs.SessionHandshake
Purpose: The handshake texts as the first thing on a stream: each ends with the first empty line in
  it, so a read that ends there has taken it whole. The key comes from sixteen random bytes.
Trusted boundary: none
Main exports: EndsHead, EndsHead.unique, request_endsHead, response_endsHead, sentKey_of_random
-/
import AnotherWs.Core.Session
import AnotherWs.Proofs.OwnHandshake

namespace AnotherWs

/-! ### Heads on a stream -/

/-- The bytes end with the first empty line in them. -/
def EndsHead (data : Bytes) : Prop :=
  (Search.offset headEnd data).map (fun n => n + headEnd.length) = some data.length

instance (data : Bytes) : Decidable (EndsHead data) := Option.instDecidableEq _ _

/-- A stream has one head at its front. -/
theorem EndsHead.unique {head head' rest rest' : Bytes} (ends : EndsHead head) (ends' : EndsHead head')
    (same : head ++ rest = head' ++ rest') : head = head' ∧ rest = rest' := by
  obtain ⟨n, hn, hlen⟩ := Option.map_eq_some_iff.mp ends
  obtain ⟨m, hm, hlen'⟩ := Option.map_eq_some_iff.mp ends'
  have hfound := Search.offset_append hn rest
  rw [same, Search.offset_append hm rest', Option.some.injEq] at hfound
  exact List.append_inj same (by omega)

theorem EndsHead.ne_nil {head : Bytes} (ends : EndsHead head) : head ≠ [] := by
  rintro rfl
  revert ends
  decide

/-- Lines and an empty line end at the empty line. -/
theorem HeadLines.endsHead {line : Bytes} {rest : List Bytes} (isHead : HeadLines line rest) :
    EndsHead (joinLines line rest ++ crlf ++ crlf) := by
  have hfound := (isHead.offset_headEnd_bytes (List.not_mem_nil (a := 0)) []).2.1
  rw [List.append_nil] at hfound
  have hend : headEnd.length = crlf.length + crlf.length := rfl
  rw [EndsHead, hfound, Option.map_some, hend, List.length_append, List.length_append, Nat.add_assoc]

/-- A request that fits into its buffer is a head. -/
theorem request_endsHead {ip path key : Bytes} (port : UInt16) (hip : LineText ip)
    (hpath : LineText path) (sent : SentKey key)
    (fits : path.length + ip.length + (toString port.toNat).length + key.length + 115 < handshakeSize) :
    EndsHead (generateWebsocketClientHandshake ip port path key) := by
  have hlen := length_request port ip path key
  rw [generateWebsocketClientHandshake_eq, List.take_of_length_le (by omega)]
  exact (request_headLines port hip hpath sent).endsHead

/-- The value of a field in a head, whatever the buffer holds behind the head and in front of a zero. -/
theorem HeadLines.reads_field_before {line name value : Bytes} {front after : List Bytes}
    (isHead : HeadLines line (front ++ (name ++ 0x20 :: value) :: after)) (nonempty : name ≠ [])
    (text : LineText name) (missing : ∀ l ∈ line :: front, ¬ name <:+: l) (visible : Visible value)
    (some_value : value ≠ []) {behind : Bytes} (terminated : 0 ∈ behind) :
    parseHttpHeads (joinLines line (front ++ (name ++ 0x20 :: value) :: after) ++ crlf ++ crlf ++
      behind)
      name = .ok (some value) := by
  obtain ⟨body, residue, rfl, hbody⟩ := List.eq_append_cons_of_mem terminated
  have hfound : Search.offset name (name ++ 0x20 :: value) = some 0 :=
    Search.offset_of_isPrefix (List.prefix_append _ _)
  have hhere := @FirstIn.here name _ after 0 hfound
  rw [Nat.zero_add, List.drop_left] at hhere
  have hfirst : FirstIn name (line :: (front ++ (name ++ 0x20 :: value) :: after)) (0x20 :: value)
      after := FirstIn.append missing hhere
  -- what is behind the head does not change what is read of a line that holds text
  have hsame : readBehind body (0x20 :: value) after = readBehind [] (0x20 :: value) after := by
    cases after <;> rfl
  have hzeros := isHead.parseHttpHeads_first (List.not_mem_nil (a := 0)) nonempty text [] hfirst
  have hread := isHead.parseHttpHeads_first hbody nonempty text residue hfirst
  rw [List.append_nil] at hzeros
  rw [← List.append_assoc, hread, hsame, ← hzeros]
  exact isHead.reads_field nonempty text missing visible some_value 0

/-- The lines of a response behind its status line. -/
def responseFields (value : Bytes) : List Bytes :=
  [ascii "Upgrade: websocket", ascii "Connection: Upgrade"] ++
    (CWSClient.acceptField ++ 0x20 :: value) :: []

theorem response_headLines {value : Bytes} (visible : Visible value) :
    HeadLines (ascii "HTTP/1.1 101 Switching Protocols") (responseFields value) := by
  have htexts : LineText (ascii "HTTP/1.1 101 Switching Protocols") ∧
      LineText (ascii "Upgrade: websocket") ∧ LineText (ascii "Connection: Upgrade") ∧
      LineText CWSClient.acceptField ∧ LineText [0x20] := by decide
  obtain ⟨hstatus, hupgrade, hconnection, haccept, hspace⟩ := htexts
  constructor
  · refine List.forall_mem_cons.mpr ⟨hstatus, List.forall_mem_cons.mpr ⟨hupgrade, ?_⟩⟩
    refine List.forall_mem_cons.mpr ⟨hconnection, List.forall_mem_singleton.mpr ?_⟩
    exact haccept.append (hspace.append visible.lineText)
  · refine List.forall_mem_cons.mpr ⟨solid_of_head rfl, ?_⟩
    refine List.forall_mem_cons.mpr ⟨solid_of_head rfl, ?_⟩
    exact List.forall_mem_singleton.mpr (solid_append rfl _)

/-- A response with a short value is its lines. -/
theorem response_lines {value : Bytes} (short : value.length ≤ 900) :
    snprintfHandshake (acceptHead ++ value ++ ascii "\r\n" ++ ascii "\r\n") =
      joinLines (ascii "HTTP/1.1 101 Switching Protocols") (responseFields value) ++ crlf ++ crlf := by
  have hfield : ascii "Sec-WebSocket-Accept: " = CWSClient.acceptField ++ [0x20] := rfl
  rw [snprintfHandshake_response short, hfield]
  simp only [responseFields, joinLines, List.cons_append, List.nil_append, List.append_assoc]

/-- What the server answers to a key is a head with an accept value that the client reads, whatever
its buffer holds behind the head and in front of a zero. -/
theorem response_endsHead {key response : Bytes} (sent : SentKey key)
    (answer : generateWebsocketServerHandshake key = .ok response) :
    EndsHead response ∧ response.length < handshakeSize ∧
      ∀ behind, 0 ∈ behind → ∃ value, value ≠ [] ∧
        parseHttpHeads (response ++ behind) CWSClient.acceptField = .ok (some value) := by
  obtain ⟨p, text, hp, rfl, hanswer, -⟩ := sent.responseUnderstood
  rw [hanswer, Except.ok.injEq] at answer
  subst answer
  have hshort := sent.short
  have hsuffix : wsKeySuffix.length = 36 := rfl
  rw [sha1AndBase64_eq (by rw [List.length_append]; omega), Except.ok.injEq] at hp
  obtain ⟨-, hlength⟩ := formatString_plain (length_takeWhile_finalBuf (key ++ wsKeySuffix))
  obtain ⟨hvisible, hnonempty⟩ :=
    formatString_visible ((finalBuf (key ++ wsKeySuffix)).takeWhile (· ≠ 0))
  rw [hp] at hlength hvisible hnonempty
  have hhead := response_headLines hvisible
  refine ⟨?_, ?_, fun behind terminated => ⟨_, hnonempty, ?_⟩⟩
  · rw [response_lines hlength]
    exact hhead.endsHead
  · have hcut := List.length_take_le (handshakeSize - 1)
      (acceptHead ++ formatString p ++ ascii "\r\n" ++ ascii "\r\n")
    rw [snprintfHandshake]
    exact Nat.lt_of_le_of_lt hcut (by decide)
  · rw [response_lines hlength]
    exact hhead.reads_field_before (by decide) (by decide) (by decide) hvisible hnonempty terminated

/-! ### The key -/

/-- The key of a connect, when there is one, is short text. -/
theorem sentKey_of_random {ip uri random key request : Bytes} {port : UInt16}
    (sixteen : random.length = 16)
    (call : CWSClient.onConnectInternal ip port uri random = .ok (key, request)) :
    SentKey key ∧ key.length ≤ 28 ∧ request = generateWebsocketClientHandshake ip port uri key := by
  rw [CWSClient.onConnectInternal, sha1AndBase64_eq (by omega),
    takeWhile_digest (Or.inl (by omega)), ok_bind] at call
  unfold encodeText at call
  split at call
  · rename_i p hnone
    cases call
  · rename_i p key' hkey
    cases call
    split at hkey
    · cases hkey
    · rename_i hdigest
      cases hkey
      have hle : ((Sha1.hash random).takeWhile (· ≠ 0)).length ≤ 20 := by
        rw [← Sha1.length_hash random]
        exact (List.takeWhile_prefix _).length_le
      have hpos := List.length_pos_iff.mpr hdigest
      have hlen := Base64.length_encode ((Sha1.hash random).takeWhile (· ≠ 0))
      have hshort : (Base64.encode ((Sha1.hash random).takeWhile (· ≠ 0))).length ≤ 28 := by
        rw [hlen]
        omega
      refine ⟨⟨?_, by omega, Base64.encode_text _⟩, hshort, rfl⟩
      intro hnil
      rw [hnil, List.length_nil] at hlen
      omega

end AnotherWs
