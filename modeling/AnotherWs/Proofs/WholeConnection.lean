/-
Module: AnotherWs.Proofs.WholeConnection
Purpose: A whole connection, opening handshake and frames, as the chunks it arrives in. The handshake is
  not buffered: where the chunks are cut decides what the application hears.
Trusted boundary: none
Main exports: CWSServer.hears_iff, CWSClient.Greeting.hears_iff, Waiting, Waiting.Hears,
  Waiting.Completes, wholeConnection_iff, Waiting.hears_boundary, handshake_is_not_buffered
-/
import AnotherWs.Proofs.HeaderLookup
import AnotherWs.Proofs.Listener

namespace AnotherWs

open Framing Machines

/-! ### The server -/

namespace CWSServer

/-- The handle on which the receive loop starts. -/
def openedHandle : WebsocketHandle :=
  { newHandle .server with protoBuf := (membufInit 128).setFlag flagWebsocket }

/-- The server tells of a connection when the first chunk holds a whole head with a key that can be
answered, and tells the messages of what follows that chunk. -/
theorem hears_iff {chunks : List Chunk} {messages : List Bytes} :
    listener.Hears .accepted chunks (.connect :: messages.map Heard.message) ↔
      ∃ first rest key, chunks = first :: rest ∧ headValue keyField first.data = some key ∧
        key.length < 64 ∧ Carries (Chunk.stream rest) messages := by
  have hstanding : ∀ s : ServerConnection,
      s.peer = { accepted with data := some openedHandle } → listener.standing s openedHandle := by
    intro s hpeer
    show s.peer.state = _ ∧ s.peer.loopData = _ ∧ s.peer.data = _ ∧ _
    rw [hpeer]
    exact ⟨rfl, rfl, rfl, by decide⟩
  have hsized : openedHandle.Sized :=
    ⟨⟨7, by omega, rfl⟩, ⟨7, by omega, rfl⟩⟩
  cases chunks with
  | nil =>
      rw [Listener.hears_nil]
      exact ⟨nofun, by rintro ⟨first, rest, key, h, -⟩; cases h⟩
  | cons c chunks =>
      have hhead : parseHttpHeads c.read.base keyField = .ok (headValue keyField c.data) :=
        parseHttpHeads_eq c.data keyField c.room
      constructor
      · intro hears
        obtain ⟨mid, first, more, hstep, hfirst, htold, hmore⟩ := hears.first rfl
        obtain ⟨-, calls, hread, happend⟩ := @ServerConnection.step_read .accepted mid c.read hstep
        have hcalls : first = calls := List.append_cancel_left (hfirst.symm.trans happend)
        have hpositive := c.read_pos
        cases onRead_cases rfl hread with
        | frames positive done => exact absurd (by decide) done
        | accepted positive undone key response head answer peer_eq calls_eq =>
            rw [hhead, Except.ok.injEq] at head
            have hshort := (generateWebsocketServerHandshake_isOk_iff (headValue_text head)).mp
              ⟨response, answer⟩
            rw [hcalls, calls_eq] at htold
            injection htold with _ htold
            rw [← show messages.map Heard.message = more from htold] at hmore
            exact ⟨c, chunks, key, rfl, head, hshort,
              (listener.hears_iff_carries (hstanding mid peer_eq) rfl rfl hsized).mp hmore⟩
        | refused positive undone head peer_eq calls_eq =>
            rw [hcalls, calls_eq] at htold
            injection htold with hclosed
            cases hclosed
        | nothing zero => omega
        | failed negative => omega
      · rintro ⟨_, _, key, h, hkey, hshort, hcarries⟩
        cases h
        obtain ⟨response, hanswer⟩ :=
          (generateWebsocketServerHandshake_isOk_iff (headValue_text hkey)).mpr hshort
        have hread := @onRead_accepts accepted _ _ _ rfl c.read_pos (by decide) (hkey ▸ hhead) hanswer
        have hstep := ServerConnection.step_of_onRead (s := .accepted) rfl hread
        rw [Listener.hears_cons_iff rfl hstep rfl]
        exact ⟨_, rfl, (listener.hears_iff_carries (hstanding _ rfl) rfl rfl hsized).mpr hcarries⟩

end CWSServer

/-! ### The client -/

namespace CWSClient

/-- The bytes alone show an accept value. -/
def Answers (data : Bytes) : Prop := ShowsValue acceptField (data.takeWhile (· ≠ 0))

/-- A client that waits for a response, and whose handle no chunk has reached. -/
structure Greeting (s : CWSClient) : Prop where
  reading : s.uvTcp.state = .reading
  owned : s.uvTcp.loopData = true
  handshaking : s.status = .handshaking
  fresh : handle s.uvTcp = newHandle .client

/-- A client right after a connect that has succeeded. -/
def Connected (s : CWSClient) : Prop :=
  ∃ before random, before.uvTcp.loopData = true ∧
    clientMachine.step before (.connected random) = some s

theorem Connected.greeting {s : CWSClient} (connected : Connected s) : Greeting s := by
  obtain ⟨before, random, howned, hstep⟩ := connected
  have hcase : StepCase before s (.connected random) := step_cases howned hstep
  cases hcase with
  | connected _ requested opened key request handshake s_eq =>
      rw [s_eq]
      exact ⟨rfl, howned, rfl, initBuffers_calloc .client⟩

/-- A chunk without an accept value goes by unheard. -/
theorem Greeting.hears_ignored {s : CWSClient} (greeting : Greeting s) {c : Chunk}
    (silent : ¬ Answers c.data) {chunks : List Chunk} {told : List Heard} :
    listener.Hears s (c :: chunks) told ↔ listener.Hears s.prepared chunks told := by
  have hhead : parseHttpHeads c.read.base acceptField = .ok (headValue acceptField c.data) :=
    parseHttpHeads_eq c.data acceptField c.room
  have hempty : headValue acceptField c.data = none ∨ headValue acceptField c.data = some [] := by
    cases hvalue : headValue acceptField c.data with
    | none => exact Or.inl rfl
    | some value =>
        right
        by_contra hne
        exact silent (headValue_readable_iff.mp ⟨value, hvalue, fun h => hne (congrArg some h)⟩)
  have hstep := step_of_onRead greeting.reading
    (onRead_ignored greeting.owned c.read_pos greeting.handshaking hhead hempty)
  rw [@Listener.hears_cons_iff _ _ listener.toListener _ _ _ _ _ greeting.owned [] hstep
    (List.append_nil _).symm]
  simp

/-- The first chunk that makes a head with an accept value is heard, and what follows it is read as
frames. -/
theorem Greeting.hears_answered {s : CWSClient} (greeting : Greeting s) {c : Chunk}
    (answers : Answers c.data) {chunks : List Chunk} {messages : List Bytes} :
    listener.Hears s (c :: chunks) (.connect :: messages.map Heard.message) ↔
      Carries (Chunk.stream chunks) messages := by
  obtain ⟨value, hvalue, hne⟩ := headValue_readable_iff.mpr answers
  have hhead : parseHttpHeads c.read.base acceptField = .ok (some value) := by
    rw [← hvalue]
    exact parseHttpHeads_eq c.data acceptField c.room
  have hstep := step_of_onRead greeting.reading
    (onRead_accepts greeting.owned c.read_pos greeting.handshaking hhead hne)
  have hstanding : listener.standing
      { s.prepared with status := .working, calls := s.calls ++ [.onConnect] } (newHandle .client) :=
    ⟨greeting.reading, greeting.owned, congrArg some greeting.fresh, rfl⟩
  rw [@Listener.hears_cons_iff _ _ listener.toListener _ _ _ _ _ greeting.owned [.onConnect] hstep rfl,
    ← listener.hears_iff_carries hstanding rfl (newHandle_allocated .client).mergeBuf_empty
      (newHandle_allocated .client).sized]
  constructor
  · rintro ⟨more, htold, hmore⟩
    injection htold with _ htold
    rwa [show messages.map Heard.message = more from htold]
  · intro hmore
    exact ⟨_, rfl, hmore⟩

/-- The client tells of a connection when one chunk alone makes a head with an accept value, drops the
chunks in front of it, and tells the messages of what follows. -/
theorem Greeting.hears_iff {s : CWSClient} (greeting : Greeting s) {chunks : List Chunk}
    {messages : List Bytes} :
    listener.Hears s chunks (.connect :: messages.map Heard.message) ↔
      ∃ before last rest, chunks = before ++ last :: rest ∧ (∀ c ∈ before, ¬ Answers c.data) ∧
        Answers last.data ∧ Carries (Chunk.stream rest) messages := by
  induction chunks generalizing s with
  | nil =>
      rw [Listener.hears_nil]
      exact ⟨nofun, by rintro ⟨before, last, rest, h, -⟩; simp at h⟩
  | cons c chunks ih =>
      by_cases hanswers : Answers c.data
      · rw [greeting.hears_answered hanswers]
        constructor
        · intro hcarries
          exact ⟨[], c, chunks, rfl, nofun, hanswers, hcarries⟩
        · rintro ⟨before, last, rest, h, hsilent, -, hcarries⟩
          cases before with
          | nil =>
              cases h
              exact hcarries
          | cons d before =>
              cases h
              exact absurd hanswers (hsilent c List.mem_cons_self)
      · have hprepared : Greeting s.prepared :=
          ⟨greeting.reading, greeting.owned, greeting.handshaking,
            (handle_prepared s).trans greeting.fresh⟩
        rw [greeting.hears_ignored hanswers, ih hprepared]
        constructor
        · rintro ⟨before, last, rest, rfl, hsilent, hlast, hcarries⟩
          exact ⟨c :: before, last, rest, rfl, List.forall_mem_cons.mpr ⟨hanswers, hsilent⟩, hlast,
            hcarries⟩
        · rintro ⟨before, last, rest, h, hsilent, hlast, hcarries⟩
          cases before with
          | nil =>
              cases h
              exact absurd hlast hanswers
          | cons d before =>
              cases h
              exact ⟨before, last, rest, rfl, fun c hc => hsilent c (List.mem_cons_of_mem _ hc), hlast,
                hcarries⟩

end CWSClient

/-! ### Both endpoints -/

/-- An endpoint that waits for the opening handshake of its peer: a connection that the server has just
accepted, or a client right after its connect. -/
inductive Waiting where
  | server
  | client (s : CWSClient) (connected : s.Connected)

namespace Waiting

/-- The field that the handshake has to have. -/
def name : Waiting → Bytes
  | .server => keyName
  | .client _ _ => acceptName

/-- What the endpoint looks for. -/
def field : Waiting → Bytes
  | .server => CWSServer.keyField
  | .client _ _ => CWSClient.acceptField

/-- What the application is told while the chunks arrive. -/
def Hears : Waiting → List Chunk → List Heard → Prop
  | .server => CWSServer.listener.Hears .accepted
  | .client s _ => CWSClient.listener.Hears s

/-- The chunks that are left when the endpoint takes the handshake as done. The server wants the
whole head in its first chunk, with the name of the field spelled as in the code and a key of less
than sixty-four characters behind it. The client waits for a chunk that shows an accept value by
itself, behind the name in the spelling of the code. -/
inductive Completes (head : Bytes) : Waiting → List Chunk → List Chunk → Prop where
  | server {first : Chunk} {rest : List Chunk} (whole : head <+: first.data)
      (spelled : CWSServer.keyField <:+: head)
      (short : ∀ key, headValue CWSServer.keyField first.data = some key → key.length < 64) :
      Completes head .server (first :: rest) rest
  | client {s : CWSClient} {connected : s.Connected} {before rest : List Chunk} {last : Chunk}
      (silent : ∀ c ∈ before, ¬ CWSClient.Answers c.data) (answers : CWSClient.Answers last.data) :
      Completes head (.client s connected) (before ++ last :: rest) rest

end Waiting

namespace OpeningHead

variable {name : Bytes} (head : OpeningHead name)

/-- The head without its empty line. -/
def text : Bytes := joinLines head.message.startLine head.message.headerLines

theorem bytes_eq : head.bytes = head.text ++ headEnd := by
  rw [bytes, HttpMessage.bytes, head.bodyless, List.append_nil, List.append_assoc]
  rfl

theorem terminated : 0 ∉ head.text ++ headEnd := by
  rw [List.mem_append, not_or]
  exact ⟨joinLines_terminated head.message.lines_text, by decide⟩

/-- The head ends where its text does, whatever follows. -/
theorem offset_bytes (behind : Bytes) :
    Search.offset headEnd ((head.bytes ++ behind).takeWhile (· ≠ 0)) = some head.text.length := by
  rw [bytes_eq, takeWhile_text head.terminated, List.append_assoc]
  exact offset_headEnd_joinLines _ head.message.lines_text head.message.headerLines_solid

/-- A pattern without a line break stands in the head when it stands in its text. -/
theorem infix_text_iff {pattern : Bytes} (onLine : 0x0d ∉ pattern ∧ 3 < pattern.length) :
    pattern <:+: head.bytes ↔ pattern <:+: head.text := by
  have hend : headEnd = 0x0d :: [0x0a, 0x0d, 0x0a] := rfl
  rw [bytes_eq, hend, Search.infix_append_cons_iff onLine.1 (List.ne_nil_of_length_pos (by omega)),
    or_iff_left]
  intro h
  have hle := h.length_le
  rw [show ([0x0a, 0x0d, 0x0a] : Bytes).length = 3 from rfl] at hle
  omega

/-- A chunk at the start of a connection has a value exactly when it holds the whole head and the
head holds the name. -/
theorem headValue_first {pattern : Bytes} (onLine : 0x0d ∉ pattern ∧ 3 < pattern.length)
    {data rest behind : Bytes} (cut : data ++ rest = head.bytes ++ behind) :
    (∃ value, headValue pattern data = some value) ↔
      head.bytes <+: data ∧ pattern <:+: head.bytes := by
  have hwhole : ∀ more, (∃ value, headValue pattern (head.bytes ++ more) = some value) ↔
      pattern <:+: head.bytes := by
    intro more
    have htext : (head.bytes ++ more).take head.text.length = head.text := by
      rw [bytes_eq, List.append_assoc, List.take_left]
    rw [head.infix_text_iff onLine, headValue, head.offset_bytes more, Option.bind_some, htext]
    cases hfound : Search.offset pattern head.text with
    | none => simp [Search.offset_eq_none_iff.mp hfound]
    | some j =>
        obtain ⟨front, after, hsplit, -⟩ := Search.offset_split hfound
        simp only [Option.map_some, Option.some.injEq, exists_eq', true_iff]
        exact ⟨front, after, hsplit.symm⟩
  constructor
  · rintro ⟨value, hvalue⟩
    have hin : head.bytes <+: data := by
      rcases List.prefix_or_prefix_of_prefix (List.prefix_append data rest)
        (cut ▸ List.prefix_append head.bytes behind) with hfront | hfront
      · by_cases hshort : data.length < head.bytes.length
        · rw [List.prefix_iff_eq_take.mp hfront, bytes_eq] at hvalue
          rw [bytes_eq] at hshort
          rw [headValue_unended] at hvalue
          · cases hvalue
          · have hunended := @HeadLines.unended_cut _ _ head.message.headLines_of data.length (by
              rw [List.append_assoc]
              exact hshort)
            rwa [List.append_assoc] at hunended
        · rw [hfront.eq_of_length_le (by omega)]
      · exact hfront
    obtain ⟨more, rfl⟩ := hin
    exact ⟨List.prefix_append _ _, (hwhole more).mp ⟨value, hvalue⟩⟩
  · rintro ⟨⟨more, rfl⟩, hspelled⟩
    exact (hwhole more).mpr hspelled

end OpeningHead

theorem keyField_onLine : 0x0d ∉ CWSServer.keyField ∧ 3 < CWSServer.keyField.length := by decide

/-- **The whole connection.** However a head and a conversation are cut, the application hears of the
connection once and then of exactly the messages, and nothing ends, exactly when the chunks complete the
handshake and those that are left carry the messages. -/
theorem wholeConnection_iff (w : Waiting) (head : OpeningHead w.name) (said : Conversation)
    {chunks : List Chunk} (cut : Chunk.stream chunks = head.bytes ++ said.bytes) :
    w.Hears chunks (.connect :: said.messages.map Heard.message) ↔
      ∃ rest, w.Completes head.bytes chunks rest ∧ Carries (Chunk.stream rest) said.messages := by
  cases w with
  | server =>
      rw [show Waiting.server.Hears = CWSServer.listener.Hears .accepted from rfl, CWSServer.hears_iff]
      constructor
      · rintro ⟨first, rest, key, rfl, hkey, hshort, hcarries⟩
        obtain ⟨hwhole, hspelled⟩ := (head.headValue_first keyField_onLine cut).mp ⟨key, hkey⟩
        refine ⟨rest, .server hwhole hspelled fun key' hkey' => ?_, hcarries⟩
        rw [hkey, Option.some.injEq] at hkey'
        rwa [← hkey']
      · rintro ⟨rest, @⟨first, _, hwhole, hspelled, hshort⟩, hcarries⟩
        obtain ⟨key, hkey⟩ := (head.headValue_first keyField_onLine cut).mpr ⟨hwhole, hspelled⟩
        exact ⟨first, rest, key, rfl, hkey, hshort key hkey, hcarries⟩
  | client s connected =>
      rw [show (Waiting.client s connected).Hears = CWSClient.listener.Hears s from rfl,
        connected.greeting.hears_iff]
      constructor
      · rintro ⟨before, last, rest, rfl, hsilent, hanswers, hcarries⟩
        exact ⟨rest, .client hsilent hanswers, hcarries⟩
      · rintro ⟨rest, hcompletes, hcarries⟩
        cases hcompletes with
        | client silent answers => exact ⟨_, _, rest, rfl, silent, answers, hcarries⟩

/-- **The cut at the boundary.** When the first chunk is a head with a value that the endpoint finds
and can answer, a conversation that fits is heard however the rest is cut. -/
theorem Waiting.hears_boundary (w : Waiting) {head value : Bytes} (said : Conversation)
    (fits : said.Fits) {first : Chunk} {rest : List Chunk} (boundary : first.data = head)
    (behind : Chunk.stream rest = said.bytes) (found : headValue w.field head = some value)
    (readable : value ≠ []) (short : w = .server → value.length < 64) :
    w.Hears (first :: rest) (.connect :: said.messages.map Heard.message) := by
  have hcarries : Carries (Chunk.stream rest) said.messages := by
    rw [behind]
    exact said.carries fits
  rw [← boundary] at found
  cases w with
  | server => exact CWSServer.hears_iff.mpr ⟨first, rest, value, rfl, found, short rfl, hcarries⟩
  | client s connected =>
      apply connected.greeting.hears_iff.mpr
      exact ⟨[], first, rest, rfl, nofun, headValue_readable_iff.mp ⟨value, found, readable⟩, hcarries⟩

/-! ### Samples -/

/-- A head of one field, with a space in front of its value. -/
def headWith {name spelling : Bytes} (same : sameName spelling name = true) (startLine value : Bytes)
    (isText : LineText startLine) (isName : FieldName spelling) (isValue : LineText value)
    (trimmed : (∀ c ∈ value.head?, c ≠ 0x20 ∧ c ≠ 0x09) ∧ ∀ c ∈ value.getLast?, c ≠ 0x20 ∧ c ≠ 0x09) :
    OpeningHead name where
  message := ⟨startLine, [⟨spelling, [0x20], value, [], isName, ows_space, ows_nil, isValue, trimmed⟩],
    [], isText, noBody_terminated⟩
  bodyless := rfl
  field := by simp [HttpMessage.lookup, same]

/-- A request with the key of the standard's example. -/
def sampleRequestHead : OpeningHead keyName :=
  headWith (by decide) (ascii "GET / HTTP/1.1") (ascii "dGhlIHNhbXBsZSBub25jZQ==") getLine_text
    fieldName_key (by decide) (trimmed_of_solid (by decide))

/-- The same request with the field in lower case. -/
def sampleLowerHead : OpeningHead keyName :=
  headWith (by decide) (ascii "GET / HTTP/1.1") (ascii "dGhlIHNhbXBsZSBub25jZQ==") getLine_text
    fieldName_lower (by decide) (trimmed_of_solid (by decide))

/-- A response. -/
def sampleResponseHead : OpeningHead acceptName :=
  headWith (by decide) (ascii "HTTP/1.1 101 Switching Protocols") (ascii "x") statusLine_text
    fieldName_accept (by decide) (trimmed_of_solid (by decide))

/-- One text message of one byte. -/
def sampleSaid : Conversation where
  pieces := [⟨true, 1, none, [0x61]⟩]
  msgs := [⟨false, ⟨none, [0x61]⟩, []⟩]
  begun := []
  unfinished := ⟨⟨false, ⟨none, [0x61]⟩, []⟩, _, _, rfl⟩
  interleaved := .frame _ .nil
  nonempty := by simp

theorem OpeningHead.bytes_ne_nil {name : Bytes} (head : OpeningHead name) : head.bytes ≠ [] := by
  rw [bytes_eq]
  exact List.append_ne_nil_of_right_ne_nil _ (List.cons_ne_nil _ _)

/-- The head in one chunk and the message in another. -/
def sampleBoundary {name : Bytes} (head : OpeningHead name) : List Chunk :=
  [⟨head.bytes, head.bytes_ne_nil, 0⟩, ⟨sampleSaid.bytes, by decide +kernel, 0⟩]

theorem sampleBoundary_stream {name : Bytes} (head : OpeningHead name) :
    Chunk.stream (sampleBoundary head) = head.bytes ++ sampleSaid.bytes := by
  rw [sampleBoundary, Chunk.stream_cons, Chunk.stream_cons, Chunk.stream_nil, List.append_nil]

theorem wholeConnection_iff_boundary :
    Waiting.server.Hears (sampleBoundary sampleRequestHead)
        (.connect :: sampleSaid.messages.map Heard.message) ↔
      ∃ rest, Waiting.server.Completes sampleRequestHead.bytes (sampleBoundary sampleRequestHead) rest ∧
        Carries (Chunk.stream rest) sampleSaid.messages :=
  wholeConnection_iff .server sampleRequestHead sampleSaid (sampleBoundary_stream sampleRequestHead)

/-- The first byte of the request comes alone. -/
def sampleCutInside : List Chunk :=
  [⟨(sampleRequestHead.bytes ++ sampleSaid.bytes).take 1, by decide +kernel, 0⟩,
    ⟨(sampleRequestHead.bytes ++ sampleSaid.bytes).drop 1, by decide +kernel, 0⟩]

/-- The head of the handshake and the message in one chunk. -/
def sampleCoalesced {name : Bytes} (head : OpeningHead name) : List Chunk :=
  [⟨head.bytes ++ sampleSaid.bytes, List.append_ne_nil_of_right_ne_nil _ (by decide +kernel), 0⟩]

/-- A request whose first byte comes alone closes the connection, and so does one that spells the
field in lower case; at both endpoints a message that comes with the end of the head is lost. -/
theorem handshake_is_not_buffered :
    (Chunk.stream sampleCutInside = sampleRequestHead.bytes ++ sampleSaid.bytes ∧
      ¬ Waiting.server.Hears sampleCutInside (.connect :: sampleSaid.messages.map Heard.message)) ∧
    (Chunk.stream (sampleBoundary sampleLowerHead) = sampleLowerHead.bytes ++ sampleSaid.bytes ∧
      ¬ Waiting.server.Hears (sampleBoundary sampleLowerHead)
        (.connect :: sampleSaid.messages.map Heard.message)) ∧
    (Chunk.stream (sampleCoalesced sampleRequestHead) = sampleRequestHead.bytes ++ sampleSaid.bytes ∧
      ¬ Waiting.server.Hears (sampleCoalesced sampleRequestHead)
        (.connect :: sampleSaid.messages.map Heard.message)) ∧
    (Chunk.stream (sampleCoalesced sampleResponseHead) = sampleResponseHead.bytes ++ sampleSaid.bytes ∧
      ∃ s, ∃ connected : s.Connected, ¬ (Waiting.client s connected).Hears
        (sampleCoalesced sampleResponseHead)
        (.connect :: sampleSaid.messages.map Heard.message)) := by
  have hlost : ¬ Carries (Chunk.stream []) sampleSaid.messages := by
    intro hcarries
    have hnone := hcarries.of_nil
    revert hnone
    decide +kernel
  have hwhole : ∀ {name : Bytes} (head : OpeningHead name),
      Chunk.stream (sampleCoalesced head) = head.bytes ++ sampleSaid.bytes := fun head =>
    List.append_nil _
  refine ⟨⟨?_, ?_⟩, ⟨sampleBoundary_stream _, ?_⟩, ⟨hwhole _, ?_⟩, hwhole _, ?_⟩
  · rw [sampleCutInside, Chunk.stream_cons, Chunk.stream_cons, Chunk.stream_nil, List.append_nil,
      List.take_append_drop]
  · intro hears
    obtain ⟨first, rest, key, hchunks, hkey, -, -⟩ := CWSServer.hears_iff.mp hears
    cases hchunks
    have hnone : headValue CWSServer.keyField
        ((sampleRequestHead.bytes ++ sampleSaid.bytes).take 1) = none := by decide +kernel
    rw [hnone] at hkey
    cases hkey
  · intro hears
    obtain ⟨first, rest, key, hchunks, hkey, -, -⟩ := CWSServer.hears_iff.mp hears
    cases hchunks
    have hnone : headValue CWSServer.keyField sampleLowerHead.bytes = none := by decide
    rw [hnone] at hkey
    cases hkey
  · intro hears
    obtain ⟨first, rest, key, hchunks, -, -, hcarries⟩ := CWSServer.hears_iff.mp hears
    cases hchunks
    exact hlost hcarries
  · obtain ⟨request, hconnect⟩ := CWSClient.sample_connects
    have hconnected : CWSClient.Connected (CWSClient.sampleConnected request) :=
      ⟨CWSClient.sample, List.replicate 16 0, rfl, hconnect⟩
    refine ⟨_, hconnected, ?_⟩
    intro hears
    obtain ⟨before, last, rest, hchunks, -, -, hcarries⟩ := hconnected.greeting.hears_iff.mp hears
    cases before with
    | nil =>
        cases hchunks
        exact hlost hcarries
    | cons c before =>
        injection hchunks with _ hnil
        simp at hnil

end AnotherWs
