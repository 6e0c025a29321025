/-
Module: AnotherWs.Proofs.Session
Purpose: A client and a server over one connection, each with its handles. In whatever order they
  read, send and empty the handles, and however the bytes between them are cut, each application
  hears of the connection once and then of the messages of the other one, in the order in which they
  were sent, as long as the handles that a message gets come after those still filled; and nothing
  stays on the way or in a handle for good.
Trusted boundary: none
Main exports: Orderly, Hearing, session_delivers, OrderlyDelivery, Session.Complete, session_completes
-/
import AnotherWs.Proofs.SessionEnds

namespace AnotherWs

open Framing Machines

/-- During the handshake, reads take exactly a head, and the buffer of the client holds a zero
behind it. The applications send messages, once they have been told of the connection, and the
handles for a message come after those that are still filled. A client draws sixteen random bytes. -/
def Orderly (s : Session) : SessionAction → Prop
  | .leftReads n behind => s.left.MayRead behind (s.toLeft.pending.take n)
  | .rightReads n () => s.right.MayRead () (s.toRight.pending.take n)
  | .leftActs a => s.left.MayAct a
  | .rightActs a => s.right.MayAct a

/-- An application has been told nothing, or of the connection and of the first messages of its
peer; of all of them when things are settled. It has been told of an end only if its stream is no
longer open. -/
def Hearing (state : HandleState) (calls : List Call) (said : List (UInt8 × Bytes))
    (settled : Prop) : Prop :=
  ∃ told heard, HasTold state calls told ∧ heard <+: said ∧ (settled → heard = said) ∧
    (told = [] ∧ heard = [] ∨ told = .connect :: heard.map fun m => .message m.2)

/-- The stream of the client is open, and neither its handles nor the stream hold anything for the
server. -/
def Session.SettledRight (s : Session) : Prop :=
  s.left.client.uvTcp.state = .reading ∧ s.left.sends.pool.contents = [] ∧ s.toRight.pending = []

/-- The stream of the server is open, and neither its handles nor the stream hold anything for the
client. -/
def Session.SettledLeft (s : Session) : Prop :=
  s.right.connection.peer.state = .reading ∧ s.right.sends.pool.contents = [] ∧ s.toLeft.pending = []

/-- What has been said is the front of what was sent, and all of it when things are settled. -/
theorem Hearing.of_front {state : HandleState} {calls : List Call} {said sent : List (UInt8 × Bytes)}
    {all settled : Prop} (hearing : Hearing state calls said all) (front : said <+: sent)
    (settles : settled → all ∧ said = sent) : Hearing state calls sent settled := by
  obtain ⟨told, heard, htold, hfront, hall, hcases⟩ := hearing
  refine ⟨told, heard, htold, hfront.trans front, fun hsettled => ?_, hcases⟩
  obtain ⟨hdone, hsame⟩ := settles hsettled
  exact (hall hdone).trans hsame

/-- What has been heard is the front of what was said. -/
theorem hearing_of_heardOf {v : HandleView} (fresh : v.merge = []) {state : HandleState}
    {calls : List Call} {said : List (UInt8 × Bytes)} {x pending : Bytes}
    (told : HasTold state calls (heardOf v x)) (sendable : ∀ m ∈ said, Sendable m)
    (cut : x ++ pending = wireOf said) : Hearing state calls said (pending = []) := by
  obtain ⟨heard, hfront, hall, hdata⟩ := carries_front sendable cut
  obtain ⟨-, -, -, hpayloads⟩ := (carries_iff fresh).mp hdata.carries
  refine ⟨_, heard, told, hfront, hall, Or.inr ?_⟩
  rw [heardOf, hpayloads, List.map_map]
  rfl

/-- When things are settled, an application that has been told of the connection has been told
everything. -/
theorem Hearing.all {calls : List Call} {said : List (UInt8 × Bytes)} {settled : Prop}
    (hearing : Hearing .reading calls said settled) (done : settled) (connected : .onConnect ∈ calls) :
    calls.flatMap Call.heard = .connect :: said.map fun m => .message m.2 := by
  obtain ⟨told, heard, htold, -, hall, hcases⟩ := hearing
  have hconnect := htold.onConnect_iff.mp connected
  obtain ⟨ends, hcalls, hzero⟩ := htold
  rw [hzero rfl, List.replicate_zero, List.append_nil] at hcalls
  rcases hcases with ⟨rfl, -⟩ | rfl
  · exact absurd hconnect List.not_mem_nil
  · rw [hcalls, hall done]

/-! ### Both sides -/

theorem ClientSide.written {ip uri : Bytes} {port : UInt16} {e : DirectClient} {x y : Bytes}
    (side : ClientSide ip port uri e x y) :
    y = [] ∧ e.said = [] ∨ ∃ key, SentKey key ∧ key.length ≤ 28 ∧ (∀ m ∈ e.said, Sendable m) ∧
      y = generateWebsocketClientHandshake ip port uri key ++ wireOf e.said := by
  cases side with
  | idle owned ip_eq port_eq uri_eq closed callbacks requests handshaking silent said_eq =>
      exact Or.inl ⟨rfl, said_eq⟩
  | @asks key owned requests handshaking sent short greeting told said_eq =>
      refine Or.inr ⟨key, sent, short, ?_, ?_⟩
      · rw [said_eq]
        exact fun m hm => absurd hm List.not_mem_nil
      · rw [said_eq, show wireOf [] = [] from rfl, List.append_nil]
  | @works key head x owned requests working sent short ends follows told sendable =>
      exact Or.inr ⟨key, sent, short, sendable, rfl⟩

theorem ServerSide.written {e : DirectServer} {x y : Bytes} (side : ServerSide e x y) :
    y = [] ∧ e.said = [] ∨ ∃ key response, SentKey key ∧
      generateWebsocketServerHandshake key = .ok response ∧ (∀ m ∈ e.said, Sendable m) ∧
      y = response ++ wireOf e.said := by
  cases side with
  | waits owned fresh told said_eq => exact Or.inl ⟨rfl, said_eq⟩
  | @opened key response head x owned sent answer ends follows told sendable =>
      exact Or.inr ⟨key, response, sent, answer, sendable, rfl⟩

theorem ClientSide.promises {ip uri : Bytes} {port : UInt16} {e : DirectClient} {x y : Bytes}
    (side : ClientSide ip port uri e x y) : FromClient ip port uri y := by
  rcases side.written with ⟨hnil, -⟩ | ⟨key, hkey, hshort, hsendable, hy⟩
  · exact Or.inl hnil
  · exact Or.inr ⟨key, e.said, hkey, hshort, hsendable, hy⟩

theorem ServerSide.promises {e : DirectServer} {x y : Bytes} (side : ServerSide e x y) :
    FromServer y := by
  rcases side.written with ⟨hnil, -⟩ | ⟨key, response, hkey, hanswer, hsendable, hy⟩
  · exact Or.inl hnil
  · exact Or.inr ⟨key, response, e.said, hkey, hanswer, hsendable, hy⟩

/-- A client with an open stream waits for its answer, or has it. -/
theorem ClientSide.phase {ip uri : Bytes} {port : UInt16} {e : DirectClient} {x y : Bytes}
    (side : ClientSide ip port uri e x y) (reading : e.client.uvTcp.state = .reading) :
    (x = [] ∧ ∃ key, SentKey key ∧ key.length ≤ 28 ∧
        y = generateWebsocketClientHandshake ip port uri key) ∨
      (x ≠ [] ∧ e.client.status = .working ∧ .onConnect ∈ e.client.calls) := by
  cases side with
  | idle owned ip_eq port_eq uri_eq closed => rw [closed] at reading; cases reading
  | @asks key owned requests handshaking sent short => exact Or.inl ⟨rfl, key, sent, short, rfl⟩
  | @works key head x owned requests working sent short ends follows told sendable =>
      exact Or.inr ⟨List.append_ne_nil_of_left_ne_nil ends.ne_nil x, working,
        told.onConnect_iff.mpr List.mem_cons_self⟩

/-- The server waits for a request, or has told of the connection. -/
theorem ServerSide.phase {e : DirectServer} {x y : Bytes} (side : ServerSide e x y) :
    (x = [] ∧ y = [] ∧ .onConnect ∉ e.connection.calls) ∨ y ≠ [] ∧ .onConnect ∈ e.connection.calls := by
  cases side with
  | waits owned fresh told said_eq =>
      exact Or.inl ⟨rfl, rfl, fun h => absurd (told.onConnect_iff.mp h) List.not_mem_nil⟩
  | opened owned sent answer ends follows told sendable =>
      exact Or.inr ⟨List.append_ne_nil_of_left_ne_nil (response_endsHead sent answer).1.ne_nil _,
        told.onConnect_iff.mpr List.mem_cons_self⟩

section Sides

variable {ip uri : Bytes} {port : UInt16} (hip : PlainText ip) (huri : PlainText uri)
  (fits : RequestFits ip port uri)

/-- Both sides of a session at its start. -/
theorem agree_init (reconnect : Bool) {clientSize serverSize : Nat}
    (handles : 0 < clientSize ∧ 0 < serverSize) :
    Link.Agree (clientContract ip port uri) (serverContract hip huri fits)
      (Session.init ip port uri reconnect clientSize serverSize) := by
  constructor
  · refine ⟨⟨(CWSClient.constructed ip port uri reconnect).startup, []⟩, [], ⟨rfl, List.prefix_refl _,
      fun _ => ⟨rfl, queued_init _ _, handles.1, (queued_init _ _).held_of_untouched rfl, ?_,
        fun _ => rfl⟩⟩, ?_⟩
    · cases reconnect <;> exact ⟨fun h => absurd h Bool.false_ne_true, fun h => by cases h⟩
    · cases reconnect
      · exact .idle rfl rfl rfl rfl rfl rfl (Nat.le_refl 1) rfl rfl rfl
      · exact .idle rfl rfl rfl rfl rfl rfl (Nat.le_refl 1) rfl rfl rfl
  · refine ⟨⟨.accepted, []⟩, [], ⟨rfl, List.prefix_refl _,
      fun _ => ⟨rfl, queued_init _ _, handles.2, (queued_init _ _).held_of_untouched rfl,
        ⟨fun _ => rfl, fun _ => rfl⟩, fun _ => rfl⟩⟩, ?_⟩
    exact .waits rfl (fun _ => initBuffers_calloc .server) ⟨0, rfl, fun _ => rfl⟩ rfl

/-- Orderly actions come at the time that the contracts rely on. -/
theorem Orderly.inTime {s : Session} {a : SessionAction} (orderly : Orderly s a) :
    Link.InTime (clientContract ip port uri) (serverContract hip huri fits) s a := by
  cases a with
  | leftReads n r | rightReads n r | leftActs a | rightActs a => exact orderly

/-- One orderly step keeps both contracts. -/
theorem agree_step {s s' : Session} {a : SessionAction}
    (agree : Link.Agree (clientContract ip port uri) (serverContract hip huri fits) s)
    (orderly : Orderly s a) (step : sessionMachine.step s a = some s') :
    Link.Agree (clientContract ip port uri) (serverContract hip huri fits) s' :=
  agree.step (Buffering.promises ServerSide.promises) (Buffering.promises ClientSide.promises)
    (orderly.inTime hip huri fits) step

/-- An orderly run keeps both contracts. -/
theorem agree_of_run {s s' : Session} {actions : List SessionAction}
    (agree : Link.Agree (clientContract ip port uri) (serverContract hip huri fits) s)
    (orderly : sessionMachine.Guarded Orderly s actions)
    (run : sessionMachine.exec s actions = some s') :
    Link.Agree (clientContract ip port uri) (serverContract hip huri fits) s' :=
  Link.agree_of_run (Buffering.promises ServerSide.promises)
    (Buffering.promises ClientSide.promises) agree
    (orderly.mono fun _ _ h => h.inTime hip huri fits) run

/-- Both contracts hold in every orderly run from the start. -/
theorem agree_of_session {reconnect : Bool} {clientSize serverSize : Nat}
    (handles : 0 < clientSize ∧ 0 < serverSize) {actions : List SessionAction} {s : Session}
    (run : sessionMachine.exec (Session.init ip port uri reconnect clientSize serverSize) actions =
      some s)
    (orderly : sessionMachine.Guarded Orderly (Session.init ip port uri reconnect clientSize serverSize)
      actions) :
    Link.Agree (clientContract ip port uri) (serverContract hip huri fits) s :=
  agree_of_run hip huri fits (agree_init hip huri fits reconnect handles) orderly run

include hip huri fits

/-- The request is a head. -/
theorem RequestFits.endsHead {key : Bytes} (sent : SentKey key) (short : key.length ≤ 28) :
    EndsHead (generateWebsocketClientHandshake ip port uri key) := by
  apply request_endsHead port hip.1 huri.1 sent
  unfold RequestFits at fits
  omega

/-- What the application of the server is told. -/
theorem ServerSide.hears {e : DirectServer} {c : DirectClient} {x y x' y' pending : Bytes}
    (server : ServerSide e x y) (client : ClientSide ip port uri c x' y') (cut : x ++ pending = y') :
    Hearing e.connection.peer.state e.connection.calls c.said (pending = []) := by
  cases server with
  | waits owned fresh told said_eq =>
      refine ⟨[], [], told, List.nil_prefix, fun hnone => ?_, Or.inl ⟨rfl, rfl⟩⟩
      rw [hnone, List.append_nil] at cut
      rcases client.written with ⟨-, hsaid⟩ | ⟨key, hkey, hshort, -, hy⟩
      · exact hsaid.symm
      · rw [← cut] at hy
        exact absurd (List.append_eq_nil_iff.mp hy.symm).1 (fits.endsHead hip huri hkey hshort).ne_nil
  | @opened key response head x owned sent answer ends follows told sendable =>
      rw [List.append_assoc] at cut
      rcases client.written with ⟨hnil, -⟩ | ⟨key', hkey, hshort, hsendable, hy⟩
      · rw [hnil] at cut
        exact absurd (List.append_eq_nil_iff.mp cut).1 ends.ne_nil
      · obtain ⟨-, hbehind⟩ := ends.unique (fits.endsHead hip huri hkey hshort) (cut.trans hy)
        exact hearing_of_heardOf rfl told hsendable hbehind

omit hip huri fits

/-- What the application of the client is told. -/
theorem ClientSide.hears {c : DirectClient} {e : DirectServer} {x y x' y' pending : Bytes}
    (client : ClientSide ip port uri c x y) (server : ServerSide e x' y') (cut : x ++ pending = y') :
    Hearing c.client.uvTcp.state c.client.calls e.said (pending = []) := by
  have hwaiting : HasTold c.client.uvTcp.state c.client.calls [] → x = [] →
      Hearing c.client.uvTcp.state c.client.calls e.said (pending = []) := by
    intro told hx
    refine ⟨[], [], told, List.nil_prefix, fun hnone => ?_, Or.inl ⟨rfl, rfl⟩⟩
    rw [hx, hnone, List.append_nil] at cut
    rcases server.written with ⟨-, hsaid⟩ | ⟨key, response, hkey, hanswer, -, hy⟩
    · exact hsaid.symm
    · rw [← cut] at hy
      exact absurd (List.append_eq_nil_iff.mp hy.symm).1 (response_endsHead hkey hanswer).1.ne_nil
  cases client with
  | idle owned ip_eq port_eq uri_eq closed callbacks requests handshaking silent said_eq =>
      exact hwaiting ⟨0, by rw [silent]; rfl, fun _ => rfl⟩ rfl
  | asks owned requests handshaking sent short greeting told said_eq => exact hwaiting told rfl
  | @works key head x owned requests working sent short ends follows told sendable =>
      rw [List.append_assoc] at cut
      rcases server.written with ⟨hnil, -⟩ | ⟨key', response, hkey, hanswer, hsendable, hy⟩
      · rw [hnil] at cut
        exact absurd (List.append_eq_nil_iff.mp cut).1 ends.ne_nil
      · obtain ⟨-, hbehind⟩ := ends.unique (response_endsHead hkey hanswer).1 (cut.trans hy)
        exact hearing_of_heardOf (newHandle_allocated .client).mergeBuf_empty told hsendable hbehind

include hip huri fits

/-- What both applications are told where both contracts hold. -/
theorem hearing_of_agree {s : Session}
    (agree : Link.Agree (clientContract ip port uri) (serverContract hip huri fits) s) :
    Hearing s.right.connection.peer.state s.right.connection.calls s.left.said s.SettledRight ∧
      Hearing s.left.client.uvTcp.state s.left.client.calls s.right.said s.SettledLeft := by
  obtain ⟨⟨c, held, hclient, client⟩, d, held', hserver, server⟩ := agree
  have hright := server.hears hip huri fits client (List.append_assoc _ s.toRight.pending held).symm
  have hleft := client.hears server (List.append_assoc _ s.toLeft.pending held').symm
  rw [hserver.connection_eq] at hright
  rw [hclient.client_eq] at hleft
  refine ⟨hright.of_front hclient.behind.front ?_, hleft.of_front hserver.behind.front ?_⟩
  · rintro ⟨hopen, hempty, hnone⟩
    obtain ⟨hsaid, hheld⟩ := hclient.behind.settled hopen hempty
    rw [hnone, hheld]
    exact ⟨rfl, hsaid⟩
  · rintro ⟨hopen, hempty, hnone⟩
    obtain ⟨hsaid, hheld⟩ := hserver.behind.settled hopen hempty
    rw [hnone, hheld]
    exact ⟨rfl, hsaid⟩

end Sides

/-- **Delivery.** In every orderly run, each application has heard of the connection once and then
of the first messages of the other, in the order in which they were sent; of all of them when none
is in a handle or on the way from a stream that is still open. -/
theorem session_delivers {ip uri : Bytes} {port : UInt16} {reconnect : Bool}
    {clientSize serverSize : Nat}
    (hip : PlainText ip) (huri : PlainText uri) (fits : RequestFits ip port uri)
    (handles : 0 < clientSize ∧ 0 < serverSize) {actions : List SessionAction} {s : Session}
    (run : sessionMachine.exec (Session.init ip port uri reconnect clientSize serverSize) actions =
      some s)
    (orderly : sessionMachine.Guarded Orderly (Session.init ip port uri reconnect clientSize serverSize)
      actions) :
    Hearing s.right.connection.peer.state s.right.connection.calls s.left.said s.SettledRight ∧
      Hearing s.left.client.uvTcp.state s.left.client.calls s.right.said s.SettledLeft :=
  hearing_of_agree hip huri fits (agree_of_session hip huri fits handles run orderly)

/-! ### Nothing stays on the way -/

/-- Both streams are open. -/
def Session.Open (s : Session) : Prop :=
  s.left.client.uvTcp.state = .reading ∧ s.right.connection.peer.state = .reading

/-- An orderly read of either side, or a scan of handles that hold something. -/
def OrderlyDelivery (s : Session) : SessionAction → Prop
  | .leftReads n behind => Orderly s (.leftReads n behind)
  | .rightReads n r => Orderly s (.rightReads n r)
  | .leftActs .asyncIo => s.left.sends.pool.contents ≠ []
  | .rightActs .asyncIo => s.right.sends.pool.contents ≠ []
  | .leftActs (.libuv _) | .leftActs (.send _ _ _) => False
  | .rightActs (.libuv _) | .rightActs (.send _ _ _) => False

theorem OrderlyDelivery.orderly {s : Session} {a : SessionAction} (delivery : OrderlyDelivery s a) :
    Orderly s a := by
  match a, delivery with
  | .leftReads n r, delivery | .rightReads n r, delivery => exact delivery
  | .leftActs .asyncIo, _ | .rightActs .asyncIo, _ => trivial

/-- The room for the answer to a request, while it is not given. -/
def unanswered (calls : List Call) : Nat := if .onConnect ∈ calls then 0 else handshakeSize

/-- What the handles hold, and the scan that writes it. -/
def SendSystem.load (s : SendSystem) : Nat := s.held.length + if s.held = [] then 0 else 1

theorem SendSystem.load_of_empty {s : SendSystem} (empty : s.held = []) : s.load = 0 := by
  rw [load, empty, if_pos rfl]
  rfl

theorem SendSystem.load_of_holding {s : SendSystem} (holding : s.held ≠ []) :
    s.load = s.held.length + 1 := by
  rw [load, if_neg holding]

theorem SendSystem.held_of_load {s : SendSystem} (none : s.load = 0) : s.held = [] := by
  by_contra hholding
  rw [load_of_holding hholding] at none
  cases none

theorem SendSystem.load_congr {s s' : SendSystem} (same : s'.held = s.held) : s'.load = s.load := by
  rw [load, load, same]

theorem SendSystem.load_le (s : SendSystem) : s.load ≤ s.held.length + 1 := by
  unfold load
  split <;> omega

/-- What there is to read and to write, and the answer to come. -/
def Session.backlog (s : Session) : Nat :=
  s.toRight.pending.length + s.toLeft.pending.length + s.left.sends.load + s.right.sends.load +
    unanswered s.right.connection.calls

/-- With nothing to do, the channels and the handles are empty, and the server has told of the
connection. -/
theorem nothing_of_backlog {s : Session} (drained : s.backlog = 0) :
    s.toRight.pending = [] ∧ s.toLeft.pending = [] ∧ s.left.sends.held = [] ∧ s.right.sends.held = [] ∧
      .onConnect ∈ s.right.connection.calls := by
  simp only [Session.backlog, Nat.add_eq_zero_iff, List.length_eq_zero_iff] at drained
  obtain ⟨⟨⟨⟨hright, hleft⟩, hload⟩, hload'⟩, hanswered⟩ := drained
  refine ⟨hright, hleft, SendSystem.held_of_load hload, SendSystem.held_of_load hload', ?_⟩
  by_contra hnot
  rw [unanswered, if_neg hnot] at hanswered
  cases hanswered

/-- Nothing is on the way or in a handle, and each application has been told of the connection and
of every message of the other one. -/
structure Session.Complete (s : Session) : Prop where
  toRight : s.toRight.pending = []
  toLeft : s.toLeft.pending = []
  left : s.left.sends.pool.contents = []
  right : s.right.sends.pool.contents = []
  server : s.right.connection.calls.flatMap Call.heard =
    .connect :: s.left.said.map fun m => .message m.2
  client : s.left.client.calls.flatMap Call.heard = .connect :: s.right.said.map fun m => .message m.2

theorem step_leftActs {s : Session} {a : EndAction ClientAction} {out : ClientEnd × Bytes}
    (act : clientParty.act s.left a = some out) :
    sessionMachine.step s (.leftActs a) = some (s.setLeft out) :=
  congrArg (Option.map s.setLeft) act

theorem step_rightActs {s : Session} {a : EndAction ServerAction} {out : ServerEnd × Bytes}
    (act : serverParty.act s.right a = some out) :
    sessionMachine.step s (.rightActs a) = some (s.setRight out) :=
  congrArg (Option.map s.setRight) act

section Progress

variable {ip uri : Bytes} {port : UInt16} (hip : PlainText ip) (huri : PlainText uri)
  (fits : RequestFits ip port uri) {s s' : Session} {a : SessionAction} {n : Nat}

/-- One more read or scan has been made, and there is less to do. -/
def Session.GoesOn (s s' : Session) : Prop :=
  Link.Agree (clientContract ip port uri) (serverContract hip huri fits) s' ∧ s'.Open ∧
    s'.left.said = s.left.said ∧ s'.right.said = s.right.said ∧ s'.backlog < s.backlog

/-- The client can read. -/
theorem leftReads_on
    (agree : Link.Agree (clientContract ip port uri) (serverContract hip huri fits) s) (isOpen : s.Open)
    {behind : Bytes} (positive : 0 < n) (le : n ≤ s.toLeft.pending.length)
    (fills : n + behind.length = suggestedSize)
    (may : s.left.MayRead behind (s.toLeft.pending.take n)) :
    ∃ s', sessionMachine.step s (.leftReads n behind) = some s' ∧ s.GoesOn hip huri fits s' := by
  obtain ⟨⟨c, held, hclient, client⟩, d, held', hserver, server⟩ := id agree
  have hrelies := server.promises
  rw [← s.toLeft.written_split n, List.append_assoc _ (s.toLeft.pending.drop n) held'] at hrelies
  have hfills : (s.toLeft.pending.take n).length + behind.length = suggestedSize := by
    rw [List.length_take_of_le le]
    exact fills
  obtain ⟨e', hreceive, hsaid, hopen, hheld⟩ := hclient.reads client isOpen.1 hrelies
    (Link.take_ne_nil positive le) hfills may
  have hstep : sessionMachine.step s (.leftReads n behind) =
      some { s.setLeft (e', []) with toLeft := s.toLeft.read n } := by
    show Link.step clientParty serverParty s (.leftReads n behind) = _
    rw [Link.step, if_pos ⟨positive, le⟩, hreceive]
    rfl
  refine ⟨_, hstep, agree_step hip huri fits (a := .leftReads n behind) agree may hstep,
    ⟨hopen, isOpen.2⟩, hsaid, rfl, ?_⟩
  simp only [Session.backlog, Link.setLeft, Channel.pending_write, Channel.pending_read,
    List.append_nil, List.length_drop, SendSystem.load_congr hheld]
  omega

/-- The server can read. -/
theorem rightReads_on
    (agree : Link.Agree (clientContract ip port uri) (serverContract hip huri fits) s) (isOpen : s.Open)
    (positive : 0 < n) (le : n ≤ s.toRight.pending.length) (small : n ≤ suggestedSize)
    (may : s.right.MayRead () (s.toRight.pending.take n)) :
    ∃ s', sessionMachine.step s (.rightReads n ()) = some s' ∧ s.GoesOn hip huri fits s' := by
  obtain ⟨⟨c, held, hclient, client⟩, d, held', hserver, server⟩ := id agree
  have hrelies := client.promises
  rw [← s.toRight.written_split n, List.append_assoc _ (s.toRight.pending.drop n) held] at hrelies
  obtain ⟨e', made, hreceive, hsaid, hopen, hconnected, hheld, hmade⟩ :=
    hserver.reads hip huri fits server isOpen.2 hrelies (Link.take_ne_nil positive le)
      (Nat.le_trans (List.length_take_le _ _) small) may
  have hstep : sessionMachine.step s (.rightReads n ()) =
      some { s.setRight (e', []) with toRight := s.toRight.read n } := by
    show Link.step clientParty serverParty s (.rightReads n ()) = _
    rw [Link.step, if_pos ⟨positive, le⟩, hreceive]
    rfl
  refine ⟨_, hstep, agree_step hip huri fits (a := .rightReads n ()) agree may hstep,
    ⟨isOpen.1, hopen⟩, rfl, hsaid, ?_⟩
  have hdone : unanswered e'.connection.calls = 0 := if_pos hconnected
  have hload : e'.sends.load ≤ s.right.sends.load + unanswered s.right.connection.calls := by
    rcases hmade with rfl | ⟨hwaiting, hshort⟩
    · rw [List.append_nil] at hheld
      rw [SendSystem.load_congr hheld]
      exact Nat.le_add_right _ _
    · have hle := e'.sends.load_le
      rw [hheld, List.length_append] at hle
      have hbefore : s.right.sends.held.length ≤ s.right.sends.load := Nat.le_add_right _ _
      rw [unanswered, if_neg hwaiting]
      omega
  simp only [Session.backlog, Link.setRight, Channel.pending_write, Channel.pending_read,
    List.append_nil, List.length_drop]
  omega

/-- An open client empties its handles. -/
theorem leftScans
    (agree : Link.Agree (clientContract ip port uri) (serverContract hip huri fits) s)
    (isOpen : s.Open) :
    ∃ sends : SendSystem, sends.held = [] ∧ sessionMachine.step s (.leftActs .asyncIo) =
      some (s.setLeft ({ s.left with sends := sends }, s.left.sends.held)) := by
  obtain ⟨⟨c, held, hclient, client⟩, -⟩ := agree
  obtain ⟨sends, hscan, hwritten, hempty⟩ := hclient.behind.empties isOpen.1
  refine ⟨sends, hempty, step_leftActs ?_⟩
  show s.left.asyncIo = _
  rw [ClientEnd.asyncIo, hscan, Option.map_some, if_pos isOpen.1, hwritten]

/-- An open connection of the server empties its handles. -/
theorem rightScans
    (agree : Link.Agree (clientContract ip port uri) (serverContract hip huri fits) s)
    (isOpen : s.Open) :
    ∃ sends : SendSystem, sends.held = [] ∧ sessionMachine.step s (.rightActs .asyncIo) =
      some (s.setRight ({ s.right with sends := sends }, s.right.sends.held)) := by
  obtain ⟨-, d, held, hserver, server⟩ := agree
  obtain ⟨sends, hscan, hwritten, hempty⟩ := hserver.behind.empties isOpen.2
  refine ⟨sends, hempty, step_rightActs ?_⟩
  show s.right.asyncIo = _
  rw [ServerEnd.asyncIo, hscan, Option.map_some, if_pos isOpen.2, hwritten]

/-- There is less to do when the client has emptied its handles. -/
theorem leftScans_on
    (agree : Link.Agree (clientContract ip port uri) (serverContract hip huri fits) s) (isOpen : s.Open)
    (holding : s.left.sends.held ≠ []) :
    ∃ s', sessionMachine.step s (.leftActs .asyncIo) = some s' ∧ s.GoesOn hip huri fits s' := by
  obtain ⟨sends, hempty, hstep⟩ := leftScans hip huri fits agree isOpen
  refine ⟨_, hstep, agree_step hip huri fits (a := .leftActs .asyncIo) agree trivial hstep, isOpen, rfl,
    rfl, ?_⟩
  simp only [Session.backlog, Link.setLeft, Channel.pending_write, SendSystem.load_of_empty hempty,
    SendSystem.load_of_holding holding, List.length_append]
  omega

/-- There is less to do when the server has emptied its handles. -/
theorem rightScans_on
    (agree : Link.Agree (clientContract ip port uri) (serverContract hip huri fits) s) (isOpen : s.Open)
    (holding : s.right.sends.held ≠ []) :
    ∃ s', sessionMachine.step s (.rightActs .asyncIo) = some s' ∧ s.GoesOn hip huri fits s' := by
  obtain ⟨sends, hempty, hstep⟩ := rightScans hip huri fits agree isOpen
  refine ⟨_, hstep, agree_step hip huri fits (a := .rightActs .asyncIo) agree trivial hstep, isOpen,
    rfl, rfl, ?_⟩
  simp only [Session.backlog, Link.setRight, Channel.pending_write, SendSystem.load_of_empty hempty,
    SendSystem.load_of_holding holding, List.length_append]
  omega

/-- Every orderly read or scan of an open session leaves it open, with less to do. -/
theorem OrderlyDelivery.goesOn
    (agree : Link.Agree (clientContract ip port uri) (serverContract hip huri fits) s) (isOpen : s.Open)
    (delivery : OrderlyDelivery s a) (step : sessionMachine.step s a = some s') :
    s.GoesOn hip huri fits s' := by
  have hthat : ∀ {t}, sessionMachine.step s a = some t → s.GoesOn hip huri fits t →
      s.GoesOn hip huri fits s' := by
    intro t ht hon
    rw [step, Option.some.injEq] at ht
    exact ht ▸ hon
  match a, delivery with
  | .leftReads n behind, may =>
      have hstep : Link.step clientParty serverParty s (.leftReads n behind) = some s' := step
      rw [Link.step] at hstep
      split at hstep
      · rename_i hn
        obtain ⟨out, hout, -⟩ := Option.map_eq_some_iff.mp hstep
        have hfills : n + behind.length = suggestedSize := by
          simp only [clientParty, List.length_take_of_le hn.2] at hout
          split at hout
          · assumption
          · cases hout
        obtain ⟨t, ht, hon⟩ := leftReads_on hip huri fits agree isOpen hn.1 hn.2 hfills may
        exact hthat ht hon
      · cases hstep
  | .rightReads n r, may =>
      have hstep : Link.step clientParty serverParty s (.rightReads n r) = some s' := step
      rw [Link.step] at hstep
      split at hstep
      · rename_i hn
        obtain ⟨out, hout, -⟩ := Option.map_eq_some_iff.mp hstep
        have hsmall : n ≤ suggestedSize := by
          simp only [serverParty, List.length_take_of_le hn.2] at hout
          split at hout
          · assumption
          · cases hout
        obtain ⟨t, ht, hon⟩ := rightReads_on hip huri fits agree isOpen hn.1 hn.2 hsmall may
        exact hthat ht hon
      · cases hstep
  | .leftActs .asyncIo, holding =>
      obtain ⟨⟨c, held, hclient, -⟩, -⟩ := id agree
      have hqueued := (hclient.behind.open_ isOpen.1).2.queued
      obtain ⟨t, ht, hon⟩ := leftScans_on hip huri fits agree isOpen
        (mt hqueued.held_eq_nil_iff.mp holding)
      exact hthat ht hon
  | .rightActs .asyncIo, holding =>
      obtain ⟨-, d, held, hserver, -⟩ := id agree
      have hqueued := (hserver.behind.open_ isOpen.2).2.queued
      obtain ⟨t, ht, hon⟩ := rightScans_on hip huri fits agree isOpen
        (mt hqueued.held_eq_nil_iff.mp holding)
      exact hthat ht hon

/-- An open session whose handles are empty is one of endpoints without handles. -/
theorem direct_of_agree
    (agree : Link.Agree (clientContract ip port uri) (serverContract hip huri fits) s) (isOpen : s.Open)
    (left : s.left.sends.held = []) (right : s.right.sends.held = []) :
    ∃ c d, c.client = s.left.client ∧ d.connection = s.right.connection ∧
      ClientSide ip port uri c s.toLeft.delivered s.toRight.written ∧
      ServerSide d s.toRight.delivered s.toLeft.written := by
  obtain ⟨⟨c, held, hclient, client⟩, d, held', hserver, server⟩ := agree
  rw [(hclient.behind.open_ isOpen.1).2.held_eq] at left
  rw [(hserver.behind.open_ isOpen.2).2.held_eq] at right
  rw [left, List.append_nil] at client
  rw [right, List.append_nil] at server
  exact ⟨c, d, hclient.client_eq, hserver.connection_eq, client, server⟩

/-- An orderly read or a scan is possible, and there is less to do then. -/
def Session.Advances (s : Session) : Prop :=
  ∃ a s', OrderlyDelivery s a ∧ sessionMachine.step s a = some s' ∧ s.GoesOn hip huri fits s'

theorem rightReads_advances
    (agree : Link.Agree (clientContract ip port uri) (serverContract hip huri fits) s) (isOpen : s.Open)
    (positive : 0 < n) (le : n ≤ s.toRight.pending.length) (small : n < suggestedSize)
    (may : s.right.MayRead () (s.toRight.pending.take n)) : s.Advances hip huri fits := by
  obtain ⟨s', hstep, hon⟩ :=
    rightReads_on hip huri fits agree isOpen positive le (Nat.le_of_lt small) may
  exact ⟨.rightReads n (), s', may, hstep, hon⟩

/-- The buffer of the client may hold zeros behind what it reads. -/
theorem leftReads_advances
    (agree : Link.Agree (clientContract ip port uri) (serverContract hip huri fits) s) (isOpen : s.Open)
    (positive : 0 < n) (le : n ≤ s.toLeft.pending.length) (small : n < suggestedSize)
    (ends : s.left.client.status = .handshaking → EndsHead (s.toLeft.pending.take n)) :
    s.Advances hip huri fits := by
  have hfills : n + (List.replicate (suggestedSize - n) (0 : UInt8)).length = suggestedSize := by
    rw [List.length_replicate]
    omega
  have hmay : s.left.MayRead (List.replicate (suggestedSize - n) 0) (s.toLeft.pending.take n) :=
    fun h => ⟨ends h, List.mem_replicate.mpr ⟨by omega, rfl⟩⟩
  obtain ⟨s', hstep, hon⟩ := leftReads_on hip huri fits agree isOpen positive le hfills hmay
  exact ⟨.leftReads n (List.replicate (suggestedSize - n) 0), s', hmay, hstep, hon⟩

/-- A head that is on the way can be read as it is. -/
theorem head_readable {head : Bytes} (rest : Bytes) (ends : EndsHead head)
    (short : head.length < handshakeSize) :
    0 < head.length ∧ head.length ≤ (head ++ rest).length ∧ head.length < suggestedSize ∧
      EndsHead ((head ++ rest).take head.length) := by
  refine ⟨List.length_pos_iff.mpr ends.ne_nil, ?_, Nat.lt_trans short (by decide), ?_⟩
  · rw [List.length_append]
    exact Nat.le_add_right _ _
  · rwa [List.take_left]

/-- Where nothing is in a handle, something can be read: the request, the answer, or a byte of what
has been sent. -/
theorem reads_advance
    (agree : Link.Agree (clientContract ip port uri) (serverContract hip huri fits) s) (isOpen : s.Open)
    (more : 0 < s.backlog) (left : s.left.sends.held = []) (right : s.right.sends.held = []) :
    s.Advances hip huri fits := by
  obtain ⟨c, d, hclient, hserver, client, server⟩ :=
    direct_of_agree hip huri fits agree isOpen left right
  have hopen : c.client.uvTcp.state = .reading := by
    rw [hclient]
    exact isOpen.1
  rcases server.phase with ⟨hdelivered, hwritten, -⟩ | ⟨-, hconnected⟩
  · -- the server waits: the request is on the way
    rw [Channel.written, List.append_eq_nil_iff] at hwritten
    rcases client.phase hopen with ⟨-, key, hkey, hshort, hrequest⟩ | ⟨hnonempty, -⟩
    · rw [Channel.written, hdelivered, List.nil_append] at hrequest
      have hcut := List.length_take_le (handshakeSize - 1)
        (joinLines (requestLine uri) (requestFields ip port key) ++ crlf ++ crlf)
      rw [← generateWebsocketClientHandshake_eq, ← hrequest] at hcut
      have hends := fits.endsHead hip huri hkey hshort
      rw [← hrequest] at hends
      obtain ⟨hpos, hle, hsmall, htake⟩ :=
        head_readable [] hends (Nat.lt_of_le_of_lt hcut (by decide))
      rw [List.append_nil] at hle htake
      exact rightReads_advances hip huri fits agree isOpen hpos hle hsmall fun _ => htake
    · exact absurd hwritten.1 hnonempty
  · rw [hserver] at hconnected
    by_cases hpending : s.toRight.pending = []
    · have hsome : s.toLeft.pending ≠ [] := by
        intro hnone
        simp [Session.backlog, unanswered, hpending, hnone, hconnected,
          SendSystem.load_of_empty left, SendSystem.load_of_empty right] at more
      have hone := List.length_pos_iff.mpr hsome
      rcases client.phase hopen with ⟨hdelivered, -⟩ | ⟨-, hworking, -⟩
      · -- the client waits: the answer is on the way
        rcases server.written with ⟨hnil, -⟩ | ⟨key, response, hkey, hanswer, -, hwritten⟩
        · rw [Channel.written, List.append_eq_nil_iff] at hnil
          exact absurd hnil.2 hsome
        · rw [Channel.written, hdelivered, List.nil_append] at hwritten
          obtain ⟨hends, hlength, -⟩ := response_endsHead hkey hanswer
          obtain ⟨hpos, hle, hsmall, htake⟩ := head_readable (wireOf d.said) hends hlength
          rw [← hwritten] at hle htake
          exact leftReads_advances hip huri fits agree isOpen hpos hle hsmall fun _ => htake
      · refine leftReads_advances hip huri fits agree isOpen Nat.one_pos hone (by decide) fun h => ?_
        rw [hclient, h] at hworking
        cases hworking
    · have hone := List.length_pos_iff.mpr hpending
      exact rightReads_advances hip huri fits agree isOpen Nat.one_pos hone (by decide)
        fun h => absurd hconnected h

/-- **Progress.** While there is something to do, an orderly read or a scan is possible. -/
theorem session_progress
    (agree : Link.Agree (clientContract ip port uri) (serverContract hip huri fits) s) (isOpen : s.Open)
    (more : 0 < s.backlog) : s.Advances hip huri fits := by
  obtain ⟨⟨c, held, hclient, -⟩, d, held', hserver, -⟩ := id agree
  by_cases hleft : s.left.sends.held = []
  · by_cases hright : s.right.sends.held = []
    · exact reads_advance hip huri fits agree isOpen more hleft hright
    · obtain ⟨s', hstep, hon⟩ := rightScans_on hip huri fits agree isOpen hright
      have hqueued := (hserver.behind.open_ isOpen.2).2.queued
      exact ⟨.rightActs .asyncIo, s', mt hqueued.held_eq_nil_iff.mpr hright, hstep, hon⟩
  · obtain ⟨s', hstep, hon⟩ := leftScans_on hip huri fits agree isOpen hleft
    have hqueued := (hclient.behind.open_ isOpen.1).2.queued
    exact ⟨.leftActs .asyncIo, s', mt hqueued.held_eq_nil_iff.mpr hleft, hstep, hon⟩

/-- With nothing left to do, everything has been told, and the client works. -/
theorem complete_of_backlog
    (agree : Link.Agree (clientContract ip port uri) (serverContract hip huri fits) s) (isOpen : s.Open)
    (drained : s.backlog = 0) : s.Complete ∧ s.left.client.status = .working := by
  obtain ⟨hright, hleft, hheld, hheld', hconnected⟩ := nothing_of_backlog drained
  obtain ⟨⟨c', held, hbehind, -⟩, d', held', hbehind', -⟩ := id agree
  have hempty := (hbehind.behind.open_ isOpen.1).2.queued.held_eq_nil_iff.mp hheld
  have hempty' := (hbehind'.behind.open_ isOpen.2).2.queued.held_eq_nil_iff.mp hheld'
  obtain ⟨hserver, hclient⟩ := hearing_of_agree hip huri fits agree
  rw [isOpen.2] at hserver
  rw [isOpen.1] at hclient
  obtain ⟨c, d, hc, hd, client, server⟩ := direct_of_agree hip huri fits agree isOpen hheld hheld'
  -- the answer has been written, and nothing is on the way: the client has read it
  obtain ⟨hworking, hdone⟩ : s.left.client.status = .working ∧ .onConnect ∈ s.left.client.calls := by
    rw [← hc]
    rcases client.phase (by rw [hc]; exact isOpen.1) with ⟨hdelivered, -⟩ | ⟨-, hphase⟩
    · rcases server.phase with ⟨-, -, hnone⟩ | ⟨hwritten, -⟩
      · rw [hd] at hnone
        exact absurd hconnected hnone
      · rw [Channel.written, hdelivered, hleft] at hwritten
        exact absurd rfl hwritten
    · exact hphase
  exact ⟨⟨hright, hleft, hempty, hempty', hserver.all ⟨isOpen.1, hempty, hright⟩ hconnected,
    hclient.all ⟨isOpen.2, hempty', hleft⟩ hdone⟩, hworking⟩

/-- What reads and scans do not change, from a session on. -/
def Session.Keeps (s t : Session) : Prop :=
  Link.Agree (clientContract ip port uri) (serverContract hip huri fits) t ∧ t.Open ∧
    t.left.said = s.left.said ∧ t.right.said = s.right.said

theorem Session.GoesOn.keeps {t : Session} (keeps : s.Keeps hip huri fits t)
    (on : t.GoesOn hip huri fits s') : s.Keeps hip huri fits s' := by
  obtain ⟨hagree, hopen, hleft, hright, -⟩ := on
  obtain ⟨-, -, hleft', hright'⟩ := keeps
  exact ⟨hagree, hopen, hleft.trans hleft', hright.trans hright'⟩

/-- Orderly reads and scans alone bring an open session to its completion. -/
theorem session_drains
    (agree : Link.Agree (clientContract ip port uri) (serverContract hip huri fits) s)
    (isOpen : s.Open) :
    ∃ more s', sessionMachine.exec s more = some s' ∧ sessionMachine.Guarded OrderlyDelivery s more ∧
      s.Keeps hip huri fits s' ∧ s'.backlog = 0 :=
  Machine.exists_run_of_progress (s.Keeps hip huri fits) Session.backlog
    (fun t keeps hmore => by
      obtain ⟨a, t', hread, hstep, hon⟩ := session_progress hip huri fits keeps.1 keeps.2.1 hmore
      exact ⟨a, t', hread, hstep, hon.keeps hip huri fits keeps, hon.2.2.2.2⟩)
    ⟨agree, isOpen, rfl, rfl⟩

end Progress

/-- **Completion.** From every state that an orderly run reaches with both streams open, orderly
reads and scans of handles that hold something, in any order, come to an end, after no more of them
than there is to do. Where none is left, nothing is on the way or in a handle, and each application
has been told of the connection and of every message. -/
theorem session_completes {ip uri : Bytes} {port : UInt16} {reconnect : Bool}
    {clientSize serverSize : Nat}
    (hip : PlainText ip) (huri : PlainText uri) (fits : RequestFits ip port uri)
    (handles : 0 < clientSize ∧ 0 < serverSize) {actions more : List SessionAction} {s s' : Session}
    (run : sessionMachine.exec (Session.init ip port uri reconnect clientSize serverSize) actions =
      some s)
    (orderly : sessionMachine.Guarded Orderly (Session.init ip port uri reconnect clientSize serverSize)
      actions)
    (isOpen : s.Open) (deliveries : sessionMachine.exec s more = some s')
    (orderlyDeliveries : sessionMachine.Guarded OrderlyDelivery s more) :
    more.length ≤ s.backlog ∧ s'.Open ∧ s'.left.said = s.left.said ∧ s'.right.said = s.right.said ∧
      ((∀ a, OrderlyDelivery s' a → sessionMachine.step s' a = none) → s'.Complete) := by
  have agree := agree_of_session hip huri fits handles run orderly
  obtain ⟨hkeeps, hle⟩ := Machine.exec_measure (s.Keeps hip huri fits) Session.backlog
    (fun t a t' keeps hdelivery hstep => by
      have hon := hdelivery.goesOn hip huri fits keeps.1 keeps.2.1 hstep
      exact ⟨hon.keeps hip huri fits keeps, hon.2.2.2.2⟩)
    ⟨agree, isOpen, rfl, rfl⟩ orderlyDeliveries deliveries
  obtain ⟨hagree, hopen, hleft, hright⟩ := hkeeps
  refine ⟨by omega, hopen, hleft, hright, fun hnone => ?_⟩
  by_cases hmore : s'.backlog = 0
  · exact (complete_of_backlog hip huri fits hagree hopen hmore).1
  · obtain ⟨a, t, hdelivery, hstep, -⟩ :=
      session_progress hip huri fits hagree hopen (Nat.pos_of_ne_zero hmore)
    rw [hnone a hdelivery] at hstep
    cases hstep

/-! ### A session to try things on -/

/-- The session that the sample client starts, with two handles on either side. -/
def sampleInit : Session := Session.init (ascii "10.0.0.1") 80 (ascii "/") true 2 2

theorem sample_plain : PlainText (ascii "10.0.0.1") ∧ PlainText (ascii "/") := by decide

theorem sample_fits : RequestFits (ascii "10.0.0.1") 80 (ascii "/") := by decide

/-- What holds of the sample session in orderly runs. -/
abbrev SampleAgree (s : Session) : Prop :=
  Link.Agree (clientContract (ascii "10.0.0.1") 80 (ascii "/"))
    (serverContract sample_plain.1 sample_plain.2 sample_fits) s

/-- A connect with sixteen zero bytes for random ones. -/
theorem sampleInit_connects :
    ∃ s, sessionMachine.step sampleInit (.leftActs (.libuv (.connected (List.replicate 16 0)))) =
      some s ∧
      s.Open ∧ s.left.said = [] ∧ s.right.said = [] := by
  obtain ⟨request, hconnect⟩ := CWSClient.sample_connects
  have hstep : clientMachine.step sampleInit.left.client (.connected (List.replicate 16 0)) =
      some (CWSClient.sampleConnected request) := hconnect
  obtain ⟨e, hact, hclient, hsaid⟩ := ClientEnd.act_of_step rfl hstep
  refine ⟨sampleInit.setLeft (e, []), ?_, ⟨?_, rfl⟩, hsaid, rfl⟩
  · exact step_leftActs hact
  · show e.client.uvTcp.state = .reading
    rw [hclient]
    rfl

/-- A letter. -/
def letter {α : Type} (c : UInt8) : EndAction α := .send wsTextFrame [c] none

/-- With its handles empty, a client that works sends a letter and empties the handles again. -/
theorem left_sends {s : Session} (agree : SampleAgree s) (isOpen : s.Open)
    (working : s.left.client.status = .working) (empty : s.left.sends.held = []) (c : UInt8) :
    ∃ s', sessionMachine.exec s [.leftActs (letter c), .leftActs .asyncIo] = some s' ∧
      sessionMachine.Guarded Orderly s [.leftActs (letter c), .leftActs .asyncIo] ∧ s'.Open ∧
      s'.left.client.status = .working ∧ s'.left.sends.held = [] ∧
      s'.left.said = s.left.said ++ [(wsTextFrame, [c])] ∧ s'.right = s.right := by
  obtain ⟨⟨d, held, hclient, -⟩, -⟩ := id agree
  have sendable : Sendable (wsTextFrame, [c]) := sendable_letter c
  obtain ⟨sends, hcall, -⟩ := hclient.behind.takes isOpen.1 empty sendable
  have hsend : clientParty.act s.left (letter c) =
      some ({ s.left with sends := sends, said := s.left.said ++ [(wsTextFrame, [c])] }, []) := by
    show (s.left.sendMsgWithAsync wsTextFrame [c] none).map _ = _
    rw [ClientEnd.sendMsgWithAsync, hcall]
    rfl
  have hfirst := step_leftActs hsend
  have horderly : Orderly s (.leftActs (letter c)) :=
    ⟨working, sendable, fun _ h => absurd h (Option.not_mem_none _),
      fun req _ => (hclient.behind.open_ isOpen.1).2.queued.ascends_of_empty empty req⟩
  obtain ⟨sends', hempty, hsecond⟩ := leftScans sample_plain.1 sample_plain.2 sample_fits
    (agree_step sample_plain.1 sample_plain.2 sample_fits agree horderly hfirst) isOpen
  refine ⟨_, Machine.exec_cons.mpr ⟨_, hfirst, Machine.exec_cons.mpr
    ⟨_, hsecond, Machine.exec_nil _⟩⟩, ?_,
    isOpen, working, hempty, rfl, rfl⟩
  exact (Machine.Guarded.cons_iff hfirst).mpr ⟨horderly, trivial, fun _ _ => trivial⟩

/-- With its handles empty, a server that has told of the connection sends a letter. -/
theorem right_sends {s : Session} (agree : SampleAgree s) (isOpen : s.Open)
    (connected : .onConnect ∈ s.right.connection.calls) (empty : s.right.sends.held = []) (c : UInt8) :
    ∃ s', sessionMachine.step s (.rightActs (letter c)) = some s' ∧ Orderly s (.rightActs (letter c)) ∧
      s'.Open ∧ s'.right.said = s.right.said ++ [(wsTextFrame, [c])] ∧ s'.left = s.left := by
  obtain ⟨-, d, held, hserver, -⟩ := id agree
  have sendable : Sendable (wsTextFrame, [c]) := sendable_letter c
  obtain ⟨sends, hcall, -⟩ := hserver.behind.takes isOpen.2 empty sendable
  have hsend : serverParty.act s.right (letter c) =
      some ({ s.right with sends := sends, said := s.right.said ++ [(wsTextFrame, [c])] }, []) := by
    show (s.right.sendMsgWithAsync wsTextFrame [c] none).map _ = _
    rw [ServerEnd.sendMsgWithAsync, hcall]
    rfl
  exact ⟨_, step_rightActs hsend, ⟨connected, sendable, fun _ h => absurd h (Option.not_mem_none _),
    fun req _ => (hserver.behind.open_ isOpen.2).2.queued.ascends_of_empty empty req⟩, isOpen, rfl, rfl⟩

/-- The handshake, two letters from the client, and one from the server that is still in its handle. -/
theorem sampleSession :
    ∃ actions s, sessionMachine.exec sampleInit actions = some s ∧
      sessionMachine.Guarded Orderly sampleInit actions ∧ s.Open ∧
      s.left.said = [(wsTextFrame, [0x61]), (wsTextFrame, [0x62])] ∧
        s.right.said = [(wsTextFrame, [0x63])] := by
  obtain ⟨s, hstep, hopen, hleft, hright⟩ := sampleInit_connects
  have hrun := Machine.exec_cons.mpr ⟨s, hstep, Machine.exec_nil _⟩
  have horderly : sessionMachine.Guarded Orderly sampleInit
      [.leftActs (.libuv (.connected (List.replicate 16 0)))] :=
    ⟨List.length_replicate, fun _ _ => trivial⟩
  have agree : SampleAgree s := agree_of_session sample_plain.1 sample_plain.2 sample_fits
    ⟨Nat.two_pos, Nat.two_pos⟩ hrun horderly
  -- the handshake, to its end
  obtain ⟨more, t, hmore, hdeliveries, ⟨agree, hopen, hleft', hright'⟩, hdrained⟩ :=
    session_drains sample_plain.1 sample_plain.2 sample_fits agree hopen
  obtain ⟨-, hworking⟩ :=
    complete_of_backlog sample_plain.1 sample_plain.2 sample_fits agree hopen hdrained
  have hreads := hdeliveries.mono fun _ _ h => h.orderly
  obtain ⟨-, -, hempty, hempty', hconnected⟩ := nothing_of_backlog hdrained
  -- the letters of the client, and that of the server
  obtain ⟨u, hfirst, hguarded, hopen, hworking, hempty, hsaid, hsame⟩ :=
    left_sends agree hopen hworking hempty 0x61
  have agree := agree_of_run sample_plain.1 sample_plain.2 sample_fits agree hguarded hfirst
  obtain ⟨v, hsecond, hguarded', hopen, -, -, hsaid', hsame'⟩ :=
    left_sends agree hopen hworking hempty 0x62
  have agree := agree_of_run sample_plain.1 sample_plain.2 sample_fits agree hguarded' hsecond
  have hpeer : v.right = t.right := hsame'.trans hsame
  obtain ⟨w, hthird, hlast, hopen, hreply, hkept⟩ :=
    right_sends agree hopen (hpeer ▸ hconnected) (hpeer ▸ hempty') 0x63
  have hdone := Machine.exec_append hrun hmore
  have hdone' := Machine.exec_append hdone hfirst
  have hdone'' := Machine.exec_append hdone' hsecond
  refine ⟨_, w, Machine.exec_append hdone'' (Machine.exec_cons.mpr ⟨w, hthird, Machine.exec_nil _⟩),
    ?_, hopen, ?_, ?_⟩
  · exact (((horderly.append hrun hreads).append hdone hguarded).append hdone' hguarded').append hdone''
      ⟨hlast, fun _ _ => trivial⟩
  · rw [hkept, hsaid', hsaid, hleft', hleft]
    rfl
  · rw [hreply, hpeer, hright', hright]
    rfl

/-- With nothing on the way or in a handle, nothing can be read, and no scan finds anything. -/
theorem delivery_none_of_backlog {s : Session} (agree : SampleAgree s) (isOpen : s.Open)
    (drained : s.backlog = 0)
    {a : SessionAction} (delivery : OrderlyDelivery s a) : sessionMachine.step s a = none := by
  obtain ⟨hcomplete, -⟩ := complete_of_backlog sample_plain.1 sample_plain.2 sample_fits agree
    isOpen drained
  match a, delivery with
  | .leftReads n r, _ =>
      show Link.step clientParty serverParty s (.leftReads n r) = none
      rw [Link.step, hcomplete.toLeft, if_neg (by simp only [List.length_nil]; omega)]
  | .rightReads n r, _ =>
      show Link.step clientParty serverParty s (.rightReads n r) = none
      rw [Link.step, hcomplete.toRight, if_neg (by simp only [List.length_nil]; omega)]
  | .leftActs .asyncIo, holding => exact absurd hcomplete.left holding
  | .rightActs .asyncIo, holding => exact absurd hcomplete.right holding

theorem session_delivers_letters :
    ∃ actions s, sessionMachine.exec sampleInit actions = some s ∧
      s.left.said = [(wsTextFrame, [0x61]), (wsTextFrame, [0x62])] ∧
        s.right.said = [(wsTextFrame, [0x63])] ∧
      Hearing s.right.connection.peer.state s.right.connection.calls s.left.said s.SettledRight ∧
      Hearing s.left.client.uvTcp.state s.left.client.calls s.right.said s.SettledLeft := by
  obtain ⟨actions, s, hrun, horderly, -, hleft, hright⟩ := sampleSession
  exact ⟨actions, s, hrun, hleft, hright, session_delivers sample_plain.1 sample_plain.2 sample_fits
    ⟨Nat.two_pos, Nat.two_pos⟩ hrun horderly⟩

theorem session_completes_letters :
    ∃ actions s more s', sessionMachine.exec sampleInit actions = some s ∧
      s.left.said = [(wsTextFrame, [0x61]), (wsTextFrame, [0x62])] ∧
        s.right.said = [(wsTextFrame, [0x63])] ∧
      sessionMachine.exec s more = some s' ∧ more.length ≤ s.backlog ∧ s'.left.said = s.left.said ∧
      s'.right.said = s.right.said ∧ s'.Complete := by
  obtain ⟨actions, s, hrun, horderly, hopen, hleft, hright⟩ := sampleSession
  have agree : SampleAgree s := agree_of_session sample_plain.1 sample_plain.2 sample_fits
    ⟨Nat.two_pos, Nat.two_pos⟩ hrun horderly
  obtain ⟨more, s', hmore, hdeliveries, ⟨hagree, hopen', -, -⟩, hdrained⟩ :=
    session_drains sample_plain.1 sample_plain.2 sample_fits agree hopen
  obtain ⟨hle, -, hleft', hright', hcomplete⟩ :=
    session_completes sample_plain.1 sample_plain.2 sample_fits
      ⟨Nat.two_pos, Nat.two_pos⟩ hrun horderly hopen
      hmore hdeliveries
  exact ⟨actions, s, more, s', hrun, hleft, hright, hmore, hle, hleft', hright',
    hcomplete fun a delivery => delivery_none_of_backlog hagree hopen' hdrained delivery⟩

end AnotherWs
