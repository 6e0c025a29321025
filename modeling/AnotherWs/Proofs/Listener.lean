/-
Module: AnotherWs.Proofs.Listener
Purpose: What an endpoint tells the application while chunks of frames arrive. A machine that hands its
  chunks to the receive loop tells the messages that the stream carries, however it is cut.
Trusted boundary: none
Main exports: Chunk, Heard, Listener, Listener.Hears, FrameListener, FrameListener.hears_iff,
  CWSServer.listener, CWSClient.listener
-/
import AnotherWs.Proofs.Carriage
import AnotherWs.Proofs.HttpHead
import AnotherWs.Proofs.Server
import AnotherWs.Proofs.Client

namespace AnotherWs

open Framing Machines

/-- Bytes that are read into a buffer of zeros with room to spare. -/
structure Chunk where
  data : Bytes
  nonempty : data ≠ []
  room : Nat

namespace Chunk

theorem read_le (c : Chunk) : (c.data.length : Int) ≤ (zeroFilled c.data c.room).length := by
  rw [zeroFilled, List.length_append]
  omega

/-- The arguments of the read callback. -/
def read (c : Chunk) : UvRead where
  nread := c.data.length
  base := zeroFilled c.data c.room
  nread_le := c.read_le

@[simp] theorem read_data (c : Chunk) : c.read.data = c.data := by
  show (c.data ++ List.replicate (c.room + 1) 0).take c.data.length = c.data
  exact List.take_left

theorem read_pos (c : Chunk) : 0 < c.read.nread := by
  show (0 : Int) < c.data.length
  exact Int.natCast_pos.mpr (List.length_pos_iff.mpr c.nonempty)

/-- The stream that was cut into the chunks. -/
def stream (chunks : List Chunk) : Bytes := (chunks.map Chunk.data).flatten

@[simp] theorem stream_nil : stream [] = [] := rfl

@[simp] theorem stream_cons (c : Chunk) (chunks : List Chunk) :
    stream (c :: chunks) = c.data ++ stream chunks := rfl

end Chunk

/-- What the application hears of a connection, and that it ends. -/
inductive Heard where
  | connect
  | message (payload : Bytes)
  | ended
deriving DecidableEq, Repr

/-- What the application hears in a call. -/
def Call.heard : Call → List Heard
  | .onConnect => [.connect]
  | .onData payload _ => [.message payload]
  | .sendDataWithAsync _ => []
  | .onError _ | .onClose | .uvClose => [.ended]

/-- While nothing closes, the receive loop tells the messages. -/
theorem heard_calls {events : List Event} (open_ : .twCloseClient ∉ events) :
    (events.flatMap Event.call).flatMap Call.heard = (payloads events).map Heard.message := by
  induction events with
  | nil => rfl
  | cons event events ih =>
      rw [List.mem_cons, not_or] at open_
      rw [List.flatMap_cons, List.flatMap_append, ih open_.2, payloads, payloads]
      cases event with
      | onData payload flag => rfl
      | sendDataWithAsync bytes => rfl
      | twCloseClient => exact absurd rfl open_.1

/-! ### Listeners -/

/-- A machine that reads, and whose reads append to a record of calls. -/
structure Listener (σ α : Type) where
  machine : Machine σ α
  read : UvRead → α
  calls : σ → List Call
  owned : σ → Prop
  appends : ∀ {s s' : σ} {r : UvRead}, owned s → machine.step s (read r) = some s' →
    owned s' ∧ ∃ made, calls s' = calls s ++ made

namespace Listener

variable {σ α : Type} (L : Listener σ α)

/-- Chunk after chunk is read, and this is what the application is told meanwhile. -/
def Hears (s : σ) (chunks : List Chunk) (told : List Heard) : Prop :=
  ∃ s' made, L.machine.exec s (chunks.map fun c => L.read c.read) = some s' ∧
    L.calls s' = L.calls s ++ made ∧ made.flatMap Call.heard = told

variable {L} {s mid : σ} {c : Chunk} {chunks : List Chunk} {told : List Heard}

theorem hears_nil : L.Hears s [] told ↔ told = [] := by
  constructor
  · rintro ⟨s', made, hrun, hcalls, rfl⟩
    cases hrun
    have hmade : made = [] := List.append_cancel_left (hcalls.symm.trans (List.append_nil _).symm)
    rw [hmade]
    rfl
  · rintro rfl
    exact ⟨s, [], rfl, (List.append_nil _).symm, rfl⟩

/-- A run of reads appends. -/
theorem exec_appends (owned : L.owned s) {s' : σ}
    (run : L.machine.exec s (chunks.map fun c => L.read c.read) = some s') :
    ∃ made, L.calls s' = L.calls s ++ made := by
  induction chunks generalizing s with
  | nil =>
      cases run
      exact ⟨[], (List.append_nil _).symm⟩
  | cons c chunks ih =>
      obtain ⟨mid, hstep, hrest⟩ := Machine.exec_cons.mp run
      obtain ⟨howned, first, hfirst⟩ := L.appends owned hstep
      obtain ⟨more, hmore⟩ := ih howned hrest
      exact ⟨first ++ more, by rw [hmore, hfirst, List.append_assoc]⟩

/-- The first chunk and the others. -/
theorem hears_cons_iff (owned : L.owned s) {first : List Call}
    (step : L.machine.step s (L.read c.read) = some mid) (calls : L.calls mid = L.calls s ++ first) :
    L.Hears s (c :: chunks) told ↔
      ∃ more, told = first.flatMap Call.heard ++ more ∧ L.Hears mid chunks more := by
  constructor
  · rintro ⟨s', made, hrun, hcalls, rfl⟩
    obtain ⟨mid', hstep, hrest⟩ := Machine.exec_cons.mp hrun
    rw [step, Option.some.injEq] at hstep
    subst hstep
    obtain ⟨more, hmore⟩ := exec_appends (L.appends owned step).1 hrest
    have hmade : made = first ++ more := by
      rw [hmore, calls, List.append_assoc] at hcalls
      exact (List.append_cancel_left hcalls).symm
    exact ⟨_, by rw [hmade, List.flatMap_append], s', more, hrest, hmore, rfl⟩
  · rintro ⟨_, rfl, s', more, hrest, hcalls, rfl⟩
    refine ⟨s', first ++ more, Machine.exec_cons.mpr ⟨mid, step, hrest⟩, ?_, List.flatMap_append⟩
    rw [hcalls, calls, List.append_assoc]

/-- What is told begins with what the first read tells. -/
theorem Hears.first (hears : L.Hears s (c :: chunks) told) (owned : L.owned s) :
    ∃ mid first more, L.machine.step s (L.read c.read) = some mid ∧
      L.calls mid = L.calls s ++ first ∧ told = first.flatMap Call.heard ++ more ∧
      L.Hears mid chunks more := by
  obtain ⟨s', made, hrun, -, -⟩ := id hears
  obtain ⟨mid, hstep, -⟩ := Machine.exec_cons.mp hrun
  obtain ⟨-, first, hfirst⟩ := L.appends owned hstep
  obtain ⟨more, htold, hmore⟩ := (hears_cons_iff owned hstep hfirst).mp hears
  exact ⟨mid, first, more, hstep, hfirst, htold, hmore⟩

end Listener

/-! ### Chunks of frames -/

section Calls

variable {endpoint : EndpointType} {hd : WebsocketHandle} {v : HandleView} {p data : Bytes}
  {trace : Trace}

/-- A call that comes back without a close has left the receiver waiting. -/
theorem onReadWebsocket_quiet (stands : Stands hd v p) (sized : hd.Sized) (nonempty : data ≠ [])
    (call : onReadWebsocket endpoint hd data = .ok trace) (open_ : .twCloseClient ∉ trace.events) :
    ∃ q, (receiver.run v (p ++ data)).halt = .waiting q ∧
      trace.events = (receiver.run v (p ++ data)).events.flatMap Prod.snd ∧
      Stands trace.handle (receiver.run v (p ++ data)).state q ∧ trace.handle.Sized := by
  obtain ⟨q, tail, hfinish, hstands, hevents, hsized⟩ :=
    onReadWebsocket_inv endpoint stands sized nonempty call
  obtain ⟨hhalt, hquiet⟩ | ⟨-, rfl⟩ := finish_inv hfinish
  · rw [List.flatMap_append, hquiet, List.append_nil] at hevents
    exact ⟨q, hhalt, hevents, hstands, hsized⟩
  · -- a malformed length would have closed
    refine absurd ?_ open_
    rw [hevents]
    simp

/-- A call on a chunk after which the receiver waits. -/
theorem onReadWebsocket_waiting (stands : Stands hd v p) (sized : hd.Sized) (nonempty : data ≠ [])
    {q : Bytes} (waits : (receiver.run v (p ++ data)).halt = .waiting q) :
    ∃ trace, onReadWebsocket endpoint hd data = .ok trace ∧
      trace.events = (receiver.run v (p ++ data)).events.flatMap Prod.snd ∧
      Stands trace.handle (receiver.run v (p ++ data)).state q ∧ trace.handle.Sized := by
  obtain ⟨tail, hfinish, htail⟩ := finish_waiting_quiet q
  obtain ⟨trace, hcall, hstands, hpasses, hsized⟩ :=
    onReadWebsocket_ok endpoint stands nonempty (waits ▸ hfinish)
  refine ⟨trace, hcall, ?_, hstands, hsized sized⟩
  rw [Trace.events, hpasses, countFrom_events, List.flatMap_append, htail, List.append_nil]

end Calls

/-- A listener that hands its chunks to the receive loop, in the states that stand for a handle. -/
structure FrameListener (σ α : Type) extends Listener σ α where
  endpoint : EndpointType
  standing : σ → WebsocketHandle → Prop
  standing_owned : ∀ {s : σ} {hd : WebsocketHandle}, standing s hd → owned s
  /-- A chunk that does not close is one step, and tells what the receive loop tells. -/
  quiet : ∀ {s : σ} {hd : WebsocketHandle} {v : HandleView} {p : Bytes} {r : UvRead} {trace : Trace},
    standing s hd → Stands hd v p → hd.Sized → 0 < r.nread →
    onReadWebsocket endpoint hd r.data = .ok trace → .twCloseClient ∉ trace.events →
    ∃ s', machine.step s (read r) = some s' ∧ standing s' trace.handle ∧
      calls s' = calls s ++ trace.events.flatMap Event.call
  /-- A step is a call of the receive loop that comes back, and closes when that does. -/
  closes : ∀ {s s' : σ} {hd : WebsocketHandle} {r : UvRead},
    standing s hd → hd.Sized → 0 < r.nread → machine.step s (read r) = some s' →
    ∃ trace made, onReadWebsocket endpoint hd r.data = .ok trace ∧ calls s' = calls s ++ made ∧
      (.twCloseClient ∈ trace.events → .uvClose ∈ made)

namespace FrameListener

variable {σ α : Type} {F : FrameListener σ α}

/-- When nothing but messages is told, the first chunk does not close, and its messages are told
first. -/
theorem hears_frames {s : σ} {hd : WebsocketHandle} {v : HandleView} {p : Bytes}
    (standing : F.standing s hd) (stands : Stands hd v p) (sized : hd.Sized) {c : Chunk}
    {chunks : List Chunk} {messages : List Bytes}
    (hears : F.Hears s (c :: chunks) (messages.map Heard.message)) :
    ∃ trace mid rest, onReadWebsocket F.endpoint hd c.data = .ok trace ∧
      .twCloseClient ∉ trace.events ∧ F.standing mid trace.handle ∧
      messages = payloads trace.events ++ rest ∧ F.Hears mid chunks (rest.map Heard.message) := by
  obtain ⟨mid, first, more, hstep, hfirst, htold, hmore⟩ := hears.first (F.standing_owned standing)
  obtain ⟨trace, made, hcall, hmade, hcloses⟩ := F.closes standing sized c.read_pos hstep
  have hsame : first = made := List.append_cancel_left (hfirst.symm.trans hmade)
  have hopen : .twCloseClient ∉ trace.events := by
    intro hclose
    have hended : Heard.ended ∈ messages.map Heard.message := by
      rw [htold, hsame]
      exact List.mem_append_left _ (List.mem_flatMap.mpr ⟨_, hcloses hclose, by simp [Call.heard]⟩)
    simp at hended
  obtain ⟨mid', hstep', hstanding, hcalls⟩ := F.quiet standing stands sized c.read_pos hcall hopen
  rw [hstep, Option.some.injEq] at hstep'
  subst hstep'
  have hevents : first = trace.events.flatMap Event.call :=
    List.append_cancel_left (hfirst.symm.trans hcalls)
  rw [hevents, heard_calls hopen] at htold
  obtain ⟨front, rest, hsplit, hfront, hrest⟩ := List.map_eq_append_iff.mp htold
  have hpayloads : front = payloads trace.events :=
    List.map_injective_iff.mpr (fun a b h => by cases h; rfl) hfront
  rw [c.read_data] at hcall
  rw [← hrest] at hmore
  exact ⟨trace, mid, rest, hcall, hopen, hstanding, by rw [hsplit, hpayloads], hmore⟩

/-- **What the application is told** of chunks of frames is what the receiver makes of the stream,
as long as it waits in the end and nothing closes. -/
theorem hears_iff {s : σ} {hd : WebsocketHandle} {v : HandleView} {p : Bytes}
    (standing : F.standing s hd) (stands : Stands hd v p) (sized : hd.Sized)
    (unfinished : frameScan p = .more) {chunks : List Chunk} {messages : List Bytes} :
    F.Hears s chunks (messages.map Heard.message) ↔
      ∃ q, (receiver.run v (p ++ Chunk.stream chunks)).halt = .waiting q ∧
        .twCloseClient ∉ (receiver.run v (p ++ Chunk.stream chunks)).events.flatMap Prod.snd ∧
        payloads ((receiver.run v (p ++ Chunk.stream chunks)).events.flatMap Prod.snd) =
          messages := by
  induction chunks generalizing s hd v p messages with
  | nil =>
      have hrun := Decoder.run_more (D := receiver) (s := v) unfinished
      rw [if_pos (show p.length ≤ receiver.limit from stands.small)] at hrun
      rw [Listener.hears_nil, List.map_eq_nil_iff, Chunk.stream_nil, List.append_nil, hrun]
      constructor
      · rintro rfl
        exact ⟨p, rfl, nofun, rfl⟩
      · rintro ⟨-, -, -, hnone⟩
        exact hnone.symm
  | cons c chunks ih =>
      rw [Chunk.stream_cons, ← List.append_assoc, Decoder.run_append]
      constructor
      · intro hears
        obtain ⟨trace, mid, rest, hcall, hopen, hstanding, rfl, hmore⟩ :=
          hears_frames standing stands sized hears
        obtain ⟨q, hhalt, hevents, hstands, hsized⟩ :=
          onReadWebsocket_quiet stands sized c.nonempty hcall hopen
        obtain ⟨q', hwaits, hquiet, hpayloads⟩ :=
          (ih hstanding hstands hsized (Decoder.waiting_open hhalt).1).mp hmore
        simp only [Decoder.resume, hhalt, Run.after_halt, Run.after_events, List.flatMap_append,
          payloads_append, List.mem_append, not_or]
        exact ⟨q', hwaits, ⟨hevents ▸ hopen, hquiet⟩, by rw [← hevents, hpayloads]⟩
      · rintro ⟨q', hwaits, hquiet, hpayloads⟩
        cases hhalt : (receiver.run v (p ++ c.data)).halt with
        | waiting q =>
            simp only [Decoder.resume, hhalt, Run.after_halt, Run.after_events, List.flatMap_append,
              payloads_append, List.mem_append, not_or] at hwaits hquiet hpayloads
            obtain ⟨trace, hcall, hevents, hstands, hsized⟩ :=
              @onReadWebsocket_waiting F.endpoint _ _ _ _ stands sized c.nonempty _ hhalt
            rw [← hevents] at hquiet hpayloads
            rw [← c.read_data] at hcall
            obtain ⟨mid, hstep, hstanding, hcalls⟩ :=
              F.quiet standing stands sized c.read_pos hcall hquiet.1
            rw [Listener.hears_cons_iff (F.standing_owned standing) hstep hcalls, ← hpayloads,
              heard_calls hquiet.1, List.map_append]
            exact ⟨_, rfl, (ih hstanding hstands hsized (Decoder.waiting_open hhalt).1).mpr
              ⟨q', hwaits, hquiet.2, rfl⟩⟩
        | rejected rest =>
            simp only [Decoder.resume, hhalt] at hwaits
            cases hwaits
        | failed =>
            simp only [Decoder.resume, hhalt] at hwaits
            cases hwaits

/-- Behind the handshake, the application is told the messages that the stream carries. -/
theorem hears_iff_carries {s : σ} {hd : WebsocketHandle} (standing : F.standing s hd)
    (complete : hd.parseState = .complete) (fresh : hd.mergeBuf.content = []) (sized : hd.Sized)
    {chunks : List Chunk} {messages : List Bytes} :
    F.Hears s chunks (messages.map Heard.message) ↔ Carries (Chunk.stream chunks) messages := by
  have hmerge : hd.view.merge = [] := fresh
  rw [hears_iff standing (.of_complete complete) sized rfl, List.nil_append, carries_iff hmerge]

end FrameListener

/-! ### The endpoints -/

namespace CWSServer

/-- A step on frames is a call of the receive loop that comes back. -/
theorem closes_read {s s' : ServerConnection} {hd : WebsocketHandle} {r : UvRead}
    (reading : s.peer.state = .reading) (owned : s.peer.loopData = true)
    (held : s.peer.data = some hd) (opened : hd.protoBuf.flag &&& flagWebsocket ≠ 0) (sized : hd.Sized)
    (positive : 0 < r.nread) (hstep : serverMachine.step s (.read r) = some s') :
    ∃ trace made, AnotherWs.onReadWebsocket .server hd r.data = .ok trace ∧ s'.calls = s.calls ++ made ∧
      (.twCloseClient ∈ trace.events → .uvClose ∈ made) := by
  have hhandle := handle_of_data held sized
  obtain ⟨-, calls, hread, happend⟩ := ServerConnection.step_read hstep
  cases onRead_cases owned hread with
  | frames positive done trace call makes =>
      rw [hhandle] at call
      obtain ⟨made, hmade, -, -, huv⟩ :=
        @makeCalls_ok { s.peer with data := some trace.handle } owned trace.events
      rw [hmade, Except.ok.injEq, Prod.mk.injEq] at makes
      have hclosing : s.peer.isClosing = false := by
        rw [UvStream.isClosing, reading]
      exact ⟨trace, calls, call, happend, fun h => makes.2 ▸ (huv hclosing).mpr h⟩
  | accepted positive undone | refused positive undone => exact absurd (hhandle ▸ undone) opened
  | nothing zero => omega
  | failed negative => omega

/-- The server side of a connection listens. -/
def listener : FrameListener ServerConnection ServerAction where
  machine := serverMachine
  read := .read
  calls := ServerConnection.calls
  owned := fun s => s.peer.loopData = true
  appends := by
    intro s s' r howned hstep
    obtain ⟨-, calls, hread, happend⟩ := ServerConnection.step_read hstep
    exact ⟨((onRead_cases howned hread).silent howned).1, calls, happend⟩
  endpoint := .server
  standing := fun s hd => s.peer.state = .reading ∧ s.peer.loopData = true ∧
    s.peer.data = some hd ∧ hd.protoBuf.flag &&& flagWebsocket ≠ 0
  standing_owned := fun h => h.2.1
  quiet := by
    rintro s hd v p r trace ⟨hreading, howned, hdata, hflag⟩ stands sized positive hcall hopen
    have hhandle := handle_of_data hdata sized
    have hread := onRead_frames howned positive (hhandle ▸ hflag) (hhandle ▸ hcall)
      (makeCalls_open hopen)
    exact ⟨_, ServerConnection.step_of_onRead hreading hread, ⟨hreading, howned, rfl,
      onReadWebsocket_keeps stands sized (UvRead.data_ne_nil positive) hcall hflag⟩, rfl⟩
  closes := fun h => closes_read h.1 h.2.1 h.2.2.1 h.2.2.2

end CWSServer

namespace CWSClient

theorem closes_read {s s' : CWSClient} {hd : WebsocketHandle} {r : UvRead}
    (reading : s.uvTcp.state = .reading) (owned : s.uvTcp.loopData = true)
    (held : s.uvTcp.data = some hd) (working : s.status = .working) (sized : hd.Sized)
    (positive : 0 < r.nread) (hstep : clientMachine.step s (.read r) = some s') :
    ∃ trace made, AnotherWs.onReadWebsocket .client hd r.data = .ok trace ∧ s'.calls = s.calls ++ made ∧
      (.twCloseClient ∈ trace.events → .uvClose ∈ made) := by
  have hhandle := handle_of_data held sized
  have hcase : StepCase s s' (.read r) := step_cases owned hstep
  cases hcase with
  | read r started case_ =>
      cases case_ with
      | frames positive done trace call made makes s_eq =>
          rw [hhandle] at call
          obtain ⟨made', hmade, -, -, huv⟩ :=
            @makeCalls_ok { s.uvTcp with data := some trace.handle } owned trace.events
          rw [hmade, Except.ok.injEq, Prod.mk.injEq] at makes
          have hclosing : s.uvTcp.isClosing = false := by
            rw [UvStream.isClosing, reading]
          exact ⟨trace, made, call, congrArg CWSClient.calls s_eq,
            fun h => makes.2 ▸ (huv hclosing).mpr h⟩
      | ignored positive handshaking | accepted positive handshaking =>
          rw [working] at handshaking
          cases handshaking
      | nothing zero => omega
      | failed negative => omega

/-- The client listens. -/
def listener : FrameListener CWSClient ClientAction where
  machine := clientMachine
  read := .read
  calls := CWSClient.calls
  owned := fun s => s.uvTcp.loopData = true
  appends := by
    intro s s' r howned hstep
    have hcase : StepCase s s' (.read r) := step_cases howned hstep
    cases hcase with
    | read r reading case_ =>
        obtain ⟨-, -, -, -, more, hmore⟩ := case_.keeps
        exact ⟨(case_.stream howned reading).1, more, hmore⟩
  endpoint := .client
  standing := fun s hd => s.uvTcp.state = .reading ∧ s.uvTcp.loopData = true ∧
    s.uvTcp.data = some hd ∧ s.status = .working
  standing_owned := fun h => h.2.1
  quiet := by
    rintro s hd v p r trace ⟨hreading, howned, hdata, hworking⟩ stands sized positive hcall hopen
    have hhandle := handle_of_data hdata sized
    have hread := onRead_frames howned positive hworking (hhandle ▸ hcall) (makeCalls_open hopen)
    exact ⟨_, step_of_onRead hreading hread, ⟨hreading, howned, rfl, hworking⟩, rfl⟩
  closes := fun h => closes_read h.1 h.2.1 h.2.2.1 h.2.2.2

end CWSClient

end AnotherWs
