/-
Module: AnotherWs.Proofs.SessionSides
Purpose: What both endpoints of a session have in common: what an application is told up to the end
  of its stream, how a handle follows the stream of messages that it reads, and what goes out when a
  message is sent.
Trusted boundary: none
Main exports: wireOf, Silent, HasTold, heardOf, Follows, FrameListener.follows_read,
  messageBytes_eq, carries_front
-/
import AnotherWs.Proofs.SessionHandshake
import AnotherWs.Proofs.SentStream
import AnotherWs.Proofs.WholeConnection
import AnotherWs.Spec.Endpoints

namespace AnotherWs

open Framing Machines

/-- Messages one after the other on the wire. -/
def wireOf (said : List (UInt8 × Bytes)) : Bytes := (said.map encoding).flatten

/-- The calls send nothing. -/
def Silent (calls : List Call) : Prop := ∀ bytes, .sendDataWithAsync bytes ∉ calls

theorem Silent.sentBytes {calls : List Call} (silent : Silent calls) : sentBytes calls = [] := by
  rw [AnotherWs.sentBytes, List.flatMap_eq_nil_iff]
  intro call hcall
  cases call with
  | sendDataWithAsync bytes => exact absurd hcall (silent bytes)
  | onConnect | onData payload flag | onError errcode | onClose | uvClose => rfl

theorem silent_drop (calls : List Call) : Silent (calls.drop calls.length) := by
  rw [List.drop_length]
  exact fun _ => List.not_mem_nil

/-! ### What an application is told -/

/-- The application has been told this of its connection, and behind it of the end alone. While the
stream is open it has not been told of an end. -/
def HasTold (state : HandleState) (calls : List Call) (told : List Heard) : Prop :=
  ∃ ends, calls.flatMap Call.heard = told ++ List.replicate ends .ended ∧ (state = .reading → ends = 0)

namespace HasTold

variable {state state' : HandleState} {calls made : List Call} {told : List Heard}

/-- While the stream is open, what is told next is told behind. -/
theorem open_append (h : HasTold state calls told) (open_ : state = .reading) (made : List Call)
    (state' : HandleState) : HasTold state' (calls ++ made) (told ++ made.flatMap Call.heard) := by
  obtain ⟨ends, hcalls, hzero⟩ := h
  rw [hzero open_] at hcalls
  exact ⟨0, by rw [List.flatMap_append, hcalls]; simp, fun _ => rfl⟩

/-- What closes an open stream tells of its end. -/
theorem close (h : HasTold state calls told) (open_ : state = .reading) {ends : Nat}
    (made_eq : made.flatMap Call.heard = List.replicate ends .ended) (closed : state' ≠ .reading) :
    HasTold state' (calls ++ made) told := by
  obtain ⟨none, hcalls, hzero⟩ := h
  rw [hzero open_] at hcalls
  exact ⟨ends, by rw [List.flatMap_append, hcalls, made_eq]; simp, fun h => absurd h closed⟩

/-- A stream that is no longer open has nothing to tell. -/
theorem leave (h : HasTold state calls told) (closed : state' ≠ .reading) :
    HasTold state' calls told := by
  obtain ⟨ends, hcalls, -⟩ := h
  exact ⟨ends, hcalls, fun h => absurd h closed⟩

/-- Whether `onConnect` has been called. -/
theorem onConnect_iff (h : HasTold state calls told) : .onConnect ∈ calls ↔ .connect ∈ told := by
  obtain ⟨ends, hcalls, -⟩ := h
  constructor
  · intro hmem
    have hheard : .connect ∈ calls.flatMap Call.heard :=
      List.mem_flatMap.mpr ⟨.onConnect, hmem, List.mem_cons_self⟩
    rw [hcalls, List.mem_append] at hheard
    rcases hheard with hheard | hended
    · exact hheard
    · cases (List.mem_replicate.mp hended).2
  · intro hmem
    have hheard : .connect ∈ calls.flatMap Call.heard := by
      rw [hcalls]
      exact List.mem_append_left _ hmem
    obtain ⟨call, hcall, hconnect⟩ := List.mem_flatMap.mp hheard
    cases call with
    | onConnect => exact hcall
    | onData payload flag | onError errcode | onClose | sendDataWithAsync bytes | uvClose =>
        simp [Call.heard] at hconnect

end HasTold

/-! ### Frames -/

/-- The messages that the receiver hears in a stream, and that a connection has been heard of before. -/
def heardOf (v : HandleView) (x : Bytes) : List Heard :=
  .connect :: (payloads ((receiver.run v x).events.flatMap Prod.snd)).map Heard.message

theorem heardOf_nil (v : HandleView) : heardOf v [] = [.connect] := by
  rw [heardOf, Decoder.run_nil]
  rfl

/-- The endpoint has read these bytes of frames: its handle is where the receiver waits. -/
def Follows {σ α : Type} (F : FrameListener σ α) (v : HandleView) (s : σ) (x : Bytes) : Prop :=
  ∃ hd p, F.standing s hd ∧ Stands hd (receiver.run v x).state p ∧ hd.Sized ∧
    (receiver.run v x).halt = .waiting p

/-- An endpoint that has just finished the handshake. -/
theorem Follows.start {σ α : Type} {F : FrameListener σ α} {s : σ} {hd : WebsocketHandle}
    (standing : F.standing s hd) (complete : hd.parseState = .complete) (sized : hd.Sized) :
    Follows F hd.view s [] :=
  ⟨hd, [], standing, by rw [Decoder.run_nil]; exact .of_complete complete, sized, by
    rw [Decoder.run_nil]⟩

/-- **Reading on.** The next bytes of a stream of messages are read, make calls that tell the
messages and answer nothing, and the endpoint follows. -/
theorem FrameListener.follows_read {σ α : Type} {F : FrameListener σ α} {v : HandleView} {s : σ}
    {x chunk : Bytes} {messages : List Bytes} {r : UvRead} (fresh : v.merge = [])
    (follows : Follows F v s x) (data : CarriesData (x ++ chunk) messages) (nonempty : chunk ≠ [])
    (positive : 0 < r.nread) (data_eq : r.data = chunk) :
    ∃ s' made, F.machine.step s (F.read r) = some s' ∧ Follows F v s' (x ++ chunk) ∧
      F.calls s' = F.calls s ++ made ∧ Silent made ∧
      heardOf v x ++ made.flatMap Call.heard = heardOf v (x ++ chunk) := by
  obtain ⟨hd, p, hstanding, hstands, hsized, hhalt⟩ := follows
  obtain ⟨q, hwaits, hopen, -⟩ := (carries_iff fresh).mp data.carries
  have hsilent := data.unanswered fresh
  unfold Follows heardOf
  rw [Decoder.run_append, Decoder.resume, hhalt] at hwaits hopen hsilent ⊢
  simp only [Run.after_halt, Run.after_events, Run.after_state, List.flatMap_append, List.mem_append,
    not_or, payloads_append, List.map_append] at hwaits hopen hsilent ⊢
  obtain ⟨trace, hcall, hevents, hstands', hsized'⟩ :=
    @onReadWebsocket_waiting F.endpoint _ _ _ _ hstands hsized nonempty _ hwaits
  rw [← hevents] at hopen hsilent ⊢
  rw [← data_eq] at hcall
  obtain ⟨s', hstep, hstanding', hcalls⟩ := F.quiet hstanding hstands hsized positive hcall hopen.2
  refine ⟨s', _, hstep, ⟨trace.handle, q, hstanding', hstands', hsized', hwaits⟩, hcalls, ?_, ?_⟩
  · intro bytes hmem
    obtain ⟨event, hevent, hcall⟩ := List.mem_flatMap.mp hmem
    cases event with
    | onData payload flag => cases List.mem_singleton.mp hcall
    | sendDataWithAsync other => exact absurd hevent (hsilent other).2
    | twCloseClient => exact absurd hcall List.not_mem_nil
  · rw [heard_calls hopen.2]
    rfl

/-! ### Reads and sends -/

theorem readArguments_data (data behind : Bytes) : (readArguments data behind).data = data :=
  List.take_left

theorem readArguments_pos {data : Bytes} (nonempty : data ≠ []) (behind : Bytes) :
    0 < (readArguments data behind).nread :=
  Int.natCast_pos.mpr (List.length_pos_iff.mpr nonempty)

theorem sentBytes_drop (calls made : List Call) :
    sentBytes ((calls ++ made).drop calls.length) = sentBytes made := by
  rw [List.drop_left]

/-- What is told of a stream that fails tells of its end, and answers nothing. -/
theorem failure_calls (errcode : Int) (closing : Bool) :
    ∃ ends, ((if errcode ≠ uvEof then [Call.onError errcode] else []) ++
        if closing then [] else [Call.uvClose]).flatMap Call.heard = List.replicate ends .ended ∧
      Silent ((if errcode ≠ uvEof then [Call.onError errcode] else []) ++
        if closing then [] else [Call.uvClose]) := by
  have hsilent : Silent ((if errcode ≠ uvEof then [Call.onError errcode] else []) ++
      if closing then [] else [Call.uvClose]) := by
    intro bytes hmem
    split at hmem <;> cases closing <;> simp at hmem
  refine Exists.imp (fun ends hends => ⟨hends, hsilent⟩) ?_
  split <;> cases closing
  · exact ⟨2, rfl⟩
  · exact ⟨1, rfl⟩
  · exact ⟨1, rfl⟩
  · exact ⟨0, rfl⟩

/-- A message that is sent is its encoding on the wire. -/
theorem messageBytes_eq {op : UInt8} {data : Bytes} (sendable : Sendable (op, data)) :
    messageBytes op data = some (encoding (op, data)) := by
  obtain ⟨buf, hcall, hcontent⟩ := sendable_encodes sendable
  rw [messageBytes, if_neg sendable.nonempty, hcall]
  exact congrArg some hcontent

theorem wireOf_concat (said : List (UInt8 × Bytes)) (m : UInt8 × Bytes) :
    wireOf said ++ encoding m = wireOf (said ++ [m]) := by
  rw [wireOf, wireOf, List.map_append, List.flatten_append]
  simp

/-- The front of what was said is data. -/
theorem carries_front {said : List (UInt8 × Bytes)} (sendable : ∀ m ∈ said, Sendable m)
    {x rest : Bytes} (cut : x ++ rest = wireOf said) :
    ∃ told, told <+: said ∧ (rest = [] → told = said) ∧ CarriesData x (told.map Prod.snd) := by
  by_cases hrest : rest = []
  · rw [hrest, List.append_nil] at cut
    refine ⟨said, List.prefix_refl _, fun _ => rfl, ?_⟩
    rw [cut, wireOf, ← List.append_nil (said.map encoding).flatten]
    exact carries_sent sendable (Or.inl rfl)
  · obtain ⟨told, part, hfront, hpart, rfl⟩ := front_of_messages sendable ⟨rest, cut⟩
    exact ⟨told, hfront, fun h => absurd h hrest,
      carries_sent (fun m hm => sendable m (hfront.subset hm)) hpart⟩

end AnotherWs
