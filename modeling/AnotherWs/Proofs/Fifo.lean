/-
Module: AnotherWs.Proofs.Fifo
Purpose: One thread that sends to one peer, up to the callbacks of the peer: while its fills ascend,
  the peer hears its messages in the order in which they were sent, split or not.
Trusted boundary: none
Main exports: Lined, endToEnd_inOrder
-/
import AnotherWs.Proofs.EndToEnd
import AnotherWs.Proofs.SendOrder

namespace AnotherWs

open Framing

/-- The parts of a call that are not stored yet. -/
def SendCall.rest (c : SendCall) : Bytes := (c.parts.drop c.count).flatten

/-- What is stored for the peer, with what the call in progress has still to store, is all that was
said; or the peer is gone, no call is in progress, and what is stored is the front of it. -/
def Lined (thread peer : Nat) (said : List SaidCall) (s : SendSystem) : Prop :=
  bytesTo peer s.stored ++ ((s.senders thread).map SendCall.rest).getD [] =
      (said.map fun c => encoding c.message).flatten ∨
    s.connected peer = false ∧ s.senders thread = none ∧
      bytesTo peer s.stored <+: (said.map fun c => encoding c.message).flatten

namespace Lined

variable {thread peer : Nat} {past : List Action} {said : List SaidCall} {s s' : SendSystem}

/-- A step that stores nothing and leaves what the thread has still to store. -/
theorem keep (lined : Lined thread peer said s) (stored_eq : s'.stored = s.stored)
    (rest_eq : ((s'.senders thread).map SendCall.rest).getD [] =
      ((s.senders thread).map SendCall.rest).getD [])
    (idle : s.senders thread = none → s'.senders thread = none)
    (gone : s.connected peer = false → s'.connected peer = false) : Lined thread peer said s' := by
  rcases lined with hall | ⟨hgone, hidle, hfront⟩
  · left
    rw [stored_eq, rest_eq]
    exact hall
  · right
    rw [stored_eq]
    exact ⟨gone hgone, idle hidle, hfront⟩

/-- What is stored is the front of what was said. -/
theorem front (lined : Lined thread peer said s) :
    bytesTo peer s.stored <+: (said.map fun c => encoding c.message).flatten := by
  rcases lined with hall | ⟨-, -, hfront⟩
  · exact ⟨_, hall⟩
  · exact hfront

/-- A part goes from what is still to be stored to what is stored. -/
theorem filled (lined : Lined thread peer said s) (book : Book peer past said s) {c : SendCall}
    (valid : c.Valid s) (sending : s.senders thread = some c) (unfilled : c.filled = false)
    (stored_eq : s'.stored = s.stored ++ [c.context c.i])
    (senders_eq : s'.senders thread = some { c with filled := true }) :
    Lined thread peer said s' := by
  obtain ⟨hto, call, hsaid, hparts⟩ := book.senders thread c sending
  have hinside : c.i < c.parts.length := by
    rw [valid.parts_length]
    exact valid.inside
  have hlen : (c.part c.i).length ≤ 2 ^ 31 := by
    have hmem := List.mem_of_getElem? hsaid
    have hpart : c.part c.i ∈ call.parts := by
      rw [hparts, SendCall.part, List.getD_eq_getElem _ _ hinside]
      exact List.getElem_mem hinside
    have hle := (List.sublist_flatten_of_mem hpart).length_le
    rw [book.flatten call hmem] at hle
    exact Nat.le_trans hle (book.sendable call hmem).small
  have hcontext : bytesTo peer [c.context c.i] = c.part c.i := by
    rw [← hto]
    have hwhole : (c.context c.i).data.take (c.context c.i).len = c.part c.i := by
      show (c.part c.i).take ((c.part c.i).length % 2 ^ 32) = c.part c.i
      rw [Nat.mod_eq_of_lt (by omega), List.take_length]
    have hmine : [c.context c.i].filter (fun ctx => ctx.peer = c.peer) = [c.context c.i] :=
      List.filter_eq_self.mpr (List.forall_mem_singleton.mpr (decide_eq_true rfl))
    rw [bytesTo, hmine, List.flatMap_singleton, hwhole]
  have hdrop : c.rest = c.part c.i ++ SendCall.rest { c with filled := true } := by
    show (c.parts.drop c.count).flatten = c.part c.i ++ (c.parts.drop (c.i + 1)).flatten
    rw [SendCall.count_of_unfilled unfilled, List.drop_eq_getElem_cons hinside, List.flatten_cons,
      SendCall.part, List.getD_eq_getElem _ _ hinside]
  rcases lined with hall | ⟨-, hidle, -⟩
  · left
    rw [sending, Option.map_some, Option.getD_some, hdrop] at hall
    rw [stored_eq, senders_eq, bytesTo_append, hcontext, List.append_assoc]
    exact hall
  · rw [sending] at hidle
    cases hidle

/-- **One step** of a thread that sends alone. -/
theorem step {a : Action} {more : List SaidCall} (lined : Lined thread peer said s)
    (book : Book peer past said s) (book' : Book peer (past ++ [a]) (said ++ more) s')
    (wf : WellFormed s) (oneThread : OneThread thread s a) (talks : Talks peer s a)
    (h : s.step a = some s') : Lined thread peer (said ++ more) s' := by
  -- a step that accepts no call
  have hsame : s'.calls = s.calls → more = [] := by
    intro hcalls
    have hlen := book'.length_eq
    rw [List.length_append, hcalls, book.length_eq] at hlen
    exact List.eq_nil_of_length_eq_zero (by omega)
  obtain ⟨hback, -⟩ := step_disconnected peer wf.rotated h
  have hgone : s.connected peer = false → s'.connected peer = false := by
    intro hclosed
    by_contra hopen
    rw [Bool.not_eq_false] at hopen
    rw [hback hopen] at hclosed
    cases hclosed
  have hkeep : s'.calls = s.calls → s'.stored = s.stored →
      ((s'.senders thread).map SendCall.rest).getD [] =
        ((s.senders thread).map SendCall.rest).getD [] →
      (s.senders thread = none → s'.senders thread = none) →
      Lined thread peer (said ++ more) s' := by
    intro hcalls hstored hrest hidle
    rw [hsame hcalls, List.append_nil]
    exact lined.keep hstored hrest hidle hgone
  cases SendSystem.step_cases wf.rotated h with
  | called pool' idle spec => exact hkeep rfl rfl rfl fun h => h
  | @acquired t req pool' ids idle connected found nonempty length_eq spec =>
      obtain ⟨rfl, -⟩ := oneThread
      obtain ⟨m, split, -, hreq, -⟩ := talks
      -- the call is the last one of the book
      obtain ⟨-, call, hcall, hparts⟩ := book'.senders t _ (by
        rw [SendSystem.setSender_senders, if_pos rfl])
      have hlen := book'.length_eq
      rw [List.length_append, book.length_eq] at hlen
      replace hlen : s.calls + more.length = s.calls + 1 := hlen
      obtain ⟨x, rfl⟩ := List.length_eq_one_iff.mp (Nat.add_left_cancel hlen)
      replace hcall : (said ++ [x])[s.calls]? = some call := hcall
      rw [← book.length_eq, List.getElem?_concat_length, Option.some.injEq] at hcall
      subst hcall
      replace hparts : x.parts = req.parts := hparts
      have hflatten := book'.flatten x (List.mem_append_right _ (List.mem_singleton_self x))
      rcases lined with hall | ⟨hclosed, -, -⟩
      · left
        rw [idle] at hall
        rw [SendSystem.setSender_senders, if_pos rfl, List.map_append, List.flatten_append]
        rw [Option.map_none, Option.getD_none, List.append_nil] at hall
        show bytesTo peer s.stored ++ req.parts.flatten = _
        rw [hall, ← hparts, hflatten, List.map_singleton, List.flatten_singleton]
      · rw [← (sendWebsocketMsg_spec hreq).1, connected] at hclosed
        cases hclosed
  | @filled t c sending unfilled nonempty =>
      cases oneThread
      rw [hsame rfl, List.append_nil]
      refine lined.filled book (wf.valid thread c sending) sending unfilled rfl ?_
      rw [SendSystem.setSender_senders, if_pos rfl]
  | @emptyPart t c sending unfilled isEmpty =>
      exfalso
      obtain ⟨-, call, hsaid, hparts⟩ := book.senders t c sending
      have hinside : c.i < c.parts.length := by
        rw [(wf.valid t c sending).parts_length]
        exact (wf.valid t c sending).inside
      refine book.nonempty call (List.mem_of_getElem? hsaid) (c.part c.i) ?_ isEmpty
      rw [hparts, SendCall.part, List.getD_eq_getElem _ _ hinside]
      exact List.getElem_mem hinside
  | @notified t c sending filled more =>
      cases oneThread
      refine hkeep rfl rfl ?_ fun hidle => ?_
      · rw [SendSystem.setSender_senders, if_pos rfl, sending, Option.map_some, Option.map_some]
        show (c.parts.drop (c.i + 1)).flatten = (c.parts.drop c.count).flatten
        rw [SendCall.count_of_filled filled]
      · rw [sending] at hidle
        cases hidle
  | @returned t c sending filled last =>
      cases oneThread
      refine hkeep rfl rfl ?_ fun _ => ?_
      · rw [SendSystem.setSender_senders, if_pos rfl, sending, Option.map_some]
        show [] = (c.parts.drop c.count).flatten
        have hinside := (wf.valid thread c sending).inside
        rw [SendCall.count_of_filled filled, List.drop_eq_nil_of_le, List.flatten_nil]
        rw [(wf.valid thread c sending).parts_length]
        omega
      · rw [SendSystem.setSender_senders, if_pos rfl]
  | @refused t c sending unfilled closed =>
      cases oneThread
      rw [hsame rfl, List.append_nil]
      right
      refine ⟨?_, ?_, lined.front⟩
      · rw [← (book.senders thread c sending).1]
        exact closed
      · rw [SendSystem.setSender_senders, if_pos rfl]
  | skipped inside nothing => exact hkeep rfl rfl rfl fun h => h
  | sent inside pending data => exact hkeep (by simp) (by simp) (by simp) fun h => by simpa using h
  | closed => exact hkeep rfl rfl rfl fun h => h

end Lined

/-- **First in, first out, from the sender to the receiver.** A thread that sends alone to one peer,
with scans only between its calls and with fills that ascend: the peer hears the first of its
messages in the order in which they were sent, however the stream is cut, and all of them once
nothing is under way. -/
theorem endToEnd_inOrder {thread peer size : Nat} {connected : Nat → Bool} {actions : List Action}
    {s : SendSystem} (run : sendMachine.exec (.init size connected) actions = some s)
    (talks : sendMachine.Guarded (Talks peer) (.init size connected) actions)
    (oneThread : sendMachine.Guarded (OneThread thread) (.init size connected) actions)
    (ascending : sendMachine.Guarded Ascending (.init size connected) actions)
    (endpoint : EndpointType) {hd : WebsocketHandle} (fresh : Fresh hd) {chunks : List Bytes}
    (cut : chunks.flatten = s.wire peer) (nonempty : ∀ chunk ∈ chunks, chunk ≠ []) :
    ∃ said told : List (UInt8 × Bytes), (said.map encoding).Sublist (encodings actions) ∧
      said.length = s.calls ∧ told <+: said ∧
      (s.connected peer = true → s.Quiet → told = said) ∧
      ∃ hd' events, feedChunks endpoint hd chunks = .ok (hd', events) ∧
        .twCloseClient ∉ events ∧ payloads events = told.map Prod.snd := by
  obtain ⟨said, wf, written, inOrder, book, lined⟩ :=
    Machines.Machine.exec_history
      (fun past s => ∃ said, WellFormed s ∧ Written s ∧ InOrder thread s ∧ Book peer past said s ∧
        Lined thread peer said s)
      (fun past s a s' hinv hguard hstep => by
        obtain ⟨said, wf, written, inOrder, book, lined⟩ := hinv
        obtain ⟨htalks, honeThread, hascending⟩ := hguard
        obtain ⟨more, book'⟩ := book.step wf htalks hstep
        exact ⟨said ++ more, wellFormed_step wf hstep, written_step wf.rotated written hstep,
          inOrder_step wf inOrder honeThread hascending hstep, book',
          lined.step book book' wf honeThread htalks hstep⟩)
      ⟨[], wellFormed_init size connected, written_init size connected,
        inOrder_init thread size connected, book_init peer size connected, Or.inl rfl⟩
      (talks.and (oneThread.and ascending)) run
  -- what the peer has got is the front of what was said, and all of it in a quiet state
  have hsendable : ∀ m ∈ said.map SaidCall.message, Sendable m := by
    intro m hm
    obtain ⟨c, hc, rfl⟩ := List.mem_map.mp hm
    exact book.sendable c hc
  have hmap : (said.map fun c => encoding c.message) = (said.map SaidCall.message).map encoding := by
    rw [List.map_map]
    rfl
  obtain ⟨told, part, hfront, hpart, hwire, hall⟩ :
      ∃ (told : List (UInt8 × Bytes)) (part : Bytes), told <+: said.map SaidCall.message ∧
        Unfinished part ∧ s.wire peer = (told.map encoding).flatten ++ part ∧
        (s.connected peer = true → s.Quiet → told = said.map SaidCall.message) := by
    by_cases hquiet : s.connected peer = true ∧ s.Quiet
    · obtain ⟨hconnected, hidle, hempty⟩ := hquiet
      have hcontents : s.pool.contents = [] := Slots.contents_eq_nil fun id _ => hempty id
      have hreached := inOrder.ordered
      rw [hcontents, List.append_nil] at hreached
      rcases lined with hsaid | ⟨hclosed, -, -⟩
      · rw [hidle thread, Option.map_none, Option.getD_none, List.append_nil] at hsaid
        refine ⟨_, [], List.prefix_refl _, Or.inl rfl, ?_, fun _ _ => rfl⟩
        rw [List.append_nil, written.wire_eq peer hconnected, hreached, hsaid, hmap]
      · rw [hconnected] at hclosed
        cases hclosed
    · have hreached : s.reached <+: s.stored := ⟨s.pool.contents, inOrder.ordered⟩
      obtain ⟨told, part, hfront, hpart, hwire⟩ := front_of_messages hsendable (hmap ▸
        (written.prefix_reached peer).trans ((bytesTo_mono peer hreached).trans lined.front))
      exact ⟨told, part, hfront, hpart, hwire, fun hconnected h => absurd ⟨hconnected, h⟩ hquiet⟩
  refine ⟨said.map SaidCall.message, told, ?_, ?_, hfront, hall, ?_⟩
  · rw [List.map_map]
    exact book.sublist
  · rw [List.length_map]
    exact book.length_eq
  · exact hears_sent endpoint fresh cut nonempty
      (fun m hm => hsendable m (hfront.subset hm)) hpart hwire

/-- Two letters of one thread, the first in two parts, and a scan of all their handles. -/
def sampleLetters : List Action :=
  [.call 0 letterA, .fill 0, .notify 0, .fill 0, .notify 0, .call 0 letterB, .fill 0, .notify 0,
    .visit 0, .visit 1, .visit 2, .visit 3]

theorem endToEnd_inOrder_letters :
    ∃ s, sendMachine.exec (.init 4 fun _ => true) sampleLetters = some s ∧
      s.wire 7 = [0x81, 0x01, 0x61, 0x81, 0x01, 0x62] ∧
      ∃ said told : List (UInt8 × Bytes), (said.map encoding).Sublist (encodings sampleLetters) ∧
        said.length = s.calls ∧ told <+: said ∧
        (s.connected 7 = true → s.Quiet → told = said) ∧
        ∃ hd' events,
          feedChunks .client (newHandle .client) [[0x81], [0x01, 0x61, 0x81], [0x01, 0x62]] =
            .ok (hd', events) ∧
          .twCloseClient ∉ events ∧ payloads events = told.map Prod.snd := by
  have talks : sendMachine.Guarded (Talks 7) (.init 4 fun _ => true) sampleLetters := by
    refine talks_of_scans (fun t req hmem => ?_) (by decide)
    simp only [sampleLetters, List.mem_cons, Action.call.injEq, reduceCtorEq, List.not_mem_nil,
      or_false, false_or] at hmem
    rcases hmem with ⟨rfl, rfl⟩ | ⟨rfl, rfl⟩
    · exact letterA_talks _ _
    · exact letterB_talks _ _
  have oneThread : sendMachine.Guarded (OneThread 0) (.init 4 fun _ => true) sampleLetters := by decide
  obtain ⟨s, run, hwire⟩ : ∃ s, sendMachine.exec (.init 4 fun _ => true) sampleLetters = some s ∧
      s.wire 7 = [0x81, 0x01, 0x61, 0x81, 0x01, 0x62] := ⟨_, rfl, rfl⟩
  exact ⟨s, run, hwire, endToEnd_inOrder run talks oneThread (by decide) .client
    (newHandle_allocated .client).toFresh (by rw [hwire]; rfl) (by decide)⟩

end AnotherWs
