/-
Module: AnotherWs.Proofs.EndToEnd
Purpose: From the send calls of many threads to the callbacks of the peer. In a run that keeps the
  stream whole the peer hears messages that were sent, each no more often than it was sent and none
  torn, and all of them once the handles are empty.
Trusted boundary: none
Main exports: Talks, SendSystem.Quiet, SaidCall, Book, Told, endToEnd_delivers
-/
import AnotherWs.Proofs.SentStream
import AnotherWs.Proofs.WriteOrder
import Mathlib.Data.List.Perm.Subperm

namespace AnotherWs

open Framing Tiling

/-- Every call sends a message, and all of them to the one peer. A split function cuts data of every
length into parts that are not empty. The loop thread visits the handles in the order of
initialisation. -/
def Talks (peer : Nat) (s : SendSystem) : Action → Prop
  | .call _ req => ∃ m split, Sendable m ∧ sendWebsocketMsg peer m.2 m.1 split = .ok req ∧
      ∀ f ∈ split, LawfulSplit f
  | .visit id => id = s.cursor
  | _ => True

theorem Talks.messagesTo {peer : Nat} {s : SendSystem} {a : Action} (talks : Talks peer s a) :
    MessagesTo peer s a := by
  cases a with
  | call t req =>
      obtain ⟨m, split, -, hreq, hlawful⟩ := talks
      exact ⟨m.2, m.1, split, hreq, hlawful⟩
  | visit id => exact talks
  | fill | notify | refuse | close => trivial

/-- The data of a call is the encoding of its message. -/
theorem sendWebsocketMsg_data {peer : Nat} {m : UInt8 × Bytes} {split : Option (Nat → List Nat)}
    {req : Request} (sendable : Sendable m) (h : sendWebsocketMsg peer m.2 m.1 split = .ok req) :
    req.data = encoding m := by
  obtain ⟨buf, hcall, hcontent⟩ := sendable_encodes sendable
  rw [sendWebsocketMsg, hcall, ok_bind] at h
  cases h
  exact hcontent

/-- The parts of a call make up the encoding of its message, and none is empty. -/
theorem sendWebsocketMsg_parts {peer : Nat} {m : UInt8 × Bytes} {split : Option (Nat → List Nat)}
    {req : Request} (sendable : Sendable m) (h : sendWebsocketMsg peer m.2 m.1 split = .ok req)
    (lawful : ∀ f ∈ split, LawfulSplit f) :
    req.parts.flatten = encoding m ∧ ∀ part ∈ req.parts, part ≠ [] := by
  have hdata := sendWebsocketMsg_data sendable h
  have hne : req.data ≠ [] := hdata ▸ sendable.encoding_ne_nil
  obtain ⟨hflatten, hparts⟩ := Request.parts_spec h lawful (Or.inl hne)
  refine ⟨hflatten.trans hdata, ?_⟩
  rcases hsize : req.parts with _ | ⟨part, _ | ⟨next, rest⟩⟩
  · exact fun part hpart => absurd hpart List.not_mem_nil
  · rw [hsize, List.flatten_singleton] at hflatten
    exact List.forall_mem_singleton.mpr (hflatten ▸ hne)
  · exact hsize ▸ hparts (by rw [hsize]; simp)

/-- No call is in progress and no handle holds a context. -/
def SendSystem.Quiet (s : SendSystem) : Prop :=
  (∀ t, s.senders t = none) ∧ ∀ id, (s.pool.asyncs id).data = none

/-- What stands in a list stands there when the list grows. -/
theorem getElem?_append_of_some {α : Type} {l : List α} {i : Nat} {a : α} (h : l[i]? = some a)
    (more : List α) : (l ++ more)[i]? = some a := by
  obtain ⟨hlt, -⟩ := List.getElem?_eq_some_iff.mp h
  rw [List.getElem?_append_left hlt, h]

/-! ### The calls that got handles -/

/-- A call that has got its handles: the message, and the parts it is cut into. -/
structure SaidCall where
  message : UInt8 × Bytes
  parts : List Bytes

/-- The calls that have got handles, in the order of their numbers, and what the contexts stored so far
are of them. -/
structure Book (peer : Nat) (past : List Action) (said : List SaidCall) (s : SendSystem) : Prop where
  length_eq : said.length = s.calls
  sublist : (said.map fun c => encoding c.message).Sublist (encodings past)
  sendable : ∀ c ∈ said, Sendable c.message
  flatten : ∀ c ∈ said, c.parts.flatten = encoding c.message
  nonempty : ∀ c ∈ said, ∀ part ∈ c.parts, part ≠ []
  senders : ∀ t c, s.senders t = some c → c.peer = peer ∧
    ∃ call, said[c.call]? = some call ∧ call.parts = c.parts
  stored : ∀ ctx ∈ s.stored, ∃ call, said[ctx.call]? = some call ∧ ctx.part < call.parts.length ∧
    ctx = ⟨peer, call.parts.getD ctx.part [], (call.parts.getD ctx.part []).length % 2 ^ 32, ctx.call,
      ctx.part⟩
  begun : s.connected peer = true → ∀ k < s.calls, (∃ t c, s.senders t = some c ∧ c.call = k) ∨
    ∃ ctx ∈ s.stored, ctx.call = k

theorem book_init (peer size : Nat) (connected : Nat → Bool) :
    Book peer [] [] (.init size connected) where
  length_eq := rfl
  sublist := List.nil_sublist _
  sendable _ h := absurd h List.not_mem_nil
  flatten _ h := absurd h List.not_mem_nil
  nonempty _ h := absurd h List.not_mem_nil
  senders _ _ h := by cases h
  stored _ h := absurd h List.not_mem_nil
  begun _ k h := absurd h (Nat.not_lt_zero k)

namespace Book

variable {peer : Nat} {past : List Action} {said : List SaidCall} {s s' : SendSystem}

/-- A step that accepts no call and stores nothing. -/
theorem keep (book : Book peer past said s) (a : Action) (calls_eq : s'.calls = s.calls)
    (stored_eq : s'.stored = s.stored)
    (senders : ∀ t c', s'.senders t = some c' →
      ∃ c, s.senders t = some c ∧ c'.peer = c.peer ∧ c'.call = c.call ∧ c'.parts = c.parts)
    (begun : s'.connected peer = true → ∀ k < s.calls,
      (∃ t c, s'.senders t = some c ∧ c.call = k) ∨ ∃ ctx ∈ s.stored, ctx.call = k) :
    Book peer (past ++ [a]) said s' where
  length_eq := book.length_eq.trans calls_eq.symm
  sublist := by
    refine book.sublist.trans ?_
    rw [encodings, encodings, List.filterMap_append]
    exact List.sublist_append_left ..
  sendable := book.sendable
  flatten := book.flatten
  nonempty := book.nonempty
  senders t c' h := by
    obtain ⟨c, hc, hpeer, hcall, hparts⟩ := senders t c' h
    obtain ⟨hto, call, hsaid, hsame⟩ := book.senders t c hc
    exact ⟨hpeer.trans hto, call, by rw [hcall]; exact hsaid, hsame.trans hparts.symm⟩
  stored ctx h := book.stored ctx (stored_eq ▸ h)
  begun hconnected k hk := by
    rw [stored_eq]
    exact begun hconnected k (calls_eq ▸ hk)

/-- A call that has got its handles is written into the book. -/
theorem acquired (book : Book peer past said s) {t : Nat} {req : Request} {ids : List Nat}
    {pool' : CAsyncs} {m : UInt8 × Bytes} (sendable : Sendable m) (data_eq : req.data = encoding m)
    (peer_eq : req.peer = peer) (flatten : req.parts.flatten = req.data)
    (nonempty : ∀ part ∈ req.parts, part ≠ []) (idle : s.senders t = none) :
    Book peer (past ++ [.call t req]) (said ++ [⟨m, req.parts⟩])
      ({ s with pool := pool', calls := s.calls + 1 }.setSender t
        (some ⟨s.calls, req.peer, ids, req.parts, 0, false⟩)) where
  length_eq := by
    rw [List.length_append, book.length_eq]
    rfl
  sublist := by
    have hlast : encodings (past ++ [.call t req]) = encodings past ++ [encoding m] := by
      rw [← data_eq]
      exact List.filterMap_append ..
    rw [hlast, List.map_append]
    exact book.sublist.append (List.Sublist.refl _)
  sendable := List.forall_mem_append.mpr
    ⟨book.sendable, List.forall_mem_singleton.mpr sendable⟩
  flatten := List.forall_mem_append.mpr
    ⟨book.flatten, List.forall_mem_singleton.mpr (flatten.trans data_eq)⟩
  nonempty := List.forall_mem_append.mpr
    ⟨book.nonempty, List.forall_mem_singleton.mpr nonempty⟩
  senders t' c' h := by
    rw [SendSystem.setSender_senders] at h
    split at h
    · cases h
      refine ⟨peer_eq, ⟨m, req.parts⟩, ?_, rfl⟩
      rw [← book.length_eq]
      exact List.getElem?_concat_length
    · obtain ⟨hto, call, hsaid, hsame⟩ := book.senders t' c' h
      exact ⟨hto, call, getElem?_append_of_some hsaid _, hsame⟩
  stored ctx h := by
    obtain ⟨call, hsaid, hrest⟩ := book.stored ctx h
    exact ⟨call, getElem?_append_of_some hsaid _, hrest⟩
  begun hconnected k hk := by
    by_cases hnew : k = s.calls
    · exact Or.inl ⟨t, _, by rw [SendSystem.setSender_senders, if_pos rfl], hnew.symm⟩
    · have hold : k < s.calls := Nat.lt_of_le_of_ne (Nat.le_of_lt_succ hk) hnew
      rcases book.begun hconnected k hold with ⟨t', c', hc', hcall⟩ | hstored
      · refine Or.inl ⟨t', c', ?_, hcall⟩
        rw [SendSystem.setSender_senders, if_neg]
        · exact hc'
        · rintro rfl
          rw [idle] at hc'
          cases hc'
      · exact Or.inr hstored

/-- A part is stored. -/
theorem filled (book : Book peer past said s) {t : Nat} {c : SendCall} (valid : c.Valid s)
    (sending : s.senders t = some c) (a : Action) :
    Book peer (past ++ [a]) said
      (({ s with stored := s.stored ++ [c.context c.i] }.setAsync (c.async c.i)
        { s.pool.asyncs (c.async c.i) with data := some (c.context c.i) }).setSender t
          (some { c with filled := true })) where
  length_eq := book.length_eq
  sublist := by
    refine book.sublist.trans ?_
    rw [encodings, encodings, List.filterMap_append]
    exact List.sublist_append_left ..
  sendable := book.sendable
  flatten := book.flatten
  nonempty := book.nonempty
  senders t' c' h := by
    rw [SendSystem.setSender_senders] at h
    split at h
    · cases h
      exact book.senders t c sending
    · exact book.senders t' c' h
  stored := by
    refine List.forall_mem_append.mpr ⟨book.stored, List.forall_mem_singleton.mpr ?_⟩
    obtain ⟨hto, call, hsaid, hsame⟩ := book.senders t c sending
    refine ⟨call, hsaid, ?_, ?_⟩
    · rw [hsame, valid.parts_length]
      exact valid.inside
    · rw [hsame, ← hto]
      rfl
  begun hconnected k hk := by
    rcases book.begun hconnected k hk with ⟨t', c', hc', hcall⟩ | ⟨ctx, hctx, hcall⟩
    · by_cases ht : t' = t
      · subst ht
        rw [sending, Option.some.injEq] at hc'
        subst hc'
        refine Or.inl ⟨t', { c with filled := true }, ?_, hcall⟩
        rw [SendSystem.setSender_senders, if_pos rfl]
      · exact Or.inl ⟨t', c', by rw [SendSystem.setSender_senders, if_neg ht]; exact hc', hcall⟩
    · exact Or.inr ⟨ctx, List.mem_append_left _ hctx, hcall⟩

/-- A call leaves: it has stored something, or it is over with the connection. -/
theorem leave (book : Book peer past said s) (a : Action) {t : Nat} {c : SendCall}
    (sending : s.senders t = some c) (calls_eq : s'.calls = s.calls) (stored_eq : s'.stored = s.stored)
    (connected_eq : s'.connected = s.connected) (gone : s'.senders t = none)
    (others : ∀ t', t' ≠ t → s'.senders t' = s.senders t')
    (kept : s.connected peer = true → ∃ ctx ∈ s.stored, ctx.call = c.call) :
    Book peer (past ++ [a]) said s' := by
  refine book.keep a calls_eq stored_eq (fun t' c' h => ?_) (fun hconnected k hk => ?_)
  · by_cases ht : t' = t
    · subst ht
      rw [gone] at h
      cases h
    · exact ⟨c', others t' ht ▸ h, rfl, rfl, rfl⟩
  · rw [connected_eq] at hconnected
    rcases book.begun hconnected k hk with ⟨t', c', hc', hcall⟩ | hstored
    · by_cases ht : t' = t
      · subst ht
        rw [sending, Option.some.injEq] at hc'
        subst hc'
        obtain ⟨ctx, hctx, hsame⟩ := kept hconnected
        exact Or.inr ⟨ctx, hctx, hsame.trans hcall⟩
      · exact Or.inl ⟨t', c', (others t' ht).trans hc', hcall⟩
    · exact Or.inr hstored

/-- **One step** of the book. -/
theorem step {a : Action} (book : Book peer past said s) (wf : WellFormed s) (talks : Talks peer s a)
    (h : s.step a = some s') : ∃ more, Book peer (past ++ [a]) (said ++ more) s' := by
  -- a call that stays with the parts it has
  have hsame : ∀ {t : Nat} {c next : SendCall}, s.senders t = some c → next.peer = c.peer →
      next.call = c.call → next.parts = c.parts → s'.calls = s.calls → s'.stored = s.stored →
      s'.connected = s.connected →
      (∀ t', s'.senders t' = if t' = t then some next else s.senders t') →
      ∃ more, Book peer (past ++ [a]) (said ++ more) s' := by
    intro t c next sending hpeer hcall hparts hcalls hstored hconnected_eq hsenders
    refine ⟨[], ?_⟩
    rw [List.append_nil]
    refine book.keep a hcalls hstored (fun t' c' h' => ?_) (fun hconnected k hk => ?_)
    · rw [hsenders] at h'
      split at h'
      · cases h'
        exact ⟨c, by rename_i heq; rw [heq]; exact sending, hpeer, hcall, hparts⟩
      · exact ⟨c', h', rfl, rfl, rfl⟩
    · rw [hconnected_eq] at hconnected
      rcases book.begun hconnected k hk with ⟨t', c', hc', hk'⟩ | hstored
      · by_cases ht : t' = t
        · subst ht
          rw [sending, Option.some.injEq] at hc'
          subst hc'
          exact Or.inl ⟨t', next, by rw [hsenders, if_pos rfl], hcall.trans hk'⟩
        · exact Or.inl ⟨t', c', by rw [hsenders, if_neg ht]; exact hc', hk'⟩
      · exact Or.inr hstored
  -- a step that is none of a call's
  have hidle : s'.calls = s.calls → s'.stored = s.stored → s'.senders = s.senders →
      (s'.connected peer = true → s.connected peer = true) →
      ∃ more, Book peer (past ++ [a]) (said ++ more) s' := by
    intro hcalls hstored hsenders hback
    refine ⟨[], ?_⟩
    rw [List.append_nil]
    refine book.keep a hcalls hstored (fun t' c' h' => ?_) (fun hconnected k hk => ?_)
    · exact ⟨c', hsenders ▸ h', rfl, rfl, rfl⟩
    · rw [hsenders]
      exact book.begun (hback hconnected) k hk
  obtain ⟨hback, -⟩ := step_disconnected peer wf.rotated h
  cases SendSystem.step_cases wf.rotated h with
  | called pool' idle spec => exact hidle rfl rfl rfl hback
  | @acquired t req pool' ids idle connected found nonempty length_eq spec =>
      obtain ⟨m, split, sendable, hreq, lawful⟩ := talks
      have hdata := sendWebsocketMsg_data sendable hreq
      obtain ⟨hflatten, hparts⟩ := sendWebsocketMsg_parts sendable hreq lawful
      exact ⟨_, book.acquired sendable hdata (sendWebsocketMsg_spec hreq).1 (hflatten.trans hdata.symm)
        hparts idle⟩
  | @filled t c sending unfilled nonempty =>
      exact ⟨[], (List.append_nil said).symm ▸ book.filled (wf.valid t c sending) sending _⟩
  | @emptyPart t c sending unfilled isEmpty =>
      exfalso
      obtain ⟨-, call, hsaid, hparts⟩ := book.senders t c sending
      have hinside : c.i < c.parts.length := by
        rw [(wf.valid t c sending).parts_length]
        exact (wf.valid t c sending).inside
      refine book.nonempty call (List.mem_of_getElem? hsaid) (c.part c.i) ?_ isEmpty
      rw [hparts, SendCall.part, List.getD_eq_getElem _ _ hinside]
      exact List.getElem_mem hinside
  | @notified t c sending filled more =>
      exact @hsame t c { c with i := c.i + 1, filled := false } sending rfl rfl rfl rfl rfl rfl
        fun t' => SendSystem.setSender_senders ..
  | @returned t c sending filled last =>
      refine ⟨[], (List.append_nil said).symm ▸ book.leave _ sending rfl rfl rfl ?_ ?_ ?_⟩
      · rw [SendSystem.setSender_senders, if_pos rfl]
      · intro t' ht
        rw [SendSystem.setSender_senders, if_neg ht]
        rfl
      · intro _
        refine ⟨c.context 0, (wf.valid t c sending).stored 0 ?_, rfl⟩
        rw [SendCall.count_of_filled filled]
        exact Nat.succ_pos _
  | @refused t c sending unfilled closed =>
      refine ⟨[], (List.append_nil said).symm ▸ book.leave _ sending rfl rfl rfl ?_ ?_ ?_⟩
      · rw [SendSystem.setSender_senders, if_pos rfl]
      · intro t' ht
        rw [SendSystem.setSender_senders, if_neg ht]
      · intro hconnected
        rw [(book.senders t c sending).1, hconnected] at closed
        cases closed
  | skipped inside nothing => exact hidle rfl rfl rfl hback
  | sent inside pending data => exact hidle (by simp) (by simp) (by simp) hback
  | closed => exact hidle rfl rfl rfl hback

end Book

/-! ### What the peer has got -/

/-- The first parts of a call, by their numbers. -/
theorem flatMap_range_getD (parts : List Bytes) {n : Nat} (h : n ≤ parts.length) :
    ((List.range n).flatMap fun j => parts.getD j []) = (parts.take n).flatten := by
  induction n with
  | zero => rfl
  | succ n ih =>
      rw [List.range_succ, List.flatMap_append, ih (by omega), List.flatMap_singleton,
        List.getD_eq_getElem _ _ (by omega), ← List.take_concat_get' parts n (by omega),
        List.flatten_append, List.flatten_singleton]

/-- A list by its places. -/
theorem map_range_getD {α : Type} (l : List α) (d : α) :
    (List.range l.length).map (fun k => l.getD k d) = l := by
  refine List.ext_getElem (by simp) fun i hi hi' => ?_
  rw [List.getElem_map, List.getElem_range, List.getD_eq_getElem _ _ hi']

/-- Some of a list, mapped, is some of the mapped list. -/
theorem subperm_map {α β : Type} (f : α → β) {l l' : List α} (h : l.Subperm l') :
    (l.map f).Subperm (l'.map f) := by
  obtain ⟨inner, perm, sublist⟩ := h
  exact ⟨inner.map f, perm.map f, sublist.map f⟩

/-- The call that a message is of. -/
def callOf (m : List SendDataContext) : Nat := (m.head?.map SendDataContext.call).getD 0

/-- The entry of a call in the book. -/
def saidAt (said : List SaidCall) (k : Nat) : SaidCall := said.getD k ⟨(0, []), []⟩

section Heard

variable {peer : Nat} {past : List Action} {said : List SaidCall} {s : SendSystem}
  {messages : List Bytes}

/-- The stored contexts of a message are all of one call's, and make up what that call says. -/
theorem Book.whole (book : Book peer past said s)
    (sendables : ∀ e ∈ messages, ∃ x, Sendable x ∧ encoding x = e) {m : List SendDataContext}
    (message : IsMessage peer messages m) (stored : ∀ ctx ∈ m, ctx ∈ s.stored) :
    ∃ ctx rest, m = ctx :: rest ∧ ctx.part = 0 ∧ callOf m < said.length ∧
      (∀ other ∈ m, other.call = callOf m) ∧
      bytesTo peer m = encoding (saidAt said (callOf m)).message := by
  obtain ⟨x, hx, hbytes⟩ := sendables _ message.bytes_mem
  cases m with
  | nil => exact absurd hbytes hx.encoding_ne_nil
  | cons ctx rest =>
      obtain ⟨k, hk⟩ := message.call_eq
      have hctx := hk ctx List.mem_cons_self
      have hpart : ctx.part = 0 := by
        have hparts := message.part_eq
        rw [List.length_cons, List.range_succ_eq_map, List.map_cons, List.cons.injEq] at hparts
        exact hparts.1
      obtain ⟨call, hsaid, -, -⟩ := book.stored ctx (stored ctx List.mem_cons_self)
      have hlt := (List.getElem?_eq_some_iff.mp hsaid).1
      have hat : saidAt said ctx.call = call := by
        rw [saidAt, List.getD_eq_getElem?_getD, hsaid, Option.getD_some]
      -- every context is the part of that call with its number
      have hdata : ∀ other ∈ ctx :: rest, other.part < call.parts.length ∧
          other.data.take other.len = call.parts.getD other.part [] := by
        intro other hother
        obtain ⟨call', hsaid', hlength, heq⟩ := book.stored other (stored other hother)
        rw [hk other hother, ← hctx, hsaid, Option.some.injEq] at hsaid'
        subst hsaid'
        refine ⟨hlength, ?_⟩
        have hmem := List.mem_of_getElem? hsaid
        have hle : (call.parts.getD other.part []).length ≤ 2 ^ 31 := by
          rw [List.getD_eq_getElem _ _ hlength]
          have hpart := (List.sublist_flatten_of_mem (List.getElem_mem hlength)).length_le
          rw [book.flatten call hmem] at hpart
          exact Nat.le_trans hpart (book.sendable call hmem).small
        rw [heq, Nat.mod_eq_of_lt (by omega), List.take_length]
      have hcount : (ctx :: rest).length ≤ call.parts.length := by
        have hlast : (ctx :: rest).length - 1 ∈ (ctx :: rest).map SendDataContext.part := by
          rw [message.part_eq, List.mem_range, List.length_cons]
          omega
        obtain ⟨other, hother, heq⟩ := List.mem_map.mp hlast
        have := (hdata other hother).1
        rw [heq, List.length_cons] at this
        rw [List.length_cons]
        omega
      have hfront : bytesTo peer (ctx :: rest) =
          (call.parts.take (ctx :: rest).length).flatten := by
        have hall : (ctx :: rest).filter (fun other => other.peer = peer) = ctx :: rest :=
          List.filter_eq_self.mpr fun other hother => decide_eq_true (message.peer_eq other hother)
        rw [bytesTo, hall, ← flatMap_range_getD _ hcount, ← message.part_eq, List.flatMap_map]
        exact List.flatMap_congr fun other hother => (hdata other hother).2
      refine ⟨ctx, rest, rfl, hpart, hlt, fun other hother => (hk other hother).trans hctx.symm, ?_⟩
      rw [show callOf (ctx :: rest) = ctx.call from rfl, hat]
      have hmem := List.mem_of_getElem? hsaid
      have hcut : encoding x ++ (call.parts.drop (ctx :: rest).length).flatten =
          encoding call.message := by
        rw [hbytes, hfront, ← List.flatten_append, List.take_append_drop, book.flatten call hmem]
      rw [← hbytes, ← hcut, encoding_prefix_free hx (book.sendable call hmem) hcut, List.append_nil]

/-- Messages that are all there are of different calls. -/
theorem Book.calls_nodup (book : Book peer past said s)
    (sendables : ∀ e ∈ messages, ∃ x, Sendable x ∧ encoding x = e)
    {whole : List (List SendDataContext)} (isMessage : ∀ m ∈ whole, IsMessage peer messages m)
    (stored : ∀ ctx ∈ whole.flatten, ctx ∈ s.stored) (nodup : whole.flatten.Nodup) :
    (whole.map callOf).Nodup := by
  rw [List.Nodup, List.pairwise_map]
  refine List.Pairwise.imp_of_mem ?_ (List.nodup_flatten.mp nodup).2
  intro m m' hm hm' disjoint same
  have hstored : ∀ m ∈ whole, ∀ ctx ∈ m, ctx ∈ s.stored := fun m hm ctx hctx =>
    stored ctx (List.mem_flatten_of_mem hm hctx)
  obtain ⟨ctx, rest, rfl, hpart, -, -, -⟩ := book.whole sendables (isMessage m hm) (hstored m hm)
  obtain ⟨ctx', rest', rfl, hpart', -, -, -⟩ :=
    book.whole sendables (isMessage m' hm') (hstored m' hm')
  replace same : ctx.call = ctx'.call := same
  -- the first contexts of the two would be the same one
  obtain ⟨call, hsaid, -, heq⟩ := book.stored ctx (hstored _ hm ctx List.mem_cons_self)
  obtain ⟨call', hsaid', -, heq'⟩ := book.stored ctx' (hstored _ hm' ctx' List.mem_cons_self)
  rw [← same, hsaid, Option.some.injEq] at hsaid'
  subst hsaid'
  rw [hpart, same] at heq
  rw [hpart'] at heq'
  exact disjoint List.mem_cons_self (heq.trans heq'.symm ▸ List.mem_cons_self)

/-- The peer has got messages of different calls, one after the other, and perhaps the front of one
more. When it is connected and nothing is under way, these are the messages of all calls. -/
def Told (peer : Nat) (said : List SaidCall) (s : SendSystem) : Prop :=
  ∃ (told : List SaidCall) (part : Bytes), told.Subperm said ∧ Unfinished part ∧
    s.wire peer = (told.map fun c => encoding c.message).flatten ++ part ∧
    (s.connected peer = true → s.Quiet → told.Perm said)

/-- Messages that are all there are of different calls are told. -/
theorem Book.subperm (book : Book peer past said s)
    (sendables : ∀ e ∈ messages, ∃ x, Sendable x ∧ encoding x = e)
    {whole : List (List SendDataContext)} (isMessage : ∀ m ∈ whole, IsMessage peer messages m)
    (stored : ∀ ctx ∈ whole.flatten, ctx ∈ s.stored) (nodup : whole.flatten.Nodup) :
    (whole.map fun m => saidAt said (callOf m)).Subperm said ∧
      whole.map (bytesTo peer) =
        (whole.map fun m => saidAt said (callOf m)).map (fun c => encoding c.message) ∧
      ((∀ k < said.length, ∃ ctx ∈ whole.flatten, ctx.call = k) →
        (whole.map fun m => saidAt said (callOf m)).Perm said) := by
  have hstored : ∀ m ∈ whole, ∀ ctx ∈ m, ctx ∈ s.stored := fun m hm ctx hctx =>
    stored ctx (List.mem_flatten_of_mem hm hctx)
  have hcalls : (whole.map callOf).Subperm (List.range said.length) := by
    refine List.subperm_of_subset (book.calls_nodup sendables isMessage stored nodup) ?_
    intro k hk
    obtain ⟨m, hm, rfl⟩ := List.mem_map.mp hk
    obtain ⟨-, -, -, -, hlt, -, -⟩ := book.whole sendables (isMessage m hm) (hstored m hm)
    exact List.mem_range.mpr hlt
  have hsaid : (List.range said.length).map (saidAt said) = said := map_range_getD said _
  have htold : (whole.map fun m => saidAt said (callOf m)) = (whole.map callOf).map (saidAt said) := by
    rw [List.map_map]
    rfl
  refine ⟨?_, ?_, fun all => ?_⟩
  · rw [htold]
    have hmapped := subperm_map (saidAt said) hcalls
    rwa [hsaid] at hmapped
  · rw [List.map_map]
    refine List.map_congr_left fun m hm => ?_
    obtain ⟨-, -, -, -, -, -, hbytes⟩ := book.whole sendables (isMessage m hm) (hstored m hm)
    exact hbytes
  · rw [htold]
    have hperm : (whole.map callOf).Perm (List.range said.length) := by
      refine hcalls.antisymm (List.subperm_of_subset List.nodup_range ?_)
      intro k hk
      obtain ⟨ctx, hctx, rfl⟩ := all k (List.mem_range.mp hk)
      obtain ⟨m, hm, hmem⟩ := List.mem_flatten.mp hctx
      obtain ⟨-, -, -, -, -, hsame, -⟩ := book.whole sendables (isMessage m hm) (hstored m hm)
      exact List.mem_map.mpr ⟨m, hm, (hsame ctx hmem).symm⟩
    have hmapped := hperm.map (saidAt said)
    rwa [hsaid] at hmapped

/-- In a quiet state no message is read in part. -/
theorem Line.cur_eq_nil {cells : Nat → Option SendDataContext} (line : Line peer messages s cells)
    (quiet : s.Quiet) {cur : List SendDataContext}
    (lane : Lane (IsMessage peer messages) cur (s.scanOrder.map cells)) : cur = [] := by
  obtain ⟨rest, hlane, -⟩ := lane
  cases cur with
  | nil => rfl
  | cons ctx cur =>
      exfalso
      have hmem : some ctx ∈ s.scanOrder.map cells := by
        rw [hlane]
        exact List.mem_cons_self
      obtain ⟨id, -, hid⟩ := List.mem_map.mp hmem
      have hfree := line.data_eq id fun t c h => by
        rw [quiet.1 t] at h
        cases h
      rw [hfree, quiet.2 id] at hid
      cases hid

/-- While the peer is connected its messages are told. -/
theorem Line.told {cells : Nat → Option SendDataContext} (line : Line peer messages s cells)
    (book : Book peer past said s) (wf : WellFormed s) (apart : Apart s) (written : Written s)
    (sendables : ∀ e ∈ messages, ∃ x, Sendable x ∧ encoding x = e)
    (connected : s.connected peer = true) : Told peer said s := by
  obtain ⟨whole, front, cur, hreached, hwhole, lane, hmessage⟩ := line.lane
  have hnodup : s.reached.Nodup :=
    (List.nodup_append.mp (apart.conserved.nodup_iff.mp wf.nodup)).1
  have hstored : ∀ ctx ∈ s.reached, ctx ∈ s.stored := fun ctx hctx =>
    apart.conserved.mem_iff.mpr (List.mem_append_left _ hctx)
  have hwire : s.wire peer = (whole.map (bytesTo peer)).flatten ++ bytesTo peer front := by
    rw [written.wire_eq peer connected, hreached, bytesTo_append, bytesTo_flatten]
  -- in a quiet state every call has reached the peer
  have hall : s.Quiet → ∀ k < said.length, ∃ ctx ∈ s.reached, ctx.call = k := by
    intro quiet k hk
    rcases book.begun connected k (book.length_eq ▸ hk) with ⟨t, c, hc, -⟩ | ⟨ctx, hctx, hcall⟩
    · rw [quiet.1 t] at hc
      cases hc
    · refine ⟨ctx, ?_, hcall⟩
      rcases List.mem_append.mp (apart.conserved.mem_iff.mp hctx) with hmem | hmem
      · exact hmem
      · obtain ⟨id, -, hdata⟩ := CAsyncs.mem_contents.mp hmem
        rw [quiet.2 id] at hdata
        cases hdata
  -- what has been read is whole messages
  have hdone : ∀ whole' : List (List SendDataContext), s.reached = whole'.flatten →
      (∀ m ∈ whole', IsMessage peer messages m) → s.wire peer = (whole'.map (bytesTo peer)).flatten →
      Told peer said s := by
    intro whole' hreached' hwhole' hwire'
    obtain ⟨hsub, hbytes, hperm⟩ := book.subperm sendables hwhole'
      (fun ctx hctx => hstored ctx (hreached' ▸ hctx)) (hreached' ▸ hnodup)
    refine ⟨_, [], hsub, Or.inl rfl, ?_, fun _ quiet => hperm ?_⟩
    · rw [List.append_nil, hwire', hbytes]
    · rw [← hreached']
      exact hall quiet
  rcases hmessage with ⟨rfl, -⟩ | ⟨hfront, hm⟩
  · refine hdone whole (by rw [hreached, List.append_nil]) hwhole ?_
    rw [hwire, show bytesTo peer [] = [] from rfl, List.append_nil]
  · by_cases hrest : bytesTo peer cur = []
    · -- the last message is complete
      have hlast : IsMessage peer messages front := by
        obtain ⟨k, hk⟩ := hm.call_eq
        have hparts := congrArg (List.take front.length) hm.part_eq
        rw [List.map_append, List.take_left' (List.length_map _), List.length_append, List.take_range,
          Nat.min_eq_left (Nat.le_add_right _ _)] at hparts
        have hmem := hm.bytes_mem
        rw [bytesTo_append, hrest, List.append_nil] at hmem
        exact ⟨⟨k, fun ctx hctx => hk ctx (List.mem_append_left _ hctx)⟩, hparts,
          fun ctx hctx => hm.peer_eq ctx (List.mem_append_left _ hctx), hmem⟩
      refine hdone (whole ++ [front]) (by rw [hreached]; simp) ?_ (by rw [hwire]; simp)
      exact List.forall_mem_append.mpr ⟨hwhole, List.forall_mem_singleton.mpr hlast⟩
    · obtain ⟨x, hx, hbytes⟩ := sendables _ hm.bytes_mem
      rw [bytesTo_append] at hbytes
      obtain ⟨hsub, hwholeBytes, -⟩ := book.subperm sendables hwhole
        (fun ctx hctx => hstored ctx (hreached ▸ List.mem_append_left _ hctx))
        (List.nodup_append.mp (hreached ▸ hnodup)).1
      refine ⟨_, bytesTo peer front, hsub, Or.inr ⟨x, _, hx, hbytes.symm, hrest⟩, ?_, ?_⟩
      · rw [hwire, hwholeBytes]
      · intro _ quiet
        rw [line.cur_eq_nil quiet lane] at hrest
        exact absurd rfl hrest

end Heard

/-! ### Runs -/

/-- What holds after every guarded run: the book, and what the peer has got. -/
theorem told_of_run {peer size : Nat} {connected : Nat → Bool} {actions : List Action} {s : SendSystem}
    (run : sendMachine.exec (.init size connected) actions = some s)
    (talks : sendMachine.Guarded (Talks peer) (.init size connected) actions)
    (uncut : sendMachine.Guarded Uncut (.init size connected) actions) :
    ∃ said, Book peer actions said s ∧ Told peer said s := by
  have hmem : sendMachine.Guarded (fun _ a => a ∈ actions) (.init size connected) actions :=
    .of_forall (fun a ha _ => ha) _
  have sendables : ∀ e ∈ encodings actions, ∃ x, Sendable x ∧ encoding x = e := by
    intro e he
    obtain ⟨a, ha, heq⟩ := List.mem_filterMap.mp he
    obtain ⟨before, hguard⟩ := talks.exists_of_mem run ha
    cases a with
    | call t req =>
        obtain ⟨m, split, sendable, hreq, -⟩ := hguard
        cases heq
        exact ⟨m, sendable, (sendWebsocketMsg_data sendable hreq).symm⟩
    | fill | notify | refuse | visit | close => cases heq
  obtain ⟨said, -, -, -, book, told, -⟩ :=
    Machines.Machine.exec_history
      (fun past s => ∃ said, WellFormed s ∧ Apart s ∧ Written s ∧ Book peer past said s ∧
        Told peer said s ∧ (s.connected peer = true → ∃ cells, Line peer (encodings actions) s cells))
      (fun past s a s' hinv hguard hstep => by
        obtain ⟨said, wf, apart, written, book, told, hline⟩ := hinv
        obtain ⟨htalks, huncut, hin⟩ := hguard
        have hexclusive : Exclusive s a := by
          cases a with
          | call t req => exact huncut
          | fill | notify | refuse | visit | close => trivial
        have hmessages : ∀ t req, a = .call t req → req.data ∈ encodings actions := by
          rintro t req rfl
          exact List.mem_filterMap.mpr ⟨_, hin, rfl⟩
        have wf' := wellFormed_step wf hstep
        have apart' := apart_step wf apart hexclusive hstep
        have written' := written_step wf.rotated written hstep
        obtain ⟨more, book'⟩ := book.step wf htalks hstep
        obtain ⟨hback, hfrozen⟩ := step_disconnected peer wf.rotated hstep
        have hline' : s'.connected peer = true →
            ∃ cells, Line peer (encodings actions) s' cells := by
          intro hconnected
          obtain ⟨cells, line⟩ := hline (hback hconnected)
          exact line.step wf apart (hback hconnected) htalks.messagesTo huncut hmessages hstep
        refine ⟨said ++ more, wf', apart', written', book', ?_, hline'⟩
        cases hconnected : s'.connected peer with
        | true =>
            obtain ⟨cells, line⟩ := hline' hconnected
            exact line.told book' wf' apart' written' sendables hconnected
        | false =>
            obtain ⟨told, part, hsub, hpart, hwire, -⟩ := told
            refine ⟨told, part, hsub.trans (List.sublist_append_left ..).subperm, hpart,
              (hfrozen hconnected).trans hwire, fun hopen => ?_⟩
            rw [hconnected] at hopen
            cases hopen)
      ⟨[], wellFormed_init size connected, apart_init size connected, written_init size connected,
        book_init peer size connected,
        ⟨[], [], List.nil_subperm, Or.inl rfl, rfl, fun _ _ => List.Perm.refl _⟩,
        fun _ => ⟨_, line_init peer (encodings actions) size connected⟩⟩
      (talks.and (uncut.and hmem)) run
  exact ⟨said, book, told⟩

/-- **From the senders to the receiver.** In every run that keeps the stream to a peer whole, the peer's
receive loop, however the stream is cut, closes nothing and delivers exactly messages that calls with
handles have sent, each call's at most once; once nothing is under way, those of all calls. -/
theorem endToEnd_delivers {peer size : Nat} {connected : Nat → Bool} {actions : List Action}
    {s : SendSystem} (run : sendMachine.exec (.init size connected) actions = some s)
    (talks : sendMachine.Guarded (Talks peer) (.init size connected) actions)
    (uncut : sendMachine.Guarded Uncut (.init size connected) actions) (endpoint : EndpointType)
    {hd : WebsocketHandle} (fresh : Fresh hd) {chunks : List Bytes}
    (cut : chunks.flatten = s.wire peer) (nonempty : ∀ chunk ∈ chunks, chunk ≠ []) :
    ∃ said told : List (UInt8 × Bytes), (said.map encoding).Sublist (encodings actions) ∧
      said.length = s.calls ∧ told.Subperm said ∧
      (s.connected peer = true → s.Quiet → told.Perm said) ∧
      ∃ hd' events, feedChunks endpoint hd chunks = .ok (hd', events) ∧
        .twCloseClient ∉ events ∧ payloads events = told.map Prod.snd := by
  obtain ⟨said, book, told, part, hsub, hpart, hwire, hperm⟩ := told_of_run run talks uncut
  refine ⟨said.map SaidCall.message, told.map SaidCall.message, ?_, ?_,
    subperm_map SaidCall.message hsub,
    fun hconnected quiet => (hperm hconnected quiet).map SaidCall.message, ?_⟩
  · rw [List.map_map]
    exact book.sublist
  · rw [List.length_map]
    exact book.length_eq
  · refine hears_sent endpoint fresh cut nonempty (fun m hm => ?_) hpart ?_
    · obtain ⟨c, hc, rfl⟩ := List.mem_map.mp hm
      exact book.sendable c (hsub.subset hc)
    · rw [hwire, List.map_map]
      rfl

/-! ### A run to try things on -/

/-- The loop thread visits the handles in the order of initialisation. -/
def Scans (s : SendSystem) : Action → Prop
  | .visit id => id = s.cursor
  | _ => True

instance (s : SendSystem) : ∀ a, Decidable (Scans s a)
  | .visit id => inferInstanceAs (Decidable (id = s.cursor))
  | .call _ _ | .fill _ | .notify _ | .refuse _ | .close _ => inferInstanceAs (Decidable True)

/-- Whether a run talks to a peer is a matter of its calls and of its scans. -/
theorem talks_of_scans {peer : Nat} {s : SendSystem} {actions : List Action}
    (calls : ∀ t req, .call t req ∈ actions → Talks peer s (.call t req))
    (scans : sendMachine.Guarded Scans s actions) : sendMachine.Guarded (Talks peer) s actions := by
  have hcalls : sendMachine.Guarded (fun _ a => ∀ t req, a = .call t req → Talks peer s a) s actions :=
    .of_forall (fun a ha _ t req heq => heq ▸ calls t req (heq ▸ ha)) s
  refine (hcalls.and scans).mono fun s' a h => ?_
  cases a with
  | call t req => exact h.1 t req rfl
  | visit id => exact h.2
  | fill | notify | refuse | close => trivial

/-- The letter `a` in two parts, and the letter `b`. -/
def letterA : Request := ⟨7, [0x81, 0x01, 0x61], some splitFirst⟩

def letterB : Request := ⟨7, [0x81, 0x01, 0x62], none⟩

theorem letterA_talks (s : SendSystem) (t : Nat) : Talks 7 s (.call t letterA) := by
  refine ⟨(1, [0x61]), some splitFirst, sendable_letter 0x61, rfl, fun f hf => ?_⟩
  cases hf
  exact splitFirst_lawful

theorem letterB_talks (s : SendSystem) (t : Nat) : Talks 7 s (.call t letterB) :=
  ⟨(1, [0x62]), none, sendable_letter 0x62, rfl, fun _ hf => by cases hf⟩

/-- Two threads with overlapping calls. The loop thread writes the one letter while the call with
the other one has still a part to store. -/
def sampleTalk : List Action :=
  [.call 1 letterB, .call 0 letterA, .fill 1, .notify 1, .visit 0, .fill 0, .notify 0, .fill 0,
    .notify 0, .visit 1, .visit 2]

theorem endToEnd_delivers_letters :
    ∃ s, sendMachine.exec (.init 3 fun _ => true) sampleTalk = some s ∧
      s.wire 7 = [0x81, 0x01, 0x62, 0x81, 0x01, 0x61] ∧
      ∃ said told : List (UInt8 × Bytes), (said.map encoding).Sublist (encodings sampleTalk) ∧
        said.length = s.calls ∧ told.Subperm said ∧
        (s.connected 7 = true → s.Quiet → told.Perm said) ∧
        ∃ hd' events, feedChunks .client (newHandle .client)
            [[0x81, 0x01], [0x62, 0x81, 0x01, 0x61]] = .ok (hd', events) ∧
          .twCloseClient ∉ events ∧ payloads events = told.map Prod.snd := by
  have talks : sendMachine.Guarded (Talks 7) (.init 3 fun _ => true) sampleTalk := by
    refine talks_of_scans (fun t req hmem => ?_) (by decide)
    simp only [sampleTalk, List.mem_cons, Action.call.injEq, reduceCtorEq, List.not_mem_nil,
      or_false] at hmem
    rcases hmem with ⟨rfl, rfl⟩ | ⟨rfl, rfl⟩
    · exact letterB_talks _ _
    · exact letterA_talks _ _
  have among : sendMachine.Guarded (fun s a => ByFirst 2 a ∧ UncutAmong 2 s a)
      (.init 3 fun _ => true) sampleTalk := by decide
  obtain ⟨s, run, hwire⟩ : ∃ s, sendMachine.exec (.init 3 fun _ => true) sampleTalk = some s ∧
      s.wire 7 = [0x81, 0x01, 0x62, 0x81, 0x01, 0x61] := ⟨_, rfl, rfl⟩
  exact ⟨s, run, hwire, endToEnd_delivers run talks (uncut_of_among among) .client
    (newHandle_allocated .client).toFresh (by rw [hwire]; rfl) (by decide)⟩

end AnotherWs
