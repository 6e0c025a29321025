/-
Module: AnotherWs.Proofs.SessionPool
Purpose: The send calls and the scans of one loop thread, each from its start to its end. Both are
  runs of the send machine: a call stores all the parts of its request behind what the handles hold,
  or nothing, and a scan writes what they hold and leaves them empty.
Trusted boundary: none
Main exports: SendSystem.Ascends, SendSystem.held, Queued, Queued.sends, Queued.accepts, Queued.scans
-/
import AnotherWs.Core.Session
import AnotherWs.Proofs.SendOrder
import AnotherWs.Proofs.WriteOrder

namespace AnotherWs

open Machines

/-- The handles that a request gets come after every handle that is still filled. -/
def SendSystem.Ascends (s : SendSystem) (req : Request) : Prop :=
  ∀ ids parts, (req.acquire s.pool).1 = some (ids, parts) → ∀ id < s.pool.size,
    (s.pool.asyncs id).data ≠ none → ∀ other ∈ ids, id < other

/-- What the handles hold for the connection. -/
def SendSystem.held (s : SendSystem) : Bytes := bytesTo sessionPeer s.pool.contents

/-! ### A call in progress -/

/-- The handles that a call has still to fill come after every handle that is filled. -/
def SendCall.Above (c : SendCall) (s : SendSystem) : Prop :=
  ∀ id < s.pool.size, (s.pool.asyncs id).data ≠ none → ∀ other ∈ c.unfilled, id < other

/-- What a call leaves alone. -/
structure SendSystem.SameBut (s s' : SendSystem) : Prop where
  size_eq : s'.pool.size = s.pool.size
  cursor_eq : s'.cursor = s.cursor
  connected_eq : s'.connected = s.connected
  wire_eq : s'.wire = s.wire
  reached_eq : s'.reached = s.reached

theorem SendSystem.SameBut.trans {s mid s' : SendSystem} (first : s.SameBut mid)
    (second : mid.SameBut s') :
    s.SameBut s' where
  size_eq := second.size_eq.trans first.size_eq
  cursor_eq := second.cursor_eq.trans first.cursor_eq
  connected_eq := second.connected_eq.trans first.connected_eq
  wire_eq := second.wire_eq.trans first.wire_eq
  reached_eq := second.reached_eq.trans first.reached_eq

/-- The guard of a thread that sends alone, with fills that ascend. -/
def AloneAscending (thread : Nat) (s : SendSystem) (a : Action) : Prop :=
  OneThread thread s a ∧ Ascending s a

/-- What the rest of a call comes to: a run of the thread, at whose end the remaining parts are
stored and the call has returned `true`. -/
structure SendCall.Runs (c : SendCall) (thread : Nat) (s s' : SendSystem) : Prop where
  run : ∃ steps, sendMachine.exec s steps = some s' ∧ sendMachine.Guarded
    (AloneAscending thread) s steps
  idle : s'.senders thread = none
  stored_eq : s'.stored = s.stored ++ c.contexts.drop c.count
  returned_eq : s'.returned = s.returned ++ c.contexts
  same : s.SameBut s'

theorem SendSystem.resume_idle {thread : Nat} {s : SendSystem} (idle : s.senders thread = none)
    (fuel : Nat) :
    s.resume thread fuel = s := by
  cases fuel with
  | zero => rfl
  | succ fuel => rw [SendSystem.resume, idle]

/-- A call in progress takes its next step. -/
theorem SendSystem.resume_sending {thread : Nat} {s : SendSystem} {c : SendCall}
    (sending : s.senders thread = some c) (fuel : Nat) :
    s.resume thread (fuel + 1) =
      (if c.filled then s.notify thread c else s.fill thread c).resume thread fuel := by
  rw [SendSystem.resume, sending]

/-- A handle of a call comes before those behind it. -/
theorem SendCall.Valid.async_lt {c : SendCall} {s : SendSystem} (valid : c.Valid s) {j : Nat}
    (inside : j < c.asyncResult.length) {other : Nat} (later : other ∈ c.asyncResult.drop (j + 1)) :
    c.async j < other := by
  obtain ⟨a, hids, -⟩ := valid.consecutive
  rw [← SendCall.async_eq inside]
  rw [hids, List.drop_range', List.mem_range'_1] at later
  have hhere : c.asyncResult[j] = a + j := by
    rw [List.getElem_of_eq hids]
    simp
  omega

/-- The contexts that a call has still to store, with the next one in front. -/
theorem SendCall.contexts_drop {c : SendCall} {j : Nat} (inside : j < c.asyncResult.length) :
    c.contexts.drop j = c.context j :: c.contexts.drop (j + 1) := by
  have hlength : j < c.contexts.length := by simpa [contexts] using inside
  rw [List.drop_eq_getElem_cons hlength]
  simp [contexts]

theorem SendCall.part_mem {c : SendCall} (length_eq : c.parts.length = c.asyncResult.length) {j : Nat}
    (inside : j < c.asyncResult.length) : c.part j ∈ c.parts := by
  rw [part, List.getD_eq_getElem _ _ (by omega)]
  exact List.getElem_mem _

/-- Parts that are short and not empty make contexts that carry something. -/
theorem SendCall.context_whole {c : SendCall} (length_eq : c.parts.length = c.asyncResult.length)
    (pieces : ∀ part ∈ c.parts, part ≠ [] ∧ part.length < 2 ^ 32) {ctx : SendDataContext}
    (mem : ctx ∈ c.contexts) : ctx.peer = c.peer ∧ ctx.data.take ctx.len ≠ [] := by
  obtain ⟨j, hj, rfl⟩ := List.mem_map.mp mem
  obtain ⟨hne, hsmall⟩ := pieces _ (SendCall.part_mem length_eq (List.mem_range.mp hj))
  refine ⟨rfl, ?_⟩
  show (c.part j).take ((c.part j).length % 2 ^ 32) ≠ []
  rwa [Nat.mod_eq_of_lt hsmall, List.take_length]

/-- A call that goes on for a step and then runs to its end has run to its end. -/
theorem SendCall.Runs.cons {thread : Nat} {c next : SendCall} {s mid s' : SendSystem} {a : Action}
    (runs : next.Runs thread mid s') (step : s.step a = some mid) (guard : AloneAscending thread s a)
    (same : s.SameBut mid) (contexts_eq : next.contexts = c.contexts)
    (returned_eq : mid.returned = s.returned)
    (stored_eq : mid.stored ++ c.contexts.drop next.count = s.stored ++ c.contexts.drop c.count) :
    c.Runs thread s s' where
  run := by
    obtain ⟨steps, hrun, hguarded⟩ := runs.run
    exact ⟨a :: steps, Machine.exec_cons.mpr ⟨mid, step, hrun⟩,
      (Machine.Guarded.cons_iff (M := sendMachine) step).mpr ⟨guard, hguarded⟩⟩
  idle := runs.idle
  stored_eq := by rw [runs.stored_eq, contexts_eq, stored_eq]
  returned_eq := by rw [runs.returned_eq, contexts_eq, returned_eq]
  same := same.trans runs.same

section Call

variable {thread : Nat} {s s' : SendSystem} {c : SendCall}

/-- A part that is not empty is stored. -/
theorem SendCall.fill_eq (nonempty : c.part c.i ≠ []) :
    s.fill thread c = ({ s with stored := s.stored ++ [c.context c.i] }.setAsync (c.async c.i)
      { s.pool.asyncs (c.async c.i) with data := some (c.context c.i) }).setSender thread
        (some { c with filled := true }) :=
  if_neg nonempty

/-- Behind a part there is another one. -/
theorem SendCall.notify_more (more : c.i + 1 < c.asyncResult.length) :
    s.notify thread c = (s.setAsync (c.async c.i)
      { s.pool.asyncs (c.async c.i) with pending := true }).setSender thread
        (some { c with i := c.i + 1, filled := false }) :=
  if_pos more

/-- The last part is followed by the return. -/
theorem SendCall.notify_last (last : ¬ c.i + 1 < c.asyncResult.length) :
    s.notify thread c = { s.setAsync (c.async c.i)
      { s.pool.asyncs (c.async c.i) with pending := true } with
        returned := s.returned ++ c.contexts }.setSender thread none :=
  if_neg last

theorem SendCall.Above.fill (above : c.Above s) (valid : c.Valid s) (unfilled : c.filled = false)
    (nonempty : c.part c.i ≠ []) :
    SendCall.Above { c with filled := true } (s.fill thread c) := by
  intro id hid hdata other hother
  rw [SendCall.fill_eq nonempty] at hid hdata
  rw [SendSystem.setSender_pool, SendSystem.setAsync_asyncs] at hdata
  split at hdata
  · rename_i heq
    rw [heq]
    exact valid.async_lt valid.inside hother
  · refine above id hid hdata other ?_
    rw [SendCall.unfilled_of_unfilled valid.inside unfilled]
    exact List.mem_cons_of_mem _ hother

theorem SendCall.Above.notify (above : c.Above s) (filled : c.filled = true)
    (more : c.i + 1 < c.asyncResult.length) :
    SendCall.Above { c with i := c.i + 1, filled := false } (s.notify thread c) := by
  intro id hid hdata other hother
  rw [SendCall.notify_more more] at hid hdata
  rw [SendSystem.setSender_pool, @SendSystem.setAsync_data s
    { s.pool.asyncs (c.async c.i) with pending := true } (c.async c.i) rfl id] at hdata
  refine above id hid hdata other ?_
  show other ∈ c.asyncResult.drop c.count
  rw [SendCall.count_of_filled filled]
  exact hother

/-- A call stores its next part, and then runs to its end. -/
theorem SendCall.Runs.fill (sending : s.senders thread = some c) (valid : c.Valid s)
    (above : c.Above s) (unfilled : c.filled = false) (nonempty : c.part c.i ≠ [])
    (step : s.step (.fill thread) = some (s.fill thread c))
    (runs : SendCall.Runs { c with filled := true } thread (s.fill thread c) s') :
    c.Runs thread s s' := by
  refine runs.cons step ⟨rfl, ?_⟩ ?_ rfl ?_ ?_
  · intro c' hc' _ id hid hdata
    rw [sending, Option.mem_some] at hc'
    subst hc'
    refine above id hid hdata _ ?_
    rw [SendCall.unfilled_of_unfilled valid.inside unfilled]
    exact List.mem_cons_self
  · rw [SendCall.fill_eq nonempty]
    exact ⟨rfl, rfl, rfl, rfl, rfl⟩
  · rw [SendCall.fill_eq nonempty]
    rfl
  · rw [SendCall.fill_eq nonempty, SendCall.count_of_unfilled unfilled,
      SendCall.contexts_drop valid.inside]
    show (s.stored ++ [c.context c.i]) ++ c.contexts.drop (c.i + 1) = _
    rw [List.append_assoc, List.singleton_append]

/-- A call sets the flag of a handle, and then runs to its end. -/
theorem SendCall.Runs.notify (filled : c.filled = true) (more : c.i + 1 < c.asyncResult.length)
    (step : s.step (.notify thread) = some (s.notify thread c))
    (runs : SendCall.Runs { c with i := c.i + 1, filled := false } thread (s.notify thread c) s') :
    c.Runs thread s s' := by
  refine runs.cons step ⟨rfl, trivial⟩ ?_ rfl ?_ ?_
  · rw [SendCall.notify_more more]
    exact ⟨rfl, rfl, rfl, rfl, rfl⟩
  · rw [SendCall.notify_more more]
    rfl
  · rw [SendCall.notify_more more, SendCall.count_of_filled filled]
    rfl

/-- A call sets the flag of its last handle, and returns. -/
theorem SendCall.Runs.last (filled : c.filled = true) (last : ¬ c.i + 1 < c.asyncResult.length)
    (step : s.step (.notify thread) = some (s.notify thread c)) :
    c.Runs thread s (s.notify thread c) where
  run := ⟨[.notify thread], (Machine.exec_singleton _ _).trans step, ⟨rfl, trivial⟩,
    fun _ _ => trivial⟩
  idle := by
    rw [SendCall.notify_last last, SendSystem.setSender_senders, if_pos rfl]
  stored_eq := by
    have hdrop : c.contexts.drop (c.i + 1) = [] :=
      List.drop_eq_nil_of_le (by simp [SendCall.contexts]; omega)
    rw [SendCall.notify_last last, SendCall.count_of_filled filled, hdrop, List.append_nil]
    rfl
  returned_eq := by
    rw [SendCall.notify_last last]
    rfl
  same := by
    rw [SendCall.notify_last last]
    exact ⟨rfl, rfl, rfl, rfl, rfl⟩

/-- **A call that has its handles** stores its parts one by one and returns. -/
theorem SendCall.resume_runs {fuel : Nat} (wf : WellFormed s) (sending : s.senders thread = some c)
    (above : c.Above s) (nonempty : ∀ j < c.asyncResult.length, c.part j ≠ [])
    (enough : 2 * (c.asyncResult.length - c.count) + (if c.filled then 1 else 0) ≤ fuel) :
    c.Runs thread s (s.resume thread fuel) := by
  induction fuel generalizing s c with
  | zero =>
      have hinside := (wf.valid thread c sending).inside
      cases hfilled : c.filled with
      | true => simp [hfilled] at enough
      | false =>
          rw [SendCall.count_of_unfilled hfilled] at enough
          omega
  | succ fuel ih =>
      have valid := wf.valid thread c sending
      have hpart := nonempty c.i valid.inside
      rw [SendSystem.resume_sending sending]
      cases hfilled : c.filled with
      | false =>
          have hstep : s.step (.fill thread) = some (s.fill thread c) := by
            simp only [SendSystem.step, sending, hfilled]
            rfl
          have hsending : (s.fill thread c).senders thread = some { c with filled := true } := by
            rw [SendCall.fill_eq hpart, SendSystem.setSender_senders, if_pos rfl]
          rw [if_neg Bool.false_ne_true]
          refine .fill sending valid above hfilled hpart hstep
            (ih (wellFormed_step wf hstep) hsending (above.fill valid hfilled hpart) nonempty ?_)
          show 2 * (c.asyncResult.length - (c.i + 1)) + 1 ≤ fuel
          have hinside := valid.inside
          rw [SendCall.count_of_unfilled hfilled, hfilled, if_neg Bool.false_ne_true] at enough
          omega
      | true =>
          have hstep : s.step (.notify thread) = some (s.notify thread c) := by
            simp only [SendSystem.step, sending, hfilled]
            rfl
          rw [if_pos rfl]
          by_cases hmore : c.i + 1 < c.asyncResult.length
          · have hsending : (s.notify thread c).senders thread =
                some { c with i := c.i + 1, filled := false } := by
              rw [SendCall.notify_more hmore, SendSystem.setSender_senders, if_pos rfl]
            refine .notify hfilled hmore hstep
              (ih (wellFormed_step wf hstep) hsending (above.notify hfilled hmore) nonempty ?_)
            show 2 * (c.asyncResult.length - (c.i + 1)) + 0 ≤ fuel
            rw [SendCall.count_of_filled hfilled, hfilled, if_pos rfl] at enough
            omega
          · have hruns := SendCall.Runs.last hfilled hmore hstep
            rwa [SendSystem.resume_idle hruns.idle]

end Call

/-! ### Between two calls -/

/-- The pool between two calls of the loop thread: no call and no scan is under way, and what has
been stored is for the connection, and something. -/
structure Queued (s : SendSystem) : Prop where
  wf : WellFormed s
  written : Written s
  inOrder : InOrder loopThread s
  idle : s.senders loopThread = none
  start : s.cursor = 0
  whole : ∀ ctx ∈ s.stored, ctx.peer = sessionPeer ∧ ctx.data.take ctx.len ≠ []

theorem queued_init (size : Nat) (connected : Nat → Bool) : Queued (.init size connected) where
  wf := wellFormed_init size connected
  written := written_init size connected
  inOrder := inOrder_init loopThread size connected
  idle := rfl
  start := rfl
  whole _ h := absurd h List.not_mem_nil

/-- What a send call comes to: it is refused, and the handles hold what they held, or what it sends
goes behind that. It is refused only if the connection is not valid or the request gets no handles,
and goes through only if the connection is valid. -/
inductive Sends (s : SendSystem) (req : Request) (s' : SendSystem) : Prop where
  | refused (returned_eq : s'.returned = s.returned) (stored_eq : s'.stored = s.stored)
      (held_eq : s'.held = s.held)
      (reason : s.connected sessionPeer = true → ∀ ids parts,
        (req.acquire s.pool).1 = some (ids, parts) → ids = [])
  | accepted (connected : s.connected sessionPeer = true)
      (returned : s.returned.length < s'.returned.length)
      (held_eq : s'.held = s.held ++ req.parts.flatten)

namespace Queued

variable {s s' : SendSystem} {req : Request}

/-- A run of the loop thread that leaves the pool between two calls. -/
theorem of_run (queued : Queued s) {steps : List Action} (run : sendMachine.exec s steps = some s')
    (guarded : sendMachine.Guarded (AloneAscending loopThread) s steps)
    (idle : s'.senders loopThread = none) (start : s'.cursor = 0)
    (whole : ∀ ctx ∈ s'.stored, ctx.peer = sessionPeer ∧ ctx.data.take ctx.len ≠ []) : Queued s' := by
  obtain ⟨wf, written, inOrder⟩ : WellFormed s' ∧ Written s' ∧ InOrder loopThread s' :=
    Machine.exec_invariant (fun s => WellFormed s ∧ Written s ∧ InOrder loopThread s)
      (fun s a s' h hguard hstep => ⟨wellFormed_step h.1 hstep, written_step h.1.rotated h.2.1 hstep,
        inOrder_step h.1 h.2.2 hguard.1 hguard.2 hstep⟩)
      ⟨queued.wf, queued.written, queued.inOrder⟩ guarded run
  exact ⟨wf, written, inOrder, idle, start, whole⟩

/-- What the handles hold is nothing just if they are empty. -/
theorem held_eq_nil_iff (queued : Queued s) : s.held = [] ↔ s.pool.contents = [] := by
  constructor
  · intro hnil
    by_contra hsome
    obtain ⟨ctx, rest, hcontents⟩ := List.exists_cons_of_ne_nil hsome
    have hmem : ctx ∈ s.stored := by
      rw [← queued.inOrder.ordered, hcontents]
      exact List.mem_append_right _ List.mem_cons_self
    obtain ⟨hpeer, hdata⟩ := queued.whole ctx hmem
    have hfirst : bytesTo sessionPeer [ctx] = ctx.data.take ctx.len := by simp [bytesTo, hpeer]
    rw [SendSystem.held, hcontents, ← List.singleton_append, bytesTo_append, hfirst,
      List.append_eq_nil_iff] at hnil
    exact hdata hnil.1
  · intro hnil
    rw [SendSystem.held, hnil]
    rfl

/-- A call that is not refused goes on with the handles that it has got. -/
theorem sender_of_acquired {ids : List Nat} {parts : List Bytes}
    (connected : s.connected req.peer = true)
    (found : (req.acquire s.pool).1 = some (ids, parts)) (nonempty : ids ≠ []) (thread : Nat) :
    (s.call thread req).senders thread ≠ none := by
  obtain ⟨id, rest, rfl⟩ := List.exists_cons_of_ne_nil nonempty
  rw [SendSystem.call, if_pos connected, show req.acquire s.pool = (some (id :: rest, parts),
    (req.acquire s.pool).2) from Prod.ext found rfl]
  simp

/-- A call that has got its handles, once it has run to its end: what it has stored is behind the
rest in the handles. -/
theorem completes (queued : Queued s) {mid last : SendSystem} {c : SendCall}
    (step : sendMachine.step s (.call loopThread req) = some mid) (same : s.SameBut mid)
    (stored_eq : mid.stored = s.stored) (returned_eq : mid.returned = s.returned)
    (peer_eq : c.peer = sessionPeer) (length_eq : c.parts.length = c.asyncResult.length)
    (pieces : ∀ part ∈ c.parts, part ≠ [] ∧ part.length < 2 ^ 32) (nonempty : c.asyncResult ≠ [])
    (start : c.count = 0) (runs : c.Runs loopThread mid last) :
    Queued last ∧ s.SameBut last ∧ s.returned.length < last.returned.length ∧
      last.held = s.held ++ c.parts.flatten := by
  obtain ⟨⟨steps, hrun, hguarded⟩, hidle, hstored, hreturned, hsame⟩ := runs
  rw [start, List.drop_zero, stored_eq] at hstored
  rw [returned_eq] at hreturned
  have hguard : AloneAscending loopThread s (.call loopThread req) := ⟨⟨rfl, queued.start⟩, trivial⟩
  have hwhole : ∀ ctx ∈ last.stored, ctx.peer = sessionPeer ∧ ctx.data.take ctx.len ≠ [] := by
    rw [hstored]
    exact List.forall_mem_append.mpr
      ⟨queued.whole, fun _ hctx => peer_eq ▸ SendCall.context_whole length_eq pieces hctx⟩
  have hlast := queued.of_run (Machine.exec_cons.mpr ⟨mid, step, hrun⟩)
    ((Machine.Guarded.cons_iff step).mpr ⟨hguard, hguarded⟩) hidle
    ((same.trans hsame).cursor_eq.trans queued.start) hwhole
  refine ⟨hlast, same.trans hsame, ?_, ?_⟩
  · have hpos := List.length_pos_iff.mpr nonempty
    rw [hreturned, List.length_append, SendCall.contexts, List.length_map, List.length_range]
    omega
  · have hbefore := queued.inOrder.ordered
    have hafter := hlast.inOrder.ordered
    rw [hstored, ← hbefore, List.append_assoc, (same.trans hsame).reached_eq] at hafter
    have hbytes := SendCall.bytesTo_contexts length_eq fun part hmem => (pieces part hmem).2
    rw [SendSystem.held, List.append_cancel_left hafter, bytesTo_append, ← peer_eq, hbytes,
      SendSystem.held, peer_eq]

/-- **A send call.** -/
theorem sends (queued : Queued s) (peer_eq : req.peer = sessionPeer)
    (pieces : ∀ part ∈ req.parts, part ≠ [] ∧ part.length < 2 ^ 32) (ascends : s.Ascends req) :
    Queued (s.sendDataWithAsync req) ∧ (s.sendDataWithAsync req).connected = s.connected ∧
      (s.sendDataWithAsync req).pool.size = s.pool.size ∧ Sends s req (s.sendDataWithAsync req) := by
  have hstep : s.step (.call loopThread req) = some (s.call loopThread req) := by
    simp only [SendSystem.step, queued.idle]
  have hsender := fun ids parts connected found nonempty =>
    @sender_of_acquired s req ids parts connected found nonempty loopThread
  rw [SendSystem.sendDataWithAsync]
  generalize s.call loopThread req = mid at hstep hsender ⊢
  cases SendSystem.step_cases queued.wf.rotated hstep with
  | called pool' idle spec =>
      have hidle : { s with pool := pool' }.senders loopThread = none := queued.idle
      rw [SendSystem.resume_idle hidle]
      have hrun : sendMachine.exec s [.call loopThread req] = some { s with pool := pool' } := by
        rw [Machine.exec_singleton]
        exact hstep
      refine ⟨queued.of_run hrun ⟨⟨⟨rfl, queued.start⟩, trivial⟩, fun _ _ => trivial⟩ queued.idle
        queued.start queued.whole, rfl, spec.size_eq, .refused rfl rfl ?_ ?_⟩
      · show bytesTo sessionPeer pool'.contents = bytesTo sessionPeer s.pool.contents
        rw [CAsyncs.contents_congr spec.size_eq fun id => by rw [spec.asyncs_eq]]
      · intro hconnected ids parts hfound
        by_contra hids
        exact hsender ids parts (peer_eq ▸ hconnected) hfound hids queued.idle
  | acquired pool' ids idle connected found nonempty length_eq spec =>
      have hsending : ({ s with pool := pool', calls := s.calls + 1 }.setSender loopThread
          (some ⟨s.calls, req.peer, ids, req.parts, 0, false⟩)).senders loopThread =
            some ⟨s.calls, req.peer, ids, req.parts, 0, false⟩ := by
        rw [SendSystem.setSender_senders, if_pos rfl]
      have habove : SendCall.Above ⟨s.calls, req.peer, ids, req.parts, 0, false⟩
          ({ s with pool := pool', calls := s.calls + 1 }.setSender loopThread
            (some ⟨s.calls, req.peer, ids, req.parts, 0, false⟩)) := by
        intro id hid hdata other hother
        replace hid : id < pool'.size := hid
        rw [spec.size_eq] at hid
        replace hdata : (pool'.asyncs id).data ≠ none := hdata
        rw [spec.asyncs_eq] at hdata
        exact ascends ids req.parts found id hid hdata other hother
      have hsize : 2 * (ids.length - 0) + 0 ≤ 2 * s.pool.size := by
        obtain ⟨a, -, hle⟩ := (spec.window ids rfl).consecutive
        omega
      have hruns := SendCall.resume_runs (wellFormed_step queued.wf hstep) hsending habove
        (fun j hj => (pieces _ (SendCall.part_mem length_eq hj)).1) hsize
      obtain ⟨hlast, hsame, hreturned, hheld⟩ := queued.completes hstep
        ⟨spec.size_eq, rfl, rfl, rfl, rfl⟩ rfl rfl peer_eq length_eq pieces nonempty rfl hruns
      exact ⟨hlast, hsame.connected_eq, hsame.size_eq,
        .accepted (peer_eq ▸ connected) hreturned hheld⟩

/-- Handles that hold nothing are all free. -/
theorem free (queued : Queued s) (empty : s.held = []) {id : Nat} (inside : id < s.pool.size) :
    (s.pool.asyncs id).data = none := by
  by_contra hdata
  obtain ⟨ctx, hctx⟩ := Option.ne_none_iff_exists'.mp hdata
  have hmem := CAsyncs.mem_contents.mpr ⟨id, inside, hctx⟩
  rw [queued.held_eq_nil_iff.mp empty] at hmem
  cases hmem

theorem ascends_of_empty (queued : Queued s) (empty : s.held = []) (req : Request) : s.Ascends req :=
  fun _ _ _ _ hid hdata => absurd (queued.free empty hid) hdata

/-- **A pool with nothing in its handles** takes what is sent over a valid connection. -/
theorem accepts (queued : Queued s) (connected : s.connected sessionPeer = true)
    (positive : 0 < s.pool.size)
    (empty : s.held = []) {bytes : Bytes} (nonempty : bytes ≠ []) (short : bytes.length < 2 ^ 32) :
    Queued (s.sendDataWithAsync ⟨sessionPeer, bytes, none⟩) ∧
      (s.sendDataWithAsync ⟨sessionPeer, bytes, none⟩).connected = s.connected ∧
      (s.sendDataWithAsync ⟨sessionPeer, bytes, none⟩).pool.size = s.pool.size ∧
      (s.sendDataWithAsync ⟨sessionPeer, bytes, none⟩).held = bytes ∧
      s.returned.length < (s.sendDataWithAsync ⟨sessionPeer, bytes, none⟩).returned.length := by
  have hpieces : ∀ part ∈ (⟨sessionPeer, bytes, none⟩ : Request).parts,
    part ≠ [] ∧ part.length < 2 ^ 32 :=
    List.forall_mem_singleton.mpr ⟨nonempty, short⟩
  obtain ⟨hqueued, hconnected, hsize, hsends⟩ :=
    queued.sends rfl hpieces (queued.ascends_of_empty empty _)
  refine ⟨hqueued, hconnected, hsize, ?_⟩
  cases hsends with
  | accepted connected returned held_eq =>
      rw [held_eq, empty]
      exact ⟨List.append_nil bytes, returned⟩
  | refused returned_eq stored_eq held_eq reason =>
      -- the handle at the head of the queue is free
      exfalso
      obtain ⟨k, hqueue⟩ := queued.wf.rotated
      have hlength := congrArg List.length hqueue
      rw [List.length_rotate, List.length_range] at hlength
      obtain ⟨id, rest, hcons⟩ := List.exists_cons_of_length_pos (hlength ▸ positive)
      have hmem : id ∈ (List.range s.pool.size).rotate k := by
        rw [← hqueue, hcons]
        exact List.mem_cons_self
      rw [List.mem_rotate, List.mem_range] at hmem
      have hacquire : (Request.acquire ⟨sessionPeer, bytes, none⟩ s.pool).1 = some ([id], [bytes]) := by
        simp [Request.acquire, acquireOneUvAsync, hcons, queued.free empty hmem]
      exact absurd (reason connected _ _ hacquire) (List.cons_ne_nil _ _)

/-- A pool that has stored nothing holds nothing. -/
theorem held_of_untouched (queued : Queued s) (untouched : s.stored = []) : s.held = [] := by
  rw [queued.held_eq_nil_iff]
  have hordered := queued.inOrder.ordered
  rw [untouched] at hordered
  exact (List.append_eq_nil_iff.mp hordered).2

/-- The checker learns a connection that nothing has been stored for. -/
theorem registers (queued : Queued s) (untouched : s.stored = []) : Queued s.registerConnection where
  wf := ⟨queued.wf.rotated, fun t c h => (queued.wf.valid t c h).mono rfl le_rfl (fun _ h => h)
    (fun _ h _ => h), queued.wf.apart, queued.wf.call_lt, queued.wf.nodup, queued.wf.returned,
    queued.wf.slot, queued.wf.settled, queued.wf.pending⟩
  written := by
    have hreached : s.reached = [] := by
      have hordered := queued.inOrder.ordered
      rw [untouched] at hordered
      exact (List.append_eq_nil_iff.mp hordered).1
    have hwire : ∀ peer, s.wire peer = [] := by
      intro peer
      have hfront := queued.written.prefix_reached peer
      rw [hreached] at hfront
      exact List.prefix_nil.mp hfront
    refine ⟨queued.written.prefix_reached, fun peer _ => ?_⟩
    show s.wire peer = bytesTo peer s.reached
    rw [hwire, hreached]
    rfl
  inOrder := queued.inOrder.keep rfl (fun _ => rfl) rfl rfl rfl (fun _ _ => rfl) fun h =>
    absurd queued.idle h
  idle := queued.idle
  start := queued.start
  whole := queued.whole

/-- **A scan** writes what the handles hold, as long as the connection is valid, and leaves them
empty. -/
theorem scans (queued : Queued s) : ∃ s', s.asyncIo = some s' ∧ Queued s' ∧ s'.connected = s.connected ∧
    s'.pool.size = s.pool.size ∧ s'.stored = s.stored ∧ s'.held = [] ∧
      (s.connected sessionPeer = true → s'.writtenSince s = s.held) := by
  obtain ⟨s', hscan, scanned, hcursor⟩ := exec_scan queued.wf queued.written queued.inOrder queued.idle
    (Nat.zero_add _).symm (fun _ => queued.start) (fun _ h => absurd h (Nat.not_lt_zero _))
  rw [← List.range_eq_range'] at hscan
  have hordered := scanned.inOrder.ordered
  rw [scanned.reached_eq, scanned.stored_eq] at hordered
  have hcontents : s'.pool.contents = [] := List.self_eq_append_right.mp hordered.symm
  refine ⟨s', hscan, ⟨scanned.wf, scanned.written, scanned.inOrder, ?_,
    hcursor (Or.inl queued.start), ?_⟩,
    scanned.connected_eq, scanned.size_eq, scanned.stored_eq, ?_, fun hconnected => ?_⟩
  · rw [scanned.senders_eq]
    exact queued.idle
  · rw [scanned.stored_eq]
    exact queued.whole
  · rw [SendSystem.held, hcontents]
    rfl
  · rw [SendSystem.writtenSince, scanned.written.wire_eq _
      (by rw [scanned.connected_eq]; exact hconnected),
      scanned.reached_eq, queued.written.wire_eq _ hconnected, ← queued.inOrder.ordered, bytesTo_append,
      List.drop_left, SendSystem.held]

end Queued

end AnotherWs
