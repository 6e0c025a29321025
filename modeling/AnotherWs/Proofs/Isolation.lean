/-
Module: AnotherWs.Proofs.Isolation
Purpose: Whose bytes a connection is sent. A context keeps an address, so it reaches the connection
  that it was meant for as long as no connection is accepted at an address that a context still keeps.
Trusted boundary: none
Main exports: Isolated, KeepsAddresses, ConnectionsOk, isolated_of_keepsAddresses, reused_address_leaks
-/
import AnotherWs.Core.Checker
import Mathlib.Data.List.Nodup
import Mathlib.Data.List.Perm.Basic

namespace AnotherWs

open Machines

/-- Every context that was queued still waits, was discarded, or was written to its owner. -/
structure Isolated (s : Connections) : Prop where
  own : ∀ write ∈ s.written, write.1 = some write.2.owner
  whole : s.sent.Perm (s.queue ++ s.written.map Prod.snd ++ s.discarded)

/-- No connection is accepted at an address that a waiting context keeps. -/
def KeepsAddresses (s : Connections) : ConnectionAction → Prop
  | .accept stream => ∀ ctx ∈ s.queue, ctx.peer ≠ stream
  | _ => True

instance (s : Connections) (a : ConnectionAction) : Decidable (KeepsAddresses s a) := by
  unfold KeepsAddresses
  cases a <;> infer_instance

/-! ### The checker -/

namespace CChecker

theorem check_register (checker : CChecker) (client other : Nat) :
    (checker.registerConnection client).checkConnection other =
      (decide (other = client) || checker.checkConnection other) := by
  unfold registerConnection checkConnection
  split
  · by_cases h : other = client <;> simp_all
  · simp

theorem check_unregister (checker : CChecker) (client other : Nat) :
    (checker.unregisterConnection client).checkConnection other =
      (decide (other ≠ client) && checker.checkConnection other) := by
  unfold unregisterConnection checkConnection
  by_cases h : other = client <;> simp [h]

end CChecker

/-! ### What one step keeps -/

/-- The checker knows exactly the live connections, no two of which share an address, and a context at a
live address is for the connection there. -/
structure ConnectionsOk (s : Connections) : Prop where
  registered : ∀ stream, s.checker.checkConnection stream = true ↔ stream ∈ s.live.map Connection.stream
  distinct : (s.live.map Connection.stream).Nodup
  queued : ∀ ctx ∈ s.queue, ∀ c ∈ s.live, c.stream = ctx.peer → c.id = ctx.owner
  fresh : (∀ c ∈ s.live, c.id < s.nextId) ∧ ∀ ctx ∈ s.queue, ctx.owner < s.nextId
  isolated : Isolated s

namespace Connections

variable {s : Connections} {stream : Nat}

theorem step_accept (free : s.at_ stream = none) :
    connectionMachine.step s (.accept stream) = some (s.onConnection stream) := by
  simp only [connectionMachine, step, free]

theorem step_accept_taken {c : Connection} (taken : s.at_ stream = some c) :
    connectionMachine.step s (.accept stream) = none := by
  simp only [connectionMachine, step, taken]

end Connections

namespace ConnectionsOk

variable {s : Connections}

theorem init : ConnectionsOk .init where
  registered := by simp [Connections.init, CChecker.checkConnection]
  distinct := List.nodup_nil
  queued := nofun
  fresh := ⟨nofun, nofun⟩
  isolated := ⟨nofun, List.Perm.nil⟩

/-- The connection at an address, when the checker knows it. -/
theorem at_eq (ok : ConnectionsOk s) {stream : Nat}
    (checked : s.checker.checkConnection stream = true) :
    ∃ c ∈ s.live, c.stream = stream ∧ s.at_ stream = some c := by
  obtain ⟨c, hc, hstream⟩ := List.mem_map.mp ((ok.registered stream).mp checked)
  cases hat : s.at_ stream with
  | none =>
      have hnone := List.find?_eq_none.mp hat c hc
      rw [decide_eq_true_eq] at hnone
      exact absurd hstream hnone
  | some d =>
      have hd' := List.find?_some hat
      rw [decide_eq_true_eq] at hd'
      exact ⟨d, List.mem_of_find?_eq_some hat, hd', rfl⟩

/-- An accept at an address that no context keeps. -/
theorem accept (ok : ConnectionsOk s) {stream : Nat} (free : s.at_ stream = none)
    (keeps : ∀ ctx ∈ s.queue, ctx.peer ≠ stream) : ConnectionsOk (s.onConnection stream) where
  registered := by
    intro other
    have hbefore := ok.registered other
    rw [Connections.onConnection, CChecker.check_register, Bool.or_eq_true, decide_eq_true_eq,
      hbefore, List.map_cons, List.mem_cons]
  distinct := by
    apply List.nodup_cons.mpr
    refine ⟨?_, ok.distinct⟩
    intro hmem
    obtain ⟨c, hc, hstream⟩ := List.mem_map.mp hmem
    have hnone := List.find?_eq_none.mp free c hc
    rw [decide_eq_true_eq] at hnone
    exact hnone hstream
  queued := by
    intro ctx hctx c hc hpeer
    rcases List.mem_cons.mp hc with rfl | hc
    · exact absurd hpeer.symm (keeps ctx hctx)
    · exact ok.queued ctx hctx c hc hpeer
  fresh := by
    refine ⟨?_, fun ctx hctx => Nat.lt_succ_of_lt (ok.fresh.2 ctx hctx)⟩
    rw [Connections.onConnection, List.forall_mem_cons]
    exact ⟨Nat.lt_succ_self _, fun c hc => Nat.lt_succ_of_lt (ok.fresh.1 c hc)⟩
  isolated := ⟨ok.isolated.own, ok.isolated.whole⟩

/-- The close callback takes the connection and its address away together. -/
theorem closed (ok : ConnectionsOk s) {c : Connection} (live : c ∈ s.live) :
    ConnectionsOk (s.afterUvCloseClient c) where
  registered := by
    intro other
    have hbefore := ok.registered other
    rw [Connections.afterUvCloseClient, CChecker.check_unregister, Bool.and_eq_true,
      decide_eq_true_eq, hbefore, List.mem_map, List.mem_map]
    constructor
    · rintro ⟨hne, d, hd, rfl⟩
      refine ⟨d, List.mem_filter.mpr ⟨hd, ?_⟩, rfl⟩
      rw [decide_eq_true_eq]
      rintro rfl
      exact hne rfl
    · rintro ⟨d, hd, rfl⟩
      obtain ⟨hd, hne⟩ := List.mem_filter.mp hd
      rw [decide_eq_true_eq] at hne
      refine ⟨?_, d, hd, rfl⟩
      intro hsame
      exact hne (List.inj_on_of_nodup_map ok.distinct hd live hsame)
  distinct := ok.distinct.sublist (List.filter_sublist.map _)
  queued := by
    intro ctx hctx d hd
    exact ok.queued ctx hctx d (List.mem_of_mem_filter hd)
  fresh := ⟨fun d hd => ok.fresh.1 d (List.mem_of_mem_filter hd), ok.fresh.2⟩
  isolated := ⟨ok.isolated.own, ok.isolated.whole⟩

/-- A context is queued for the connection that is at its address now. -/
theorem send (ok : ConnectionsOk s) {c : Connection} (live : c ∈ s.live) (data : Bytes) :
    ConnectionsOk (s.sendDataWithAsync c data) := by
  unfold Connections.sendDataWithAsync
  split
  · exact ok
  · split
    · refine ⟨ok.registered, ok.distinct, ?_, ⟨ok.fresh.1, ?_⟩, ok.isolated.own, ?_⟩
      · intro ctx hctx d hd hpeer
        rcases List.mem_append.mp hctx with hctx | hctx
        · exact ok.queued ctx hctx d hd hpeer
        · rw [List.mem_singleton.mp hctx] at hpeer ⊢
          exact congrArg Connection.id (List.inj_on_of_nodup_map ok.distinct hd live hpeer)
      · intro ctx hctx
        rcases List.mem_append.mp hctx with hctx | hctx
        · exact ok.fresh.2 ctx hctx
        · rw [List.mem_singleton.mp hctx]
          exact ok.fresh.1 c live
      · have hwhole := ok.isolated.whole.append_right [⟨c.stream, data, c.id⟩]
        refine hwhole.trans ?_
        simp only [List.append_assoc]
        apply List.Perm.append_left
        rw [← List.append_assoc]
        exact List.perm_append_comm
    · exact ok

/-- A context that is delivered reaches its owner, or nobody. -/
theorem deliver (ok : ConnectionsOk s) {handle : Nat} {ctx : QueuedContext}
    (waits : s.queue[handle]? = some ctx) : ConnectionsOk (s.asyncSendCallback handle ctx) := by
  obtain ⟨inside, hget⟩ := List.getElem?_eq_some_iff.mp waits
  have hmem : ctx ∈ s.queue := List.mem_of_getElem? waits
  have hqueue : s.queue.Perm (ctx :: s.queue.eraseIdx handle) := by
    rw [← hget]
    exact (List.getElem_cons_eraseIdx_perm inside).symm
  have hrest : ∀ other ∈ s.queue.eraseIdx handle, ∀ c ∈ s.live, c.stream = other.peer →
      c.id = other.owner :=
    fun other hother => ok.queued other (List.mem_of_mem_eraseIdx hother)
  have hfresh : (∀ c ∈ s.live, c.id < s.nextId) ∧
      ∀ other ∈ s.queue.eraseIdx handle, other.owner < s.nextId :=
    ⟨ok.fresh.1, fun other hother => ok.fresh.2 other (List.mem_of_mem_eraseIdx hother)⟩
  have hwhole := ok.isolated.whole.trans
    ((hqueue.append_right _).append_right s.discarded)
  unfold Connections.asyncSendCallback Connections.sendDataImpl
  split
  · rename_i hchecked
    obtain ⟨c, hc, hstream, hat⟩ := ok.at_eq hchecked.1
    have howner := ok.queued ctx hmem c hc hstream
    refine ⟨ok.registered, ok.distinct, hrest, hfresh, ?_, ?_⟩
    · intro write hwrite
      rcases List.mem_append.mp hwrite with hwrite | hwrite
      · exact ok.isolated.own write hwrite
      · rw [List.mem_singleton.mp hwrite]
        show (s.at_ ctx.peer).map Connection.id = some ctx.owner
        rw [hat, ← howner]
        rfl
    · refine hwhole.trans ?_
      simp only [List.map_append, List.map_cons, List.map_nil, List.cons_append, List.append_assoc,
        List.nil_append]
      rw [← List.append_assoc, ← List.append_assoc]
      exact List.perm_middle.symm
  · refine ⟨ok.registered, ok.distinct, hrest, hfresh, ok.isolated.own, ?_⟩
    refine hwhole.trans ?_
    simp only [List.cons_append, List.append_assoc]
    rw [← List.append_assoc, ← List.append_assoc, ← List.append_assoc]
    exact (List.perm_append_singleton ctx _).symm

/-- **Every step keeps the invariant**, an accept as long as it meets the condition. -/
theorem step {s' : Connections} (ok : ConnectionsOk s) (a : ConnectionAction)
    (keeps : KeepsAddresses s a) (hstep : connectionMachine.step s a = some s') :
    ConnectionsOk s' := by
  cases a with
  | accept stream =>
      cases free : s.at_ stream with
      | none =>
          rw [Connections.step_accept free] at hstep
          cases hstep
          exact ok.accept free keeps
      | some c =>
          rw [Connections.step_accept_taken free] at hstep
          cases hstep
  | closed id =>
      obtain ⟨c, hfind, rfl⟩ := Option.map_eq_some_iff.mp hstep
      exact ok.closed (List.mem_of_find?_eq_some hfind)
  | send id data =>
      obtain ⟨c, hfind, rfl⟩ := Option.map_eq_some_iff.mp hstep
      exact ok.send (List.mem_of_find?_eq_some hfind) data
  | deliver handle =>
      obtain ⟨ctx, hget, rfl⟩ := Option.map_eq_some_iff.mp hstep
      exact ok.deliver hget

end ConnectionsOk

/-- **Isolation.** In every run that accepts no connection at an address which a waiting context keeps,
the bytes queued for a connection are written to it or to none. -/
theorem isolated_of_keepsAddresses {actions : List ConnectionAction} {s : Connections}
    (keeps : connectionMachine.Guarded KeepsAddresses .init actions)
    (run : connectionMachine.exec .init actions = some s) : Isolated s :=
  (Machine.exec_invariant ConnectionsOk (fun _ a _ ok hkeeps => ok.step a hkeeps) .init keeps
    run).isolated

/-- **The condition is needed.** Once a connection is accepted at an address that a waiting context
keeps, delivering the context writes it to that connection. -/
theorem leaks_of_reuse {actions : List ConnectionAction} {s : Connections} {handle : Nat}
    {ctx : QueuedContext} (keeps : connectionMachine.Guarded KeepsAddresses .init actions)
    (run : connectionMachine.exec .init actions = some s) (waits : s.queue[handle]? = some ctx)
    (free : s.at_ ctx.peer = none) :
    ∃ s', connectionMachine.exec s [.accept ctx.peer, .deliver handle] = some s' ∧
      (some s.nextId, ctx) ∈ s'.written ∧ s.nextId ≠ ctx.owner := by
  have ok : ConnectionsOk s :=
    Machine.exec_invariant ConnectionsOk (fun _ a _ ok hkeeps => ok.step a hkeeps) .init keeps run
  have howner := ok.fresh.2 ctx (List.mem_of_getElem? waits)
  have hchecked : (s.onConnection ctx.peer).checker.checkConnection ctx.peer = true := by
    rw [Connections.onConnection, CChecker.check_register, Bool.or_eq_true, decide_eq_true_eq]
    exact Or.inl rfl
  have hat : (s.onConnection ctx.peer).at_ ctx.peer = some ⟨s.nextId, ctx.peer⟩ := by
    simp [Connections.at_, Connections.onConnection]
  have haccept := Connections.step_accept free
  have hdeliver : connectionMachine.step (s.onConnection ctx.peer) (.deliver handle) =
      some ((s.onConnection ctx.peer).asyncSendCallback handle ctx) := by
    apply Option.map_eq_some_iff.mpr
    exact ⟨ctx, waits, rfl⟩
  refine ⟨_, Machine.exec_cons.mpr ⟨_, haccept, Machine.exec_cons.mpr ⟨_, hdeliver, rfl⟩⟩, ?_,
    by omega⟩
  have hwritten : ((s.onConnection ctx.peer).asyncSendCallback handle ctx).written =
      s.written ++ [(((s.onConnection ctx.peer).at_ ctx.peer).map Connection.id, ctx)] := by
    unfold Connections.asyncSendCallback Connections.sendDataImpl
    rw [if_pos ⟨hchecked, hchecked⟩]
    rfl
  rw [hwritten, hat]
  exact List.mem_append_right _ (List.mem_singleton.mpr rfl)

/-- Two connections at one address, one after the other, with nothing left over from the first. -/
theorem isolated_of_keepsAddresses_reuse :
    connectionMachine.Guarded KeepsAddresses .init
        [.accept 7, .send 0 [0x61], .closed 0, .deliver 0, .accept 7, .send 1 [0x62], .deliver 0] ∧
      ∃ s, connectionMachine.exec .init
          [.accept 7, .send 0 [0x61], .closed 0, .deliver 0, .accept 7, .send 1 [0x62],
            .deliver 0] = some s ∧
        s.written = [(some 1, ⟨7, [0x62], 1⟩)] ∧ s.discarded = [⟨7, [0x61], 0⟩] ∧ Isolated s := by
  have hkeeps : connectionMachine.Guarded KeepsAddresses .init
      [.accept 7, .send 0 [0x61], .closed 0, .deliver 0, .accept 7, .send 1 [0x62], .deliver 0] := by
    decide
  exact ⟨hkeeps, _, rfl, rfl, rfl, isolated_of_keepsAddresses hkeeps rfl⟩

/-- A context that waits while its connection is closed and another one is accepted at the address: the
bytes of the first connection are written to the second. -/
theorem reused_address_leaks :
    ∃ s, connectionMachine.exec .init
        [.accept 7, .send 0 [0x61], .closed 0, .accept 7, .deliver 0] = some s ∧
      s.written = [(some 1, ⟨7, [0x61], 0⟩)] ∧ ¬ Isolated s := by
  refine ⟨_, rfl, rfl, ?_⟩
  intro isolated
  have hown := isolated.own (some 1, ⟨7, [0x61], 0⟩) (List.mem_singleton.mpr rfl)
  cases hown

end AnotherWs
