/-
Module: AnotherWs.Proofs.HandlePool
Purpose: Whether a message that was accepted can get lost in the handle pool. It cannot as long as
  no acquire hands out a handle that another call has acquired and not yet filled, which nothing in
  the code prevents.
Trusted boundary: none
Main exports:
  NothingLost, Exclusive, nothingLost_of_exclusive, acquired_handle_handed_out_again
-/
import AnotherWs.Lib.Slots
import AnotherWs.Proofs.Asyncs

namespace AnotherWs

open Slots

/-! ### What the handles hold -/

/-- The contexts that wait in the handles, in the order of initialisation. -/
def CAsyncs.contents (pool : CAsyncs) : List SendDataContext :=
  Slots.contents (List.range pool.size) fun id => (pool.asyncs id).data

theorem CAsyncs.mem_contents {pool : CAsyncs} {ctx : SendDataContext} :
    ctx ∈ pool.contents ↔ ∃ id < pool.size, (pool.asyncs id).data = some ctx := by
  simp [contents, Slots.mem_contents]

/-- The pool's contents depend on its size and on what is behind `data` alone. -/
theorem CAsyncs.contents_congr {pool pool' : CAsyncs} (size_eq : pool'.size = pool.size)
    (data_eq : ∀ id, (pool'.asyncs id).data = (pool.asyncs id).data) :
    pool'.contents = pool.contents := by
  unfold contents
  rw [size_eq, show (fun id => (pool'.asyncs id).data) = fun id => (pool.asyncs id).data from
    funext data_eq]

/-- Writing one handle, seen through `data`. -/
theorem setAsync_contents (s : SendSystem) (id : Nat) (async : UvAsync) :
    (s.setAsync id async).pool.contents =
      Slots.contents (List.range s.pool.size)
        (Function.update (fun id => (s.pool.asyncs id).data) id async.data) := by
  unfold CAsyncs.contents
  congr 1
  funext other
  rw [SendSystem.setAsync_asyncs, Function.update_apply]
  split <;> rfl

/-- No call is about to store a context in a handle that still holds one, and every context of a
call that returned `true` is at hand exactly once, in `send_data_impl`'s past or in a handle, until
the loop thread has visited every handle; then it has reached `send_data_impl` exactly once. -/
structure NothingLost (s : SendSystem) : Prop where
  no_overwrite : ∀ t c, s.senders t = some c → c.filled = false →
    (s.pool.asyncs (c.async c.i)).data = none
  once : ∀ ctx ∈ s.returned, (s.reached ++ s.pool.contents).count ctx = 1
  delivered : ∃ s', sendMachine.exec s ((List.range s.pool.size).map .visit) = some s' ∧
    ∀ ctx ∈ s.returned, s'.reached.count ctx = 1

/-- The acquire of a call to a connected peer hands out no handle that a call has acquired and not yet
filled. -/
def Exclusive (s : SendSystem) : Action → Prop
  | .call _ req => s.connected req.peer = true → ∀ ids parts,
      (req.acquire s.pool).1 = some (ids, parts) →
        ∀ t c, s.senders t = some c → ∀ id ∈ ids, id ∉ c.unfilled
  | _ => True

/-! ### The invariant -/

/-- The handles that calls hold unfilled are empty and held once; what was stored has reached
`send_data_impl` or is still in its handle. -/
structure Apart (s : SendSystem) : Prop where
  empty : ∀ t c, s.senders t = some c → ∀ id ∈ c.unfilled, (s.pool.asyncs id).data = none
  disjoint : ∀ t t' c c', s.senders t = some c → s.senders t' = some c' → t ≠ t' →
    ∀ id ∈ c.unfilled, id ∉ c'.unfilled
  conserved : s.stored.Perm (s.reached ++ s.pool.contents)

theorem apart_init (size : Nat) (connected : Nat → Bool) :
    Apart (SendSystem.init size connected) where
  empty _ _ h := by cases h
  disjoint _ _ _ _ h := by cases h
  conserved := by
    have hnil : (SendSystem.init size connected).pool.contents = [] :=
      contents_eq_nil fun _ _ => rfl
    rw [hnil]
    exact List.Perm.refl _

namespace Apart

variable {s s' : SendSystem}

/-- A step that leaves the contexts where they are and gives no call a new handle. -/
theorem keep (apart : Apart s) (size_eq : s'.pool.size = s.pool.size)
    (data_eq : ∀ id, (s'.pool.asyncs id).data = (s.pool.asyncs id).data)
    (stored_eq : s'.stored = s.stored) (reached_eq : s'.reached = s.reached)
    (senders : ∀ t c', s'.senders t = some c' →
      ∃ c, s.senders t = some c ∧ c'.unfilled = c.unfilled) : Apart s' where
  empty t c' h id hid := by
    obtain ⟨c, hc, hsame⟩ := senders t c' h
    rw [data_eq]
    exact apart.empty t c hc id (by rwa [← hsame])
  disjoint t t' c₁ c₂ h₁ h₂ hne id hid := by
    obtain ⟨d₁, hd₁, hsame₁⟩ := senders t c₁ h₁
    obtain ⟨d₂, hd₂, hsame₂⟩ := senders t' c₂ h₂
    rw [hsame₂]
    exact apart.disjoint t t' d₁ d₂ hd₁ hd₂ hne id (by rwa [← hsame₁])
  conserved := by
    rw [stored_eq, reached_eq, CAsyncs.contents_congr size_eq data_eq]
    exact apart.conserved

/-- A new call. -/
theorem acquired (apart : Apart s) {t peer : Nat} {ids : List Nat} {parts : List Bytes}
    {pool' : CAsyncs} (spec : AcquireSpec s.pool pool' (some ids))
    (exclusive : ∀ t c, s.senders t = some c → ∀ id ∈ ids, id ∉ c.unfilled) :
    Apart ({ s with pool := pool', calls := s.calls + 1 }.setSender t
      (some ⟨s.calls, peer, ids, parts, 0, false⟩)) where
  empty t' c' h' id hid := by
    show (pool'.asyncs id).data = none
    rw [SendSystem.setSender_senders] at h'
    rw [spec.asyncs_eq]
    split at h'
    · cases h'
      exact (spec.window ids rfl).free id hid
    · exact apart.empty t' c' h' id hid
  disjoint t₁ t₂ c₁ c₂ h₁ h₂ hne id hid := by
    rw [SendSystem.setSender_senders] at h₁ h₂
    split at h₁ <;> split at h₂
    · simp_all
    · cases h₁
      exact exclusive t₂ c₂ h₂ id hid
    · cases h₂
      exact fun hmem => exclusive t₁ c₁ h₁ id hmem hid
    · exact apart.disjoint t₁ t₂ c₁ c₂ h₁ h₂ hne id hid
  conserved := by
    show s.stored.Perm (s.reached ++ pool'.contents)
    rw [CAsyncs.contents_congr spec.size_eq fun id => by rw [spec.asyncs_eq]]
    exact apart.conserved

/-- A context stored in a handle. -/
theorem filled (apart : Apart s) {t : Nat} {c : SendCall} (valid : c.Valid s)
    (h : s.senders t = some c) (unfilled : c.filled = false) :
    Apart (({ s with stored := s.stored ++ [c.context c.i] }.setAsync (c.async c.i)
      { s.pool.asyncs (c.async c.i) with data := some (c.context c.i) }).setSender t
        (some { c with filled := true })) := by
  have hheld := SendCall.unfilled_of_unfilled valid.inside unfilled
  have hfree := apart.empty t c h (c.async c.i) (by rw [hheld]; exact List.mem_cons_self)
  have hnodup : c.unfilled.Nodup := valid.nodup.sublist (List.drop_sublist ..)
  rw [hheld] at hnodup
  have hown := (List.nodup_cons.mp hnodup).1
  -- every handle that is still held unfilled is another one, and was held before
  have hheld' : ∀ t' c', (if t' = t then some { c with filled := true } else s.senders t') = some c' →
      ∃ d, s.senders t' = some d ∧ ∀ id ∈ c'.unfilled, id ∈ d.unfilled ∧ id ≠ c.async c.i := by
    intro t' c' h'
    split at h'
    · rename_i heq
      cases h'
      refine ⟨c, by rw [heq]; exact h, fun id hid => ⟨?_, ?_⟩⟩
      · rw [hheld]
        exact List.mem_cons_of_mem _ hid
      · rintro rfl
        exact hown hid
    · rename_i hne
      refine ⟨c', h', fun id hid => ⟨hid, ?_⟩⟩
      rintro rfl
      exact apart.disjoint t t' c c' h h' (Ne.symm hne) (c.async c.i)
        (by rw [hheld]; exact List.mem_cons_self) hid
  refine ⟨?_, ?_, ?_⟩
  · intro t' c' h' id hid
    rw [SendSystem.setSender_senders] at h'
    obtain ⟨d, hd, hmem⟩ := hheld' t' c' h'
    rw [SendSystem.setSender_pool, SendSystem.setAsync_asyncs, if_neg (hmem id hid).2]
    exact apart.empty t' d hd id (hmem id hid).1
  · intro t₁ t₂ c₁ c₂ h₁ h₂ hne id hid hid₂
    rw [SendSystem.setSender_senders] at h₁ h₂
    obtain ⟨d₁, hd₁, hmem₁⟩ := hheld' t₁ c₁ h₁
    obtain ⟨d₂, hd₂, hmem₂⟩ := hheld' t₂ c₂ h₂
    exact apart.disjoint t₁ t₂ d₁ d₂ hd₁ hd₂ hne id (hmem₁ id hid).1 (hmem₂ id hid₂).1
  · have hmem : c.async c.i ∈ List.range s.pool.size :=
      List.mem_range.mpr (valid.lt_size (SendCall.async_mem valid.inside))
    have hfill := contents_fill_perm (f := fun id => (s.pool.asyncs id).data) (b := c.context c.i)
      List.nodup_range hmem hfree
    rw [SendSystem.setSender_pool, setAsync_contents]
    refine List.Perm.trans ?_ (hfill.symm.append_left s.reached)
    refine (apart.conserved.append_right [c.context c.i]).trans ?_
    rw [List.append_assoc]
    exact (List.perm_append_singleton (c.context c.i) s.pool.contents).append_left s.reached

/-- A context handed to `send_data_impl`. -/
theorem sent (apart : Apart s) {id : Nat} {ctx : SendDataContext} (inside : id < s.pool.size)
    (data : (s.pool.asyncs id).data = some ctx) :
    Apart (({ s with cursor := s.next id }.sendDataImpl ctx).setAsync id ⟨none, false⟩) where
  empty t c h other hother := by
    rw [SendSystem.setAsync_asyncs]
    split
    · rfl
    · rw [SendSystem.sendDataImpl_pool]
      exact apart.empty t c (by simpa using h) other hother
  disjoint t t' c c' h h' hne := apart.disjoint t t' c c' (by simpa using h) (by simpa using h') hne
  conserved := by
    have hempty := contents_empty_perm (f := fun id => (s.pool.asyncs id).data)
      List.nodup_range (List.mem_range.mpr inside) data
    rw [setAsync_contents]
    simp only [SendSystem.setAsync_stored, SendSystem.setAsync_reached,
      SendSystem.sendDataImpl_stored, SendSystem.sendDataImpl_reached,
      SendSystem.sendDataImpl_pool, List.append_assoc]
    exact apart.conserved.trans (hempty.append_left s.reached)

end Apart

/-- **Exclusive acquires keep the calls apart.** -/
theorem apart_step {s s' : SendSystem} {a : Action} (wf : WellFormed s) (apart : Apart s)
    (exclusive : Exclusive s a) (h : s.step a = some s') : Apart s' := by
  have hdrop : ∀ t, Apart (s.setSender t none) := by
    intro t
    refine apart.keep rfl (fun _ => rfl) rfl rfl fun t' c' h' => ?_
    rw [SendSystem.setSender_senders] at h'
    split at h'
    · cases h'
    · exact ⟨c', h', rfl⟩
  cases SendSystem.step_cases wf.rotated h with
  | called pool' idle spec =>
      exact apart.keep spec.size_eq (fun id => by rw [spec.asyncs_eq]) rfl rfl
        fun t c h => ⟨c, h, rfl⟩
  | acquired pool' ids idle connected found nonempty length_eq spec =>
      exact apart.acquired spec (exclusive connected _ _ found)
  | filled sending unfilled nonempty =>
      exact apart.filled (wf.valid _ _ sending) sending unfilled
  | emptyPart sending unfilled isEmpty => exact hdrop _
  | @notified t c sending filled more =>
      refine apart.keep rfl (s.setAsync_data rfl) rfl rfl fun t' c' h' => ?_
      rw [SendSystem.setSender_senders] at h'
      split at h'
      · rename_i heq
        cases h'
        refine ⟨c, by rw [heq]; exact sending, ?_⟩
        unfold SendCall.unfilled
        rw [SendCall.count_of_filled filled]
        rfl
      · exact ⟨c', h', rfl⟩
  | @returned t c sending filled last =>
      refine apart.keep rfl (s.setAsync_data rfl) rfl rfl fun t' c' h' => ?_
      rw [SendSystem.setSender_senders] at h'
      split at h'
      · cases h'
      · exact ⟨c', h', rfl⟩
  | refused sending unfilled closed => exact hdrop _
  | @skipped id inside nothing =>
      exact apart.keep rfl (s.setAsync_data rfl) rfl rfl fun t c h => ⟨c, h, rfl⟩
  | sent inside pending data => exact apart.sent inside data
  | closed => exact apart.keep rfl (fun _ => rfl) rfl rfl fun t c h => ⟨c, h, rfl⟩

/-! ### Runs -/

/-- Visits take what they find in a pending handle to `send_data_impl` and touch no other handle. -/
theorem exec_visits {s : SendSystem} (wf : WellFormed s) {ids : List Nat}
    (inside : ∀ id ∈ ids, id < s.pool.size) :
    ∃ s', sendMachine.exec s (ids.map .visit) = some s' ∧ s'.pool.size = s.pool.size ∧
      s'.senders = s.senders ∧ s'.stored = s.stored ∧ s'.returned = s.returned ∧
      (∀ ctx ∈ s.reached, ctx ∈ s'.reached) ∧
      (∀ id ctx, (s.pool.asyncs id).data = some ctx → (s.pool.asyncs id).pending = true →
        id ∈ ids → ctx ∈ s'.reached) := by
  induction ids generalizing s with
  | nil => exact ⟨s, rfl, rfl, rfl, rfl, rfl, fun _ h => h, fun _ _ _ _ h => by cases h⟩
  | cons id rest ih =>
      obtain ⟨mid, hstep⟩ : ∃ mid, s.step (.visit id) = some mid :=
        ⟨_, if_pos (inside id List.mem_cons_self)⟩
      have hwf := wellFormed_step wf hstep
      -- what the visit of `id` leaves
      have hone : mid.pool.size = s.pool.size ∧ mid.senders = s.senders ∧
          mid.stored = s.stored ∧ mid.returned = s.returned ∧
          (∀ ctx ∈ s.reached, ctx ∈ mid.reached) ∧
          (∀ ctx, (s.pool.asyncs id).data = some ctx → (s.pool.asyncs id).pending = true →
            ctx ∈ mid.reached) ∧
          ∀ other, other ≠ id → mid.pool.asyncs other = s.pool.asyncs other := by
        cases SendSystem.step_cases wf.rotated hstep with
        | skipped inside nothing =>
            refine ⟨rfl, rfl, rfl, rfl, fun _ h => h, fun ctx hdata hpending => ?_, fun other h => ?_⟩
            · rw [nothing hpending] at hdata
              cases hdata
            · rw [SendSystem.setAsync_asyncs, if_neg h]
        | sent inside pending data =>
            refine ⟨by simp, by simp, by simp, by simp, fun _ h => by simp [h],
              fun ctx hdata _ => ?_, fun other h => ?_⟩
            · rw [data, Option.some.injEq] at hdata
              simp [hdata]
            · rw [SendSystem.setAsync_asyncs, if_neg h, SendSystem.sendDataImpl_pool]
      obtain ⟨hsize, hsenders, hstored, hreturned, hkept, hhere, hother⟩ := hone
      obtain ⟨s', hrest, hsize', hsenders', hstored', hreturned', hkept', hthere⟩ :=
        ih hwf fun other h => hsize ▸ inside other (List.mem_cons_of_mem _ h)
      refine ⟨s', Machines.Machine.exec_cons.mpr ⟨_, hstep, hrest⟩, hsize'.trans hsize,
        hsenders'.trans hsenders, hstored'.trans hstored, hreturned'.trans hreturned,
        fun ctx h => hkept' ctx (hkept ctx h), ?_⟩
      intro other ctx hdata hpending hmem
      by_cases heq : other = id
      · subst heq
        exact hkept' ctx (hhere ctx hdata hpending)
      · refine hthere other ctx ?_ ?_ ((List.mem_cons.mp hmem).resolve_left heq) <;>
          rwa [hother other heq]

/-- Well-formed states whose calls are apart lose nothing. -/
theorem Apart.nothingLost {s : SendSystem} (wf : WellFormed s) (apart : Apart s) :
    NothingLost s where
  no_overwrite t c h unfilled := by
    refine apart.empty t c h _ ?_
    rw [SendCall.unfilled_of_unfilled (wf.valid t c h).inside unfilled]
    exact List.mem_cons_self
  once ctx hctx := by
    rw [← apart.conserved.count_eq]
    exact List.count_eq_one_of_mem wf.nodup (wf.returned ctx hctx)
  delivered := by
    have hinside : ∀ id ∈ List.range s.pool.size, id < s.pool.size := fun _ h => List.mem_range.mp h
    obtain ⟨s', hscan, -, -, hstored, hreturned, hkept, hvisited⟩ := exec_visits wf hinside
    refine ⟨s', hscan, fun ctx hctx => ?_⟩
    have hfree : sendMachine.Guarded Exclusive s ((List.range s.pool.size).map .visit) := by
      refine .of_forall (fun a ha state => ?_) s
      obtain ⟨id, -, rfl⟩ := List.mem_map.mp ha
      trivial
    obtain ⟨wf', apart'⟩ : WellFormed s' ∧ Apart s' :=
      Machines.Machine.exec_invariant (fun s => WellFormed s ∧ Apart s)
        (fun s a s' h hguard hstep =>
          ⟨wellFormed_step h.1 hstep, apart_step h.1 h.2 hguard hstep⟩)
        ⟨wf, apart⟩ hfree hscan
    have hcount : (s'.reached ++ s'.pool.contents).count ctx = 1 := by
      rw [← apart'.conserved.count_eq]
      exact List.count_eq_one_of_mem wf'.nodup (wf'.returned ctx (hreturned ▸ hctx))
    have hmem : ctx ∈ s'.reached := by
      have hstored := apart.conserved.mem_iff.mp (wf.returned ctx hctx)
      rcases List.mem_append.mp hstored with hreached | hcontents
      · exact hkept ctx hreached
      · obtain ⟨id, hid, hdata⟩ := CAsyncs.mem_contents.mp hcontents
        rcases wf.pending id ctx hdata with hpending | ⟨t, c, hsending, -, -, hcontext⟩
        · exact hvisited id ctx hdata hpending (List.mem_range.mpr hid)
        · -- a context whose flag is still to be set belongs to a call that has not returned
          exact absurd (by rw [← hcontext]; rfl) (wf.settled ctx hctx t c hsending)
    have hpos := List.count_pos_iff.mpr hmem
    rw [List.count_append] at hcount
    omega

/-- **No accepted message is lost** in a run whose acquires hand out no handle that a call has
acquired and not yet filled. -/
theorem nothingLost_of_exclusive {size : Nat} {connected : Nat → Bool} {actions : List Action}
    {s : SendSystem} (run : sendMachine.exec (.init size connected) actions = some s)
    (exclusive : sendMachine.Guarded Exclusive (.init size connected) actions) : NothingLost s := by
  obtain ⟨wf, apart⟩ : WellFormed s ∧ Apart s :=
    Machines.Machine.exec_invariant (fun s => WellFormed s ∧ Apart s)
      (fun s a s' h hguard hstep => ⟨wellFormed_step h.1 hstep, apart_step h.1 h.2 hguard hstep⟩)
      ⟨wellFormed_init size connected, apart_init size connected⟩ exclusive run
  exact apart.nothingLost wf

/-! ### Runs of a few threads -/

/-- The thread of a step is one of the first `n`. -/
def ByFirst (n : Nat) : Action → Prop
  | .call t _ | .fill t | .notify t | .refuse t => t < n
  | .visit _ | .close _ => True

instance (n : Nat) : ∀ a, Decidable (ByFirst n a)
  | .call t _ | .fill t | .notify t | .refuse t => inferInstanceAs (Decidable (t < n))
  | .visit _ | .close _ => inferInstanceAs (Decidable True)

/-- Then no other thread has a call. -/
theorem senders_of_byFirst {n : Nat} {s s' : SendSystem} {a : Action} (wf : WellFormed s)
    (idle : ∀ t, n ≤ t → s.senders t = none) (first : ByFirst n a) (h : s.step a = some s') :
    ∀ t, n ≤ t → s'.senders t = none := by
  have hset : ∀ (s : SendSystem) thread sender, (∀ t, n ≤ t → s.senders t = none) → thread < n →
      ∀ t, n ≤ t → (s.setSender thread sender).senders t = none := by
    intro s thread sender hidle hthread t ht
    rw [SendSystem.setSender_senders, if_neg (by omega)]
    exact hidle t ht
  cases SendSystem.step_cases wf.rotated h with
  | called | skipped | closed => exact idle
  | acquired => exact hset _ _ _ idle first
  | filled => exact hset _ _ _ idle first
  | emptyPart => exact hset _ _ _ idle first
  | notified => exact hset _ _ _ idle first
  | returned => exact hset _ _ _ idle first
  | refused => exact hset _ _ _ idle first
  | sent => simpa using idle

/-- `Exclusive` in a run of the first `n` threads. -/
def ExclusiveAmong (n : Nat) (s : SendSystem) : Action → Prop
  | .call _ req => ∀ out ∈ (req.acquire s.pool).1, ∀ t < n, ∀ c ∈ s.senders t, ∀ id ∈ out.1,
      id ∉ c.unfilled
  | _ => True

instance (n : Nat) (s : SendSystem) : ∀ a, Decidable (ExclusiveAmong n s a)
  | .call _ req => inferInstanceAs (Decidable (∀ out ∈ (req.acquire s.pool).1, ∀ t < n,
      ∀ c ∈ s.senders t, ∀ id ∈ out.1, id ∉ c.unfilled))
  | .fill _ | .notify _ | .refuse _ | .visit _ | .close _ => inferInstanceAs (Decidable True)

theorem ExclusiveAmong.exclusive {n : Nat} {s : SendSystem} {a : Action}
    (idle : ∀ t, n ≤ t → s.senders t = none) (among : ExclusiveAmong n s a) : Exclusive s a := by
  cases a with
  | call thread req =>
      intro _ ids parts hfound t c hc id hid
      by_cases ht : t < n
      · exact among _ hfound t ht c hc id hid
      · rw [idle t (by omega)] at hc
        cases hc
  | fill | notify | refuse | visit | close => trivial

theorem exclusive_of_among {n size : Nat} {connected : Nat → Bool} {actions : List Action}
    (among : sendMachine.Guarded (fun s a => ByFirst n a ∧ ExclusiveAmong n s a)
      (.init size connected) actions) :
    sendMachine.Guarded Exclusive (.init size connected) actions :=
  among.of_invariant (fun s => WellFormed s ∧ ∀ t, n ≤ t → s.senders t = none)
    (fun _ _ _ h hguard hstep =>
      ⟨wellFormed_step h.1 hstep, senders_of_byFirst h.1 h.2 hguard.1 hstep⟩)
    (fun _ _ h hguard => hguard.2.exclusive h.2) ⟨wellFormed_init size connected, fun _ _ => rfl⟩

/-- Two threads with overlapping calls, and a scan that begins between them. -/
def overlappingRun : List Action :=
  [.call 0 ⟨7, [0x81, 0x01, 0x61], none⟩, .call 1 ⟨7, [0x81, 0x01, 0x62], none⟩, .fill 0, .fill 1,
    .notify 0, .visit 0, .notify 1, .call 0 ⟨7, [0x81, 0x01, 0x63], none⟩, .visit 1, .fill 0, .notify 0]

theorem nothingLost_of_exclusive_overlap :
    ∃ s, sendMachine.exec (.init 3 fun _ => true) overlappingRun = some s ∧
      s.returned.length = 3 ∧ NothingLost s := by
  obtain ⟨s, run, hreturned⟩ : ∃ s, sendMachine.exec (.init 3 fun _ => true) overlappingRun = some s ∧
      s.returned.length = 3 := ⟨_, rfl, rfl⟩
  have among : sendMachine.Guarded (fun s a => ByFirst 2 a ∧ ExclusiveAmong 2 s a)
      (.init 3 fun _ => true) overlappingRun := by decide
  exact ⟨s, run, hreturned, nothingLost_of_exclusive run (exclusive_of_among among)⟩

/-- Two threads acquire the only handle of a pool before the first of them fills it. Both calls return
`true`; the context of the first is gone. -/
theorem acquired_handle_handed_out_again :
    ∃ s, sendMachine.exec (.init 1 fun _ => true)
      [.call 0 ⟨7, [0x81, 0x01, 0x61], none⟩, .call 1 ⟨7, [0x81, 0x01, 0x62], none⟩,
        .fill 0, .notify 0, .fill 1, .notify 1] = some s ∧ ¬ NothingLost s := by
  refine ⟨_, rfl, fun h => ?_⟩
  have hlost := h.once ⟨7, [0x81, 0x01, 0x61], 3, 0, 0⟩ (by decide)
  exact absurd hlost (by decide)

end AnotherWs
