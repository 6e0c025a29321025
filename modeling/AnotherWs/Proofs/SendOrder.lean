/-
Module: AnotherWs.Proofs.SendOrder
Purpose: Whether the messages of one thread leave in the order in which they were sent. The loop
  thread reads the handles in the order of initialisation, so they do as long as each handle filled
  comes after every handle that is still filled; once the queue has wrapped around with a handle
  still filled, they do not.
Trusted boundary: none
Main exports:
  OneThread, Ascending, SentInOrder, sentInOrder_of_ascending, wrapped_queue_reverses
-/
import AnotherWs.Proofs.HandlePool

namespace AnotherWs

open Slots

/-- One thread makes every call, and the loop thread scans all handles, in the order of initialisation,
between two of its calls. -/
def OneThread (thread : Nat) (s : SendSystem) : Action → Prop
  | .call t _ => t = thread ∧ s.cursor = 0
  | .fill t | .notify t | .refuse t => t = thread
  | .visit id => id = s.cursor ∧ s.senders thread = none
  | .close _ => True

instance (thread : Nat) (s : SendSystem) : ∀ a, Decidable (OneThread thread s a)
  | .call t _ => inferInstanceAs (Decidable (t = thread ∧ s.cursor = 0))
  | .fill t | .notify t | .refuse t => inferInstanceAs (Decidable (t = thread))
  | .visit id => inferInstanceAs (Decidable (id = s.cursor ∧ s.senders thread = none))
  | .close _ => inferInstanceAs (Decidable True)

/-- The handle in which a thread stores a part comes after every handle that is still filled. An
empty part is not stored. -/
def Ascending (s : SendSystem) : Action → Prop
  | .fill thread => ∀ c ∈ s.senders thread, c.part c.i ≠ [] → ∀ id < s.pool.size,
      (s.pool.asyncs id).data ≠ none → id < c.async c.i
  | _ => True

instance (s : SendSystem) : ∀ a, Decidable (Ascending s a)
  | .fill thread => inferInstanceAs (Decidable (∀ c ∈ s.senders thread, c.part c.i ≠ [] →
      ∀ id < s.pool.size, (s.pool.asyncs id).data ≠ none → id < c.async c.i))
  | .call _ _ | .notify _ | .refuse _ | .visit _ | .close _ => inferInstanceAs (Decidable True)

/-- What a peer has got so far is the front of what was sent to it, and after a scan of every handle
it has got all of it. -/
structure SentInOrder (thread : Nat) (s : SendSystem) : Prop where
  front : ∀ peer, s.wire peer <+: bytesTo peer s.stored
  scanned : s.senders thread = none → s.cursor = 0 →
    ∃ s', sendMachine.exec s ((List.range s.pool.size).map .visit) = some s' ∧
      ∀ peer, s'.connected peer = true → s'.wire peer = bytesTo peer s.stored

/-! ### The invariant -/

/-- What was stored has reached `send_data_impl`, in that order, up to what the handles hold, in the
order of initialisation. During a scan no call is in progress and the handles already visited are
empty. -/
structure InOrder (thread : Nat) (s : SendSystem) : Prop where
  others : ∀ t, t ≠ thread → s.senders t = none
  scanning : s.senders thread ≠ none → s.cursor = 0
  visited : ∀ id < s.cursor, (s.pool.asyncs id).data = none
  ordered : s.reached ++ s.pool.contents = s.stored

theorem inOrder_init (thread size : Nat) (connected : Nat → Bool) :
    InOrder thread (SendSystem.init size connected) where
  others _ _ := rfl
  scanning _ := rfl
  visited _ h := absurd h (Nat.not_lt_zero _)
  ordered := contents_eq_nil fun _ _ => rfl

namespace InOrder

variable {thread : Nat} {s s' : SendSystem}

/-- A step of the thread that moves no context. -/
theorem keep (inOrder : InOrder thread s) (size_eq : s'.pool.size = s.pool.size)
    (data_eq : ∀ id, (s'.pool.asyncs id).data = (s.pool.asyncs id).data)
    (cursor_eq : s'.cursor = s.cursor) (stored_eq : s'.stored = s.stored)
    (reached_eq : s'.reached = s.reached) (others : ∀ t, t ≠ thread → s'.senders t = s.senders t)
    (scanning : s'.senders thread ≠ none → s.cursor = 0) : InOrder thread s' where
  others t ht := (others t ht).trans (inOrder.others t ht)
  scanning h := cursor_eq.trans (scanning h)
  visited id hid := (data_eq id).trans (inOrder.visited id (cursor_eq ▸ hid))
  ordered := by
    rw [reached_eq, CAsyncs.contents_congr size_eq data_eq, stored_eq]
    exact inOrder.ordered

/-- The handles in the order of initialisation, cut at one of them. -/
theorem range_split {n id : Nat} (inside : id < n) :
    List.range n = List.range id ++ id :: List.range' (id + 1) (n - id - 1) := by
  have hcons : List.range' id (n - id) = id :: List.range' (id + 1) (n - id - 1) := by
    rw [show n - id = n - id - 1 + 1 by omega, List.range'_succ]
    rfl
  have happend : List.range' 0 id ++ List.range' (0 + id) (n - id) = List.range' 0 (id + (n - id)) :=
    List.range'_append_1
  rw [Nat.zero_add, Nat.add_sub_cancel' inside.le] at happend
  rw [← hcons, List.range_eq_range', List.range_eq_range', happend]

theorem filled (inOrder : InOrder thread s) {c : SendCall} (valid : c.Valid s)
    (h : s.senders thread = some c)
    (ascending : ∀ id < s.pool.size, (s.pool.asyncs id).data ≠ none → id < c.async c.i) :
    InOrder thread (({ s with stored := s.stored ++ [c.context c.i] }.setAsync (c.async c.i)
      { s.pool.asyncs (c.async c.i) with data := some (c.context c.i) }).setSender thread
        (some { c with filled := true })) where
  others t ht := by
    rw [SendSystem.setSender_senders, if_neg ht]
    exact inOrder.others t ht
  scanning _ := inOrder.scanning (by rw [h]; exact Option.some_ne_none _)
  visited id hid := by
    replace hid : id < s.cursor := hid
    rw [inOrder.scanning (by rw [h]; exact Option.some_ne_none _)] at hid
    exact absurd hid (Nat.not_lt_zero _)
  ordered := by
    have hinside := valid.lt_size (SendCall.async_mem valid.inside)
    have hfree : ∀ id ∈ c.async c.i :: List.range' (c.async c.i + 1) (s.pool.size - c.async c.i - 1),
        (s.pool.asyncs id).data = none := by
      intro id hid
      by_contra hdata
      have hle : c.async c.i ≤ id ∧ id < s.pool.size := by
        rcases List.mem_cons.mp hid with rfl | hback
        · exact ⟨le_rfl, hinside⟩
        · rw [List.mem_range'_1] at hback
          omega
      exact absurd (ascending id hle.2 hdata) (Nat.not_lt.mpr hle.1)
    have hsplit := range_split hinside
    have hfill := contents_fill_last (f := fun id => (s.pool.asyncs id).data)
      (b := c.context c.i) (hsplit ▸ List.nodup_range) hfree
    rw [← hsplit] at hfill
    rw [SendSystem.setSender_pool, setAsync_contents]
    show s.reached ++ Slots.contents _ (Function.update _ _ (some (c.context c.i))) = _
    rw [hfill, ← List.append_assoc]
    exact congrArg (· ++ [c.context c.i]) inOrder.ordered

/-- A visit of the next handle: afterwards it is empty, like those before it. -/
theorem visited_next (inOrder : InOrder thread s) {data : Option SendDataContext}
    (idle : s.senders thread = none) (empty : data = none)
    (pool_eq : s'.pool = (s.setAsync s.cursor ⟨data, false⟩).pool)
    (cursor_eq : s'.cursor = s.next s.cursor) (senders_eq : s'.senders = s.senders)
    (ordered : s'.reached ++ s'.pool.contents = s'.stored) : InOrder thread s' where
  others := by
    rw [senders_eq]
    exact inOrder.others
  scanning h := by
    rw [senders_eq] at h
    exact absurd idle h
  visited id hid := by
    rw [pool_eq, SendSystem.setAsync_asyncs]
    split
    · exact empty
    · rename_i hne
      rw [cursor_eq] at hid
      unfold SendSystem.next at hid
      split at hid <;> exact inOrder.visited id (by omega)
  ordered := ordered

/-- With no call in progress every filled handle is pending. -/
theorem pending (inOrder : InOrder thread s) (wf : WellFormed s) (idle : s.senders thread = none)
    {id : Nat} {ctx : SendDataContext} (data : (s.pool.asyncs id).data = some ctx) :
    (s.pool.asyncs id).pending = true := by
  rcases wf.pending id ctx data with hpending | ⟨t, c, hsending, -⟩
  · exact hpending
  · by_cases ht : t = thread
    · rw [ht, idle] at hsending
      cases hsending
    · rw [inOrder.others t ht] at hsending
      cases hsending

/-- What a skipped visit leaves behind is nothing. -/
theorem empty_of_skipped (inOrder : InOrder thread s) (wf : WellFormed s)
    (idle : s.senders thread = none) {id : Nat}
    (nothing : (s.pool.asyncs id).pending = true → (s.pool.asyncs id).data = none) :
    (s.pool.asyncs id).data = none := by
  cases hdata : (s.pool.asyncs id).data with
  | none => rfl
  | some ctx =>
      rw [nothing (inOrder.pending wf idle hdata)] at hdata
      cases hdata

end InOrder

/-- **Ascending fills keep the order.** -/
theorem inOrder_step {thread : Nat} {s s' : SendSystem} {a : Action} (wf : WellFormed s)
    (inOrder : InOrder thread s) (oneThread : OneThread thread s a) (ascending : Ascending s a)
    (h : s.step a = some s') : InOrder thread s' := by
  have hdrop : InOrder thread (s.setSender thread none) := by
    refine inOrder.keep rfl (fun _ => rfl) rfl rfl rfl (fun t ht => ?_) (fun h => ?_)
    · rw [SendSystem.setSender_senders, if_neg ht]
    · rw [SendSystem.setSender_senders, if_pos rfl] at h
      exact absurd rfl h
  have hnotified : ∀ (c : SendCall) returned sender, s.senders thread = some c →
      InOrder thread ({ s.setAsync (c.async c.i)
        { s.pool.asyncs (c.async c.i) with pending := true } with
          returned := returned }.setSender thread sender) := by
    intro c returned sender hsending
    refine inOrder.keep rfl (s.setAsync_data rfl) rfl rfl rfl (fun t ht => ?_)
      (fun _ => inOrder.scanning (by rw [hsending]; exact Option.some_ne_none _))
    rw [SendSystem.setSender_senders, if_neg ht]
    rfl
  cases SendSystem.step_cases wf.rotated h with
  | called pool' idle spec =>
      exact inOrder.keep spec.size_eq (fun id => by rw [spec.asyncs_eq]) rfl rfl rfl
        (fun _ _ => rfl) inOrder.scanning
  | acquired pool' ids idle connected found nonempty length_eq spec =>
      obtain ⟨rfl, hcursor⟩ := oneThread
      refine inOrder.keep spec.size_eq (fun id => ?_) rfl rfl rfl (fun t ht => ?_) (fun _ => hcursor)
      · show (pool'.asyncs id).data = _
        rw [spec.asyncs_eq]
      · rw [SendSystem.setSender_senders, if_neg ht]
  | @filled t c sending unfilled nonempty =>
      cases oneThread
      exact inOrder.filled (wf.valid _ _ sending) sending (ascending c sending nonempty)
  | emptyPart sending unfilled isEmpty =>
      cases oneThread
      exact hdrop
  | notified sending filled more =>
      cases oneThread
      exact hnotified _ _ _ sending
  | returned sending filled last =>
      cases oneThread
      exact hnotified _ _ _ sending
  | refused sending unfilled closed =>
      cases oneThread
      exact hdrop
  | @skipped id inside nothing =>
      obtain ⟨rfl, hidle⟩ := oneThread
      have hempty := inOrder.empty_of_skipped wf hidle nothing
      have hsame : (s.setAsync s.cursor ⟨(s.pool.asyncs s.cursor).data, false⟩).pool.contents =
          s.pool.contents := CAsyncs.contents_congr rfl (s.setAsync_data rfl)
      refine inOrder.visited_next hidle hempty rfl rfl rfl ?_
      show s.reached ++ (s.setAsync s.cursor _).pool.contents = s.stored
      rw [hsame]
      exact inOrder.ordered
  | @sent id ctx inside pending data =>
      obtain ⟨rfl, hidle⟩ := oneThread
      have hsplit := InOrder.range_split inside
      have hempty := contents_empty_first (f := fun id => (s.pool.asyncs id).data)
        (hsplit ▸ List.nodup_range) (fun id hid => inOrder.visited id (List.mem_range.mp hid)) data
      rw [← hsplit] at hempty
      refine inOrder.visited_next hidle rfl (by simp [SendSystem.setAsync]) (by simp) (by simp) ?_
      rw [setAsync_contents]
      simp only [SendSystem.setAsync_stored, SendSystem.setAsync_reached,
        SendSystem.sendDataImpl_stored, SendSystem.sendDataImpl_reached,
        SendSystem.sendDataImpl_pool, List.append_assoc]
      rw [← inOrder.ordered, CAsyncs.contents, hempty]
      rfl
  | closed =>
      exact inOrder.keep rfl (fun _ => rfl) rfl rfl rfl (fun _ _ => rfl) inOrder.scanning

/-! ### Scans and runs -/

/-- One visit of a scan between two calls. -/
theorem InOrder.visit {thread : Nat} {s mid : SendSystem} (wf : WellFormed s)
    (inOrder : InOrder thread s) (idle : s.senders thread = none) {id : Nat}
    (h : s.step (.visit id) = some mid) :
    mid.pool.size = s.pool.size ∧ mid.senders = s.senders ∧ mid.stored = s.stored ∧
      mid.connected = s.connected ∧ mid.cursor = s.next id ∧ (mid.pool.asyncs id).data = none ∧
      ∀ other, other ≠ id → mid.pool.asyncs other = s.pool.asyncs other := by
  cases SendSystem.step_cases wf.rotated h with
  | skipped inside nothing =>
      refine ⟨rfl, rfl, rfl, rfl, rfl, ?_, fun other hne => ?_⟩
      · rw [SendSystem.setAsync_asyncs, if_pos rfl]
        exact inOrder.empty_of_skipped wf idle nothing
      · rw [SendSystem.setAsync_asyncs, if_neg hne]
  | sent inside pending data =>
      refine ⟨by simp, by simp, by simp, by simp, by simp, ?_, fun other hne => ?_⟩
      · rw [SendSystem.setAsync_asyncs, if_pos rfl]
      · rw [SendSystem.setAsync_asyncs, if_neg hne, SendSystem.sendDataImpl_pool]

/-- What a scan comes to: all that was stored has reached `send_data_impl`, and the calls are as
they were. -/
structure Scanned (thread : Nat) (s s' : SendSystem) : Prop where
  wf : WellFormed s'
  written : Written s'
  inOrder : InOrder thread s'
  size_eq : s'.pool.size = s.pool.size
  senders_eq : s'.senders = s.senders
  stored_eq : s'.stored = s.stored
  connected_eq : s'.connected = s.connected
  reached_eq : s'.reached = s.stored

/-- The rest of a scan empties the handles from the cursor on. -/
theorem exec_scan {thread k m : Nat} {s : SendSystem} (wf : WellFormed s) (written : Written s)
    (inOrder : InOrder thread s) (idle : s.senders thread = none) (size_eq : s.pool.size = k + m)
    (cursor_eq : 0 < m → s.cursor = k) (visited : ∀ id < k, (s.pool.asyncs id).data = none) :
    ∃ s', sendMachine.exec s ((List.range' k m).map .visit) = some s' ∧ Scanned thread s s' ∧
      (s.cursor = 0 ∨ 0 < m → s'.cursor = 0) := by
  induction m generalizing k s with
  | zero =>
      have hnil : s.pool.contents = [] := contents_eq_nil fun id hid =>
        visited id (by rw [size_eq] at hid; exact List.mem_range.mp hid)
      have hordered := inOrder.ordered
      rw [hnil, List.append_nil] at hordered
      exact ⟨s, rfl, ⟨wf, written, inOrder, rfl, rfl, rfl, rfl, hordered⟩, fun h => by omega⟩
  | succ m ih =>
      obtain ⟨mid, hstep⟩ : ∃ mid, s.step (.visit k) = some mid := ⟨_, if_pos (by omega)⟩
      obtain ⟨hsize, hsenders, hstored, hconnected, hcursor, hempty, hother⟩ :=
        inOrder.visit wf idle hstep
      have hmid := inOrder_step wf inOrder
        (show OneThread thread s (.visit k) from ⟨(cursor_eq (by omega)).symm, idle⟩) trivial hstep
      obtain ⟨s', hrest, scanned, hback⟩ := ih (k := k + 1) (wellFormed_step wf hstep)
        (written_step wf.rotated written hstep) hmid (by rw [hsenders]; exact idle)
        (by rw [hsize, size_eq]; omega)
        (by
          intro hm
          rw [hcursor, SendSystem.next, if_pos (by omega)])
        (by
          intro id hid
          by_cases heq : id = k
          · rw [heq]
            exact hempty
          · rw [hother id heq]
            exact visited id (by omega))
      refine ⟨s', ?_, ⟨scanned.wf, scanned.written, scanned.inOrder, scanned.size_eq.trans hsize,
        scanned.senders_eq.trans hsenders, scanned.stored_eq.trans hstored,
        scanned.connected_eq.trans hconnected, scanned.reached_eq.trans hstored⟩, fun _ => hback ?_⟩
      · rw [List.range'_succ, List.map_cons]
        exact Machines.Machine.exec_cons.mpr ⟨mid, hstep, hrest⟩
      · -- after the last handle the cursor is back at the first
        by_cases hm : m = 0
        · left
          rw [hcursor, SendSystem.next, if_neg (by omega)]
        · exact Or.inr (by omega)

/-- **The messages of one thread leave in the order in which they were sent** when each handle it
fills comes after every handle that is still filled. -/
theorem sentInOrder_of_ascending {thread size : Nat} {connected : Nat → Bool}
    {actions : List Action} {s : SendSystem}
    (run : sendMachine.exec (.init size connected) actions = some s)
    (oneThread : sendMachine.Guarded (OneThread thread) (.init size connected) actions)
    (ascending : sendMachine.Guarded Ascending (.init size connected) actions) :
    SentInOrder thread s := by
  obtain ⟨wf, written, inOrder⟩ : WellFormed s ∧ Written s ∧ InOrder thread s :=
    Machines.Machine.exec_invariant (fun s => WellFormed s ∧ Written s ∧ InOrder thread s)
      (fun s a s' h hguard hstep => ⟨wellFormed_step h.1 hstep,
        written_step h.1.rotated h.2.1 hstep, inOrder_step h.1 h.2.2 hguard.1 hguard.2 hstep⟩)
      ⟨wellFormed_init size connected, written_init size connected,
        inOrder_init thread size connected⟩
      (oneThread.and ascending) run
  refine ⟨fun peer => ?_, fun idle hcursor => ?_⟩
  · have hfront : s.reached <+: s.stored := ⟨s.pool.contents, inOrder.ordered⟩
    exact (written.prefix_reached peer).trans (bytesTo_mono peer hfront)
  · obtain ⟨s', hscan, scanned, -⟩ := exec_scan wf written inOrder idle
      (Nat.zero_add _).symm (fun _ => hcursor) (fun _ h => absurd h (Nat.not_lt_zero _))
    refine ⟨s', by rw [List.range_eq_range']; exact hscan, fun peer hconnected => ?_⟩
    rw [scanned.written.wire_eq peer hconnected, scanned.reached_eq]

/-- Two messages through a pool of two handles, with a scan behind them. -/
theorem sentInOrder_of_ascending_two :
    ∃ s, sendMachine.exec (.init 2 fun _ => true)
      [.call 0 ⟨7, [0x61], none⟩, .fill 0, .notify 0, .call 0 ⟨7, [0x62], none⟩, .fill 0, .notify 0,
        .visit 0, .visit 1] = some s ∧ SentInOrder 0 s := by
  obtain ⟨s, run⟩ : ∃ s, sendMachine.exec (.init 2 fun _ => true)
      [.call 0 ⟨7, [0x61], none⟩, .fill 0, .notify 0, .call 0 ⟨7, [0x62], none⟩, .fill 0, .notify 0,
        .visit 0, .visit 1] = some s := ⟨_, rfl⟩
  exact ⟨s, run, sentInOrder_of_ascending run (by decide) (by decide)⟩

/-- After one message and a scan the queue of a pool of two handles starts at the second one: of the
next two messages the later one is written first. -/
theorem wrapped_queue_reverses :
    sendMachine.Guarded (OneThread 0) (.init 2 fun _ => true)
      [.call 0 ⟨7, [0x61], none⟩, .fill 0, .notify 0, .visit 0, .visit 1,
        .call 0 ⟨7, [0x62], none⟩, .fill 0, .notify 0, .call 0 ⟨7, [0x63], none⟩, .fill 0, .notify 0,
        .visit 0, .visit 1] ∧
    ∃ s, sendMachine.exec (.init 2 fun _ => true)
      [.call 0 ⟨7, [0x61], none⟩, .fill 0, .notify 0, .visit 0, .visit 1,
        .call 0 ⟨7, [0x62], none⟩, .fill 0, .notify 0, .call 0 ⟨7, [0x63], none⟩, .fill 0, .notify 0,
        .visit 0, .visit 1] = some s ∧ s.wire 7 = [0x61, 0x63, 0x62] ∧ ¬ SentInOrder 0 s := by
  refine ⟨by decide, _, rfl, rfl, fun h => ?_⟩
  exact absurd (h.front 7) (by decide)

end AnotherWs
