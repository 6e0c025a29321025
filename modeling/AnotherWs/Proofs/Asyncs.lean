/-
Module: AnotherWs.Proofs.Asyncs
Purpose: What an acquire hands out, and what holds of the send calls in every run.
Trusted boundary: none
Main exports:
  CAsyncs.Rotated, Window, acquire_spec, WellFormed, wellFormed_step
-/
import AnotherWs.Core.Asyncs
import Mathlib.Data.List.Nodup
import Mathlib.Data.List.GetD

namespace AnotherWs

/-! ### Acquires

The queue is always a rotation of the order of initialisation, so the handles that an acquire hands
out are consecutive. -/

/-- The deque is a rotation of the handles in the order of initialisation. -/
def CAsyncs.Rotated (pool : CAsyncs) : Prop :=
  ∃ k, pool.asyncQueue = (List.range pool.size).rotate k

/-- Free handles of consecutive ids. -/
structure Window (pool : CAsyncs) (ids : List Nat) : Prop where
  consecutive : ∃ a, ids = List.range' a ids.length ∧ a + ids.length ≤ pool.size
  free : ∀ id ∈ ids, (pool.asyncs id).data = none

theorem range_rotate {n : Nat} (hn : 0 < n) (k : Nat) :
    (List.range n).rotate k = List.range' (k % n) (n - k % n) ++ List.range (k % n) := by
  have hlt : k % n < n := Nat.mod_lt _ hn
  rw [List.rotate_eq_drop_append_take_mod, List.length_range, List.take_range,
    Nat.min_eq_left (by omega), List.range_eq_range', List.drop_range', Nat.zero_add, Nat.mul_one]

/-- What the inspection of a window establishes. -/
theorem windowFree_spec {asyncs : Nat → UvAsync} {num prevId : Nat} {queue : List Nat}
    (h : windowFree asyncs num prevId queue = true) :
    num ≤ queue.length ∧ (∀ id ∈ queue.take num, (asyncs id).data = none ∧ prevId ≤ id) ∧
      (queue.take num).Pairwise (· ≤ ·) := by
  induction num generalizing prevId queue with
  | zero => simp
  | succ num ih =>
      cases queue with
      | nil => cases h
      | cons id rest =>
          unfold windowFree at h
          split at h
          · cases h
          · rename_i hok
            rw [not_or, not_not, Nat.not_lt] at hok
            obtain ⟨hlen, hall, hpairwise⟩ := ih h
            refine ⟨by simpa using hlen, ?_, ?_⟩
            · intro other hother
              rcases List.mem_cons.mp hother with rfl | hmem
              · exact hok
              · exact ⟨(hall other hmem).1, hok.2.trans (hall other hmem).2⟩
            · exact List.pairwise_cons.mpr ⟨fun other hmem => (hall other hmem).2, hpairwise⟩

/-- A window that passes the inspection does not wrap around. -/
theorem window_of_windowFree {asyncs : Nat → UvAsync} {num k n : Nat}
    (h : windowFree asyncs num 0 ((List.range n).rotate k) = true) :
    ∃ a, ((List.range n).rotate k).take num = List.range' a num ∧ a + num ≤ n := by
  obtain ⟨hlen, -, hpairwise⟩ := windowFree_spec h
  rw [List.length_rotate, List.length_range] at hlen
  by_cases hn : n = 0
  · subst hn
    exact ⟨0, by simp [Nat.le_zero.mp hlen], by omega⟩
  · have hlt : k % n < n := Nat.mod_lt _ (by omega)
    rw [range_rotate (by omega)] at hpairwise ⊢
    by_cases hfits : num ≤ n - k % n
    · refine ⟨k % n, ?_, by omega⟩
      rw [List.take_append_of_le_length (by simpa using hfits), List.take_range'_of_length_ge hfits]
    · -- past the end of the handles the ids start again at zero
      exfalso
      rw [List.take_append, List.take_of_length_le (by simp; omega), List.length_range',
        List.take_range, List.pairwise_append] at hpairwise
      have hle := hpairwise.2.2 (k % n) (by simp; omega) 0 (by simp; omega)
      omega

theorem findWindow_spec {asyncs : Nat → UvAsync} {num maxPos fuel beginPos : Nat} {queue : List Nat} :
    (∃ r, (findWindow asyncs num maxPos fuel beginPos queue).2 = queue.rotate r) ∧
      ((findWindow asyncs num maxPos fuel beginPos queue).1 = true →
        windowFree asyncs num 0 (findWindow asyncs num maxPos fuel beginPos queue).2 = true) := by
  induction fuel generalizing beginPos queue with
  | zero => exact ⟨⟨0, by simp [findWindow]⟩, fun h => by cases h⟩
  | succ fuel ih =>
      unfold findWindow
      split
      · split
        · rename_i hfree
          exact ⟨⟨0, by simp⟩, fun _ => hfree⟩
        · obtain ⟨⟨r, hr⟩, hfound⟩ := @ih (beginPos + 1) (queue.rotate 1)
          exact ⟨⟨1 + r, by rw [hr, List.rotate_rotate]⟩, hfound⟩
      · exact ⟨⟨0, by simp⟩, fun h => by cases h⟩

/-- An acquire leaves every handle as it is and turns the queue; what it hands out is a window. -/
structure AcquireSpec (pool pool' : CAsyncs) (ids : Option (List Nat)) : Prop where
  size_eq : pool'.size = pool.size
  asyncs_eq : pool'.asyncs = pool.asyncs
  rotated : pool'.Rotated
  window : ∀ found, ids = some found → Window pool found

theorem acquireOne_spec {pool : CAsyncs} (rotated : pool.Rotated) :
    AcquireSpec pool (acquireOneUvAsync pool).2 ((acquireOneUvAsync pool).1.map ([·])) := by
  obtain ⟨k, hqueue⟩ := rotated
  unfold acquireOneUvAsync
  cases hcons : pool.asyncQueue with
  | nil => exact ⟨rfl, rfl, ⟨k, hqueue⟩, fun _ h => by cases h⟩
  | cons id rest =>
      dsimp only
      split
      · rename_i hfree
        refine ⟨rfl, rfl, ⟨k + 1, ?_⟩, ?_⟩
        · rw [← List.rotate_rotate, ← hqueue, hcons]
          simp
        · intro found h
          cases h
          have hmem : id ∈ (List.range pool.size).rotate k := by
            rw [← hqueue, hcons]
            exact List.mem_cons_self
          rw [List.mem_rotate, List.mem_range] at hmem
          exact ⟨⟨id, rfl, hmem⟩, fun other h => by rwa [List.mem_singleton.mp h]⟩
      · exact ⟨rfl, rfl, ⟨k, hqueue⟩, fun _ h => by cases h⟩

theorem acquireMany_spec (num : Nat) {pool : CAsyncs} (rotated : pool.Rotated) :
    AcquireSpec pool (acquireManyUvAsync num pool).2 (acquireManyUvAsync num pool).1 ∧
      ∀ ids, (acquireManyUvAsync num pool).1 = some ids → ids.length = num := by
  obtain ⟨k, hqueue⟩ := rotated
  have hkeep : AcquireSpec pool pool none := ⟨rfl, rfl, ⟨k, hqueue⟩, fun _ h => by cases h⟩
  unfold acquireManyUvAsync
  split
  · exact ⟨hkeep, fun _ h => by cases h⟩
  · split
    · exact ⟨hkeep, fun _ h => by cases h⟩
    · dsimp only
      obtain ⟨⟨r, hr⟩, hfound⟩ := @findWindow_spec pool.asyncs num (pool.asyncQueue.length - 1)
        (pool.asyncQueue.length - 1 + 1) 0 pool.asyncQueue
      rw [hqueue, List.rotate_rotate, ← hqueue] at hr
      split
      · rename_i hyes
        have hfree := hfound hyes
        rw [hr] at hfree ⊢
        obtain ⟨a, hwindow, hle⟩ := window_of_windowFree hfree
        have hlen : (List.range' a num).length = num := List.length_range'
        refine ⟨⟨rfl, rfl, ⟨k + r + num, by rw [List.rotate_rotate]⟩, ?_⟩, ?_⟩
        · intro found h
          cases h
          rw [hwindow]
          refine ⟨⟨a, by rw [hlen], by rw [hlen]; exact hle⟩, ?_⟩
          rw [← hwindow]
          exact fun id hid => ((windowFree_spec hfree).2.1 id hid).1
        · intro ids h
          cases h
          rw [hwindow, hlen]
      · exact ⟨⟨rfl, rfl, ⟨k + r, hr⟩, fun _ h => by cases h⟩, fun _ h => by cases h⟩

/-- The parts that a request is cut into. -/
def Request.parts (req : Request) : List Bytes :=
  match req.splitDataLenFunction with
  | none => [req.data]
  | some split => splitParts (split req.data.length) req.data

theorem length_splitParts (sizes : List Nat) (data : Bytes) :
    (splitParts sizes data).length = sizes.length := by
  induction sizes generalizing data with
  | nil => rfl
  | cons size rest ih => simp [splitParts, ih]

/-- **Acquire.** -/
theorem acquire_spec (req : Request) {pool : CAsyncs} (rotated : pool.Rotated) :
    AcquireSpec pool (req.acquire pool).2 ((req.acquire pool).1.map Prod.fst) ∧
      ∀ ids parts, (req.acquire pool).1 = some (ids, parts) →
        parts = req.parts ∧ parts.length = ids.length := by
  unfold Request.acquire Request.parts
  cases req.splitDataLenFunction with
  | none =>
      have hspec := acquireOne_spec rotated
      rcases hone : acquireOneUvAsync pool with ⟨_ | id, pool'⟩
      · rw [hone] at hspec
        exact ⟨hspec, fun _ _ h => by cases h⟩
      · rw [hone] at hspec
        refine ⟨hspec, fun ids parts h => ?_⟩
        cases h
        exact ⟨rfl, rfl⟩
  | some split =>
      dsimp only
      split
      · exact ⟨⟨rfl, rfl, rotated, fun _ h => by cases h⟩, fun _ _ h => by cases h⟩
      · obtain ⟨hspec, hnum⟩ := acquireMany_spec (split req.data.length).length rotated
        rcases hmany : acquireManyUvAsync (split req.data.length).length pool with ⟨_ | found, pool'⟩
        · rw [hmany] at hspec
          exact ⟨hspec, fun _ _ h => by cases h⟩
        · rw [hmany] at hspec hnum
          refine ⟨hspec, fun ids parts h => ?_⟩
          cases h
          exact ⟨rfl, by rw [length_splitParts, hnum _ rfl]⟩

/-! ### What a step can do -/

namespace SendSystem

variable (s : SendSystem)

section Fields

variable (id : Nat) (async : UvAsync) (thread : Nat) (sender : Option SendCall)
  (ctx : SendDataContext)

@[simp] theorem setAsync_asyncs (other : Nat) :
    (s.setAsync id async).pool.asyncs other = if other = id then async else s.pool.asyncs other :=
  Function.update_apply ..

/-- Writing a handle without touching what is behind `data`. -/
theorem setAsync_data {async : UvAsync} {id : Nat}
    (same : async.data = (s.pool.asyncs id).data) (other : Nat) :
    ((s.setAsync id async).pool.asyncs other).data = (s.pool.asyncs other).data := by
  rw [setAsync_asyncs]
  split
  · rename_i heq
    rw [heq]
    exact same
  · rfl

@[simp] theorem setAsync_size : (s.setAsync id async).pool.size = s.pool.size := rfl
@[simp] theorem setAsync_queue : (s.setAsync id async).pool.asyncQueue = s.pool.asyncQueue := rfl
@[simp] theorem setAsync_senders : (s.setAsync id async).senders = s.senders := rfl
@[simp] theorem setAsync_calls : (s.setAsync id async).calls = s.calls := rfl
@[simp] theorem setAsync_cursor : (s.setAsync id async).cursor = s.cursor := rfl
@[simp] theorem setAsync_connected : (s.setAsync id async).connected = s.connected := rfl
@[simp] theorem setAsync_stored : (s.setAsync id async).stored = s.stored := rfl
@[simp] theorem setAsync_returned : (s.setAsync id async).returned = s.returned := rfl
@[simp] theorem setAsync_reached : (s.setAsync id async).reached = s.reached := rfl
@[simp] theorem setAsync_wire : (s.setAsync id async).wire = s.wire := rfl

@[simp] theorem setSender_senders (other : Nat) :
    (s.setSender thread sender).senders other =
      if other = thread then sender else s.senders other :=
  Function.update_apply ..

@[simp] theorem setSender_pool : (s.setSender thread sender).pool = s.pool := rfl
@[simp] theorem setSender_calls : (s.setSender thread sender).calls = s.calls := rfl
@[simp] theorem setSender_cursor : (s.setSender thread sender).cursor = s.cursor := rfl
@[simp] theorem setSender_connected : (s.setSender thread sender).connected = s.connected := rfl
@[simp] theorem setSender_stored : (s.setSender thread sender).stored = s.stored := rfl
@[simp] theorem setSender_returned : (s.setSender thread sender).returned = s.returned := rfl
@[simp] theorem setSender_reached : (s.setSender thread sender).reached = s.reached := rfl
@[simp] theorem setSender_wire : (s.setSender thread sender).wire = s.wire := rfl

@[simp] theorem sendDataImpl_reached : (s.sendDataImpl ctx).reached = s.reached ++ [ctx] := by
  unfold sendDataImpl
  dsimp only
  split <;> rfl

@[simp] theorem sendDataImpl_wire (peer : Nat) :
    (s.sendDataImpl ctx).wire peer =
      if s.connected ctx.peer ∧ peer = ctx.peer then s.wire peer ++ ctx.data.take ctx.len
      else s.wire peer := by
  unfold sendDataImpl
  dsimp only
  by_cases hconnected : s.connected ctx.peer = true
  · by_cases hpeer : peer = ctx.peer
    · subst hpeer
      simp [hconnected]
    · simp [hconnected, hpeer]
  · simp [hconnected]

/-- `send_data_impl` only writes. -/
theorem sendDataImpl_eq : ∃ wire, s.sendDataImpl ctx =
    { s with reached := s.reached ++ [ctx], wire := wire } := by
  unfold sendDataImpl
  dsimp only
  split
  · exact ⟨_, rfl⟩
  · exact ⟨s.wire, rfl⟩

@[simp] theorem sendDataImpl_pool : (s.sendDataImpl ctx).pool = s.pool := by
  obtain ⟨wire, h⟩ := s.sendDataImpl_eq ctx
  rw [h]

@[simp] theorem sendDataImpl_senders : (s.sendDataImpl ctx).senders = s.senders := by
  obtain ⟨wire, h⟩ := s.sendDataImpl_eq ctx
  rw [h]

@[simp] theorem sendDataImpl_calls : (s.sendDataImpl ctx).calls = s.calls := by
  obtain ⟨wire, h⟩ := s.sendDataImpl_eq ctx
  rw [h]

@[simp] theorem sendDataImpl_cursor : (s.sendDataImpl ctx).cursor = s.cursor := by
  obtain ⟨wire, h⟩ := s.sendDataImpl_eq ctx
  rw [h]

@[simp] theorem sendDataImpl_connected : (s.sendDataImpl ctx).connected = s.connected := by
  obtain ⟨wire, h⟩ := s.sendDataImpl_eq ctx
  rw [h]

@[simp] theorem sendDataImpl_stored : (s.sendDataImpl ctx).stored = s.stored := by
  obtain ⟨wire, h⟩ := s.sendDataImpl_eq ctx
  rw [h]

@[simp] theorem sendDataImpl_returned : (s.sendDataImpl ctx).returned = s.returned := by
  obtain ⟨wire, h⟩ := s.sendDataImpl_eq ctx
  rw [h]

end Fields

/-- The handle that the loop thread looks at after `id`. -/
def next (id : Nat) : Nat := if id + 1 < s.pool.size then id + 1 else 0

/-- Everything a step can do. -/
inductive StepTo : Action → SendSystem → Prop where
  | called {thread : Nat} {req : Request} (pool' : CAsyncs) (idle : s.senders thread = none)
      (acquired : AcquireSpec s.pool pool' none) :
      StepTo (.call thread req) { s with pool := pool' }
  | acquired {thread : Nat} {req : Request} (pool' : CAsyncs) (ids : List Nat)
      (idle : s.senders thread = none) (connected : s.connected req.peer = true)
      (found : (req.acquire s.pool).1 = some (ids, req.parts)) (nonempty : ids ≠ [])
      (length_eq : req.parts.length = ids.length) (acquired : AcquireSpec s.pool pool' (some ids)) :
      StepTo (.call thread req) ({ s with pool := pool', calls := s.calls + 1 }.setSender thread
        (some ⟨s.calls, req.peer, ids, req.parts, 0, false⟩))
  | filled {thread : Nat} {c : SendCall} (sending : s.senders thread = some c)
      (unfilled : c.filled = false) (nonempty : c.part c.i ≠ []) :
      StepTo (.fill thread)
        (({ s with stored := s.stored ++ [c.context c.i] }.setAsync (c.async c.i)
          { s.pool.asyncs (c.async c.i) with data := some (c.context c.i) }).setSender thread
            (some { c with filled := true }))
  | emptyPart {thread : Nat} {c : SendCall} (sending : s.senders thread = some c)
      (unfilled : c.filled = false) (isEmpty : c.part c.i = []) :
      StepTo (.fill thread) (s.setSender thread none)
  | notified {thread : Nat} {c : SendCall} (sending : s.senders thread = some c)
      (filled : c.filled = true) (more : c.i + 1 < c.asyncResult.length) :
      StepTo (.notify thread)
        ((s.setAsync (c.async c.i) { s.pool.asyncs (c.async c.i) with pending := true }).setSender
          thread (some { c with i := c.i + 1, filled := false }))
  | returned {thread : Nat} {c : SendCall} (sending : s.senders thread = some c)
      (filled : c.filled = true) (last : ¬ c.i + 1 < c.asyncResult.length) :
      StepTo (.notify thread)
        ({ s.setAsync (c.async c.i) { s.pool.asyncs (c.async c.i) with pending := true } with
            returned := s.returned ++ (List.range c.asyncResult.length).map c.context }.setSender
          thread none)
  | refused {thread : Nat} {c : SendCall} (sending : s.senders thread = some c)
      (unfilled : c.filled = false) (closed : s.connected c.peer = false) :
      StepTo (.refuse thread) (s.setSender thread none)
  | skipped {id : Nat} (inside : id < s.pool.size)
      (nothing : (s.pool.asyncs id).pending = true → (s.pool.asyncs id).data = none) :
      StepTo (.visit id)
        ({ s with cursor := s.next id }.setAsync id ⟨(s.pool.asyncs id).data, false⟩)
  | sent {id : Nat} {ctx : SendDataContext} (inside : id < s.pool.size)
      (pending : (s.pool.asyncs id).pending = true) (data : (s.pool.asyncs id).data = some ctx) :
      StepTo (.visit id)
        (({ s with cursor := s.next id }.sendDataImpl ctx).setAsync id ⟨none, false⟩)
  | closed {peer : Nat} :
      StepTo (.close peer) { s with connected := Function.update s.connected peer false }

variable {s}

theorem setAsync_self (id : Nat) : s.setAsync id (s.pool.asyncs id) = s := by
  unfold setAsync
  rw [Function.update_eq_self]

/-- **Inversion.** -/
theorem step_cases (rotated : s.pool.Rotated) {a : Action} {s' : SendSystem}
    (h : s.step a = some s') : s.StepTo a s' := by
  cases a with
  | call thread req =>
      unfold step at h
      cases hidle : s.senders thread with
      | some c => simp [hidle] at h
      | none =>
          simp only [hidle, Option.some.injEq] at h
          subst h
          obtain ⟨hspec, hparts⟩ := acquire_spec req rotated
          have hnothing : AcquireSpec s.pool (req.acquire s.pool).2 none :=
            ⟨hspec.size_eq, hspec.asyncs_eq, hspec.rotated, fun _ h => by cases h⟩
          unfold call
          split
          · rename_i hconnected
            rcases hacquire : req.acquire s.pool with ⟨_ | ⟨_ | ⟨id, rest⟩, parts⟩, pool'⟩ <;>
              rw [hacquire] at hnothing
            · exact .called _ hidle hnothing
            · exact .called _ hidle hnothing
            · rw [hacquire] at hspec hparts
              obtain ⟨rfl, hlength⟩ := hparts _ _ rfl
              exact .acquired _ _ hidle hconnected (by rw [hacquire]) (List.cons_ne_nil id rest) hlength
                hspec
          · exact .called s.pool hidle ⟨rfl, rfl, rotated, fun _ h => by cases h⟩
  | fill thread =>
      unfold step at h
      cases hsender : s.senders thread with
      | none => simp [hsender] at h
      | some c =>
          cases hfilled : c.filled with
          | true => simp [hsender, hfilled] at h
          | false =>
              simp only [hsender, hfilled, Bool.false_eq_true, if_false, Option.some.injEq] at h
              subst h
              unfold fill
              split
              · rename_i hempty
                exact .emptyPart hsender hfilled hempty
              · rename_i hnonempty
                exact .filled hsender hfilled hnonempty
  | notify thread =>
      unfold step at h
      cases hsender : s.senders thread with
      | none => simp [hsender] at h
      | some c =>
          cases hfilled : c.filled with
          | false => simp [hsender, hfilled] at h
          | true =>
              simp only [hsender, hfilled, if_true, Option.some.injEq] at h
              subst h
              unfold notify
              dsimp only
              split
              · rename_i hmore
                exact .notified hsender hfilled hmore
              · rename_i hlast
                exact .returned hsender hfilled hlast
  | refuse thread =>
      unfold step at h
      cases hsender : s.senders thread with
      | none => simp [hsender] at h
      | some c =>
          simp only [hsender, Option.ite_none_left_eq_some, Option.some.injEq, not_or,
            Bool.not_eq_true] at h
          obtain ⟨⟨hfilled, hclosed⟩, rfl⟩ := h
          exact .refused hsender hfilled hclosed
  | visit id =>
      unfold step at h
      simp only [Option.ite_none_right_eq_some, Option.some.injEq] at h
      obtain ⟨hinside, rfl⟩ := h
      unfold visit
      rw [show (if id + 1 < s.pool.size then id + 1 else 0) = s.next id from rfl]
      dsimp only
      cases hpending : (s.pool.asyncs id).pending with
      | false =>
          have hskip := StepTo.skipped (s := s) hinside (by simp [hpending])
          have hself : ({ s with cursor := s.next id } : SendSystem).setAsync id
              ⟨(s.pool.asyncs id).data, false⟩ = { s with cursor := s.next id } := by
            rw [← hpending]
            exact setAsync_self (s := { s with cursor := s.next id }) id
          rw [hself] at hskip
          simpa only [Bool.false_eq_true, if_false] using hskip
      | true =>
          cases hdata : (s.pool.asyncs id).data with
          | none =>
              have hskip := StepTo.skipped (s := s) hinside (fun _ => hdata)
              rw [hdata] at hskip
              simpa only [if_true] using hskip
          | some ctx => simpa only [if_true] using StepTo.sent hinside hpending hdata
  | close peer =>
      cases h
      exact .closed


/-! ### What holds in every run -/

end SendSystem

/-- A call in progress: its handles are consecutive, and the contexts it has stored are those of the
parts up to its counter. -/
structure SendCall.Valid (c : SendCall) (s : SendSystem) : Prop where
  parts_length : c.parts.length = c.asyncResult.length
  inside : c.i < c.asyncResult.length
  consecutive : ∃ a, c.asyncResult = List.range' a c.asyncResult.length ∧
    a + c.asyncResult.length ≤ s.pool.size
  call_lt : c.call < s.calls
  stored : ∀ j, j < c.count → c.context j ∈ s.stored
  part_lt : ∀ ctx ∈ s.stored, ctx.call = c.call → ctx.part < c.count

namespace SendCall

variable {c : SendCall} {s s' : SendSystem}

/-- What other threads do leaves a call valid. -/
theorem Valid.mono (valid : c.Valid s) (size_eq : s'.pool.size = s.pool.size)
    (calls_le : s.calls ≤ s'.calls) (kept : ∀ ctx ∈ s.stored, ctx ∈ s'.stored)
    (fresh : ∀ ctx ∈ s'.stored, ctx.call = c.call → ctx ∈ s.stored) : c.Valid s' where
  parts_length := valid.parts_length
  inside := valid.inside
  consecutive := by
    rw [size_eq]
    exact valid.consecutive
  call_lt := valid.call_lt.trans_le calls_le
  stored j hj := kept _ (valid.stored j hj)
  part_lt ctx hctx hcall := valid.part_lt ctx (fresh ctx hctx hcall) hcall

theorem Valid.nodup (valid : c.Valid s) : c.asyncResult.Nodup := by
  obtain ⟨a, hids, -⟩ := valid.consecutive
  rw [hids]
  exact List.nodup_range'

theorem Valid.lt_size (valid : c.Valid s) {id : Nat} (h : id ∈ c.asyncResult) :
    id < s.pool.size := by
  obtain ⟨a, hids, hle⟩ := valid.consecutive
  rw [hids, List.mem_range'_1] at h
  omega

theorem Valid.count_le (valid : c.Valid s) : c.count ≤ c.asyncResult.length := by
  have hinside := valid.inside
  unfold count
  split <;> omega

theorem async_eq {j : Nat} (h : j < c.asyncResult.length) : c.asyncResult[j] = c.async j := by
  rw [async, List.getD_eq_getElem _ _ h]

theorem async_mem {j : Nat} (h : j < c.asyncResult.length) : c.async j ∈ c.asyncResult := by
  rw [← async_eq h]
  exact List.getElem_mem h

theorem count_of_filled (h : c.filled = true) : c.count = c.i + 1 := if_pos h

theorem count_of_unfilled (h : c.filled = false) : c.count = c.i := by
  simp [count, h]

/-- The handle a call fills next is the first of those it holds unfilled. -/
theorem unfilled_of_unfilled (inside : c.i < c.asyncResult.length) (h : c.filled = false) :
    c.unfilled = c.async c.i :: { c with filled := true }.unfilled := by
  show c.asyncResult.drop c.count = c.async c.i :: c.asyncResult.drop (c.i + 1)
  rw [count_of_unfilled h, List.drop_eq_getElem_cons inside, async_eq inside]

end SendCall

/-- What every run keeps. -/
structure WellFormed (s : SendSystem) : Prop where
  rotated : s.pool.Rotated
  valid : ∀ t c, s.senders t = some c → c.Valid s
  apart : ∀ t t' c c', s.senders t = some c → s.senders t' = some c' → c.call = c'.call → t = t'
  call_lt : ∀ ctx ∈ s.stored, ctx.call < s.calls
  nodup : s.stored.Nodup
  returned : ∀ ctx ∈ s.returned, ctx ∈ s.stored
  slot : ∀ id ctx, (s.pool.asyncs id).data = some ctx → id < s.pool.size ∧ ctx ∈ s.stored
  settled : ∀ ctx ∈ s.returned, ∀ t c, s.senders t = some c → ctx.call ≠ c.call
  pending : ∀ id ctx, (s.pool.asyncs id).data = some ctx → (s.pool.asyncs id).pending = true ∨
    ∃ t c, s.senders t = some c ∧ c.filled = true ∧ c.async c.i = id ∧ c.context c.i = ctx

theorem wellFormed_init (size : Nat) (connected : Nat → Bool) :
    WellFormed (SendSystem.init size connected) where
  rotated := ⟨0, by simp [SendSystem.init, CAsyncs.init]⟩
  valid _ _ h := by cases h
  apart _ _ _ _ h := by cases h
  call_lt _ h := by cases h
  nodup := List.nodup_nil
  returned _ h := by cases h
  slot _ _ h := by cases h
  settled _ h := by cases h
  pending _ _ h := by cases h

namespace WellFormed

variable {s s' : SendSystem}

/-- A call that has stored nothing yet of its current part can store it. -/
theorem context_not_mem (wf : WellFormed s) {t : Nat} {c : SendCall} (h : s.senders t = some c)
    (unfilled : c.filled = false) : c.context c.i ∉ s.stored := by
  intro hmem
  have hlt := (wf.valid t c h).part_lt _ hmem rfl
  rw [SendCall.count_of_unfilled unfilled] at hlt
  exact Nat.lt_irrefl _ hlt

/-- A handle that is pending, or whose call is about to set its flag, is so when the call of a
thread that is not about to set it is replaced. -/
theorem pending_setSender (wf : WellFormed s) {id t : Nat} {ctx : SendDataContext}
    {sender : Option SendCall} (data : (s.pool.asyncs id).data = some ctx)
    (senders_eq : s'.senders = s.senders)
    (free : ∀ c, s.senders t = some c → c.filled = true → c.async c.i ≠ id) :
    (s.pool.asyncs id).pending = true ∨ ∃ t' c', (s'.setSender t sender).senders t' = some c' ∧
      c'.filled = true ∧ c'.async c'.i = id ∧ c'.context c'.i = ctx := by
  rcases wf.pending id ctx data with hpending | ⟨t', c', h', hfilled, hasync⟩
  · exact Or.inl hpending
  · refine Or.inr ⟨t', c', ?_, hfilled, hasync⟩
    rw [SendSystem.setSender_senders, if_neg, senders_eq]
    · exact h'
    · rintro rfl
      exact free c' h' hfilled hasync.1

/-- Dropping a call that has no context in between leaves the rest as it is. -/
theorem drop (wf : WellFormed s) {t : Nat} {c : SendCall} (h : s.senders t = some c)
    (unfilled : c.filled = false) : WellFormed (s.setSender t none) where
  rotated := wf.rotated
  valid t' c' h' := by
    rw [SendSystem.setSender_senders] at h'
    split at h'
    · cases h'
    · exact (wf.valid t' c' h').mono rfl le_rfl (fun _ h => h) (fun _ h _ => h)
  apart t₁ t₂ c₁ c₂ h₁ h₂ := by
    rw [SendSystem.setSender_senders] at h₁ h₂
    split at h₁
    · cases h₁
    · split at h₂
      · cases h₂
      · exact wf.apart t₁ t₂ c₁ c₂ h₁ h₂
  call_lt := wf.call_lt
  nodup := wf.nodup
  returned := wf.returned
  slot := wf.slot
  settled ctx hctx t' c' h' := by
    rw [SendSystem.setSender_senders] at h'
    split at h'
    · cases h'
    · exact wf.settled ctx hctx t' c' h'
  pending id ctx hid := by
    refine wf.pending_setSender hid rfl fun c' h' hfilled => ?_
    rw [h, Option.some.injEq] at h'
    rw [← h', unfilled] at hfilled
    cases hfilled

/-- A new call with handles that its acquire handed out. -/
theorem acquired (wf : WellFormed s) {t peer : Nat} {ids : List Nat} {parts : List Bytes}
    {pool' : CAsyncs} (idle : s.senders t = none) (nonempty : ids ≠ [])
    (length_eq : parts.length = ids.length) (spec : AcquireSpec s.pool pool' (some ids)) :
    WellFormed ({ s with pool := pool', calls := s.calls + 1 }.setSender t
      (some ⟨s.calls, peer, ids, parts, 0, false⟩)) where
  rotated := spec.rotated
  valid t' c' h' := by
    rw [SendSystem.setSender_senders] at h'
    split at h'
    · cases h'
      obtain ⟨a, hids, hle⟩ := (spec.window ids rfl).consecutive
      refine ⟨length_eq, List.length_pos_iff.mpr nonempty, ⟨a, hids, ?_⟩, Nat.lt_succ_self _, ?_, ?_⟩
      · show a + ids.length ≤ pool'.size
        rw [spec.size_eq]
        exact hle
      · intro j hj
        exact absurd hj (Nat.not_lt_zero j)
      · intro ctx hctx hcall
        exact absurd (wf.call_lt ctx hctx) (by rw [hcall]; exact Nat.lt_irrefl _)
    · exact (wf.valid t' c' h').mono spec.size_eq (Nat.le_succ _) (fun _ h => h) (fun _ h _ => h)
  apart t₁ t₂ c₁ c₂ h₁ h₂ hcall := by
    rw [SendSystem.setSender_senders] at h₁ h₂
    -- the number of the new call is larger than that of any call in progress
    split at h₁ <;> split at h₂
    · simp_all
    · cases h₁
      exact absurd (wf.valid t₂ c₂ h₂).call_lt (by rw [← hcall]; exact Nat.lt_irrefl _)
    · cases h₂
      exact absurd (wf.valid t₁ c₁ h₁).call_lt (by rw [hcall]; exact Nat.lt_irrefl _)
    · exact wf.apart t₁ t₂ c₁ c₂ h₁ h₂ hcall
  call_lt ctx hctx := (wf.call_lt ctx hctx).trans (Nat.lt_succ_self _)
  nodup := wf.nodup
  returned := wf.returned
  slot id ctx hdata := by
    show id < pool'.size ∧ ctx ∈ s.stored
    rw [spec.size_eq]
    exact wf.slot id ctx (by rwa [← spec.asyncs_eq])
  settled ctx hctx t' c' h' := by
    rw [SendSystem.setSender_senders] at h'
    split at h'
    · cases h'
      exact (wf.call_lt ctx (wf.returned ctx hctx)).ne
    · exact wf.settled ctx hctx t' c' h'
  pending id ctx hid := by
    show (pool'.asyncs id).pending = true ∨ _
    replace hid : (pool'.asyncs id).data = some ctx := hid
    rw [spec.asyncs_eq] at hid ⊢
    refine wf.pending_setSender hid rfl fun c' h' => ?_
    rw [idle] at h'
    cases h'

/-- A context stored in the handle the call has come to. -/
theorem filled (wf : WellFormed s) {t : Nat} {c : SendCall} (h : s.senders t = some c)
    (unfilled : c.filled = false) :
    WellFormed (({ s with stored := s.stored ++ [c.context c.i] }.setAsync (c.async c.i)
      { s.pool.asyncs (c.async c.i) with data := some (c.context c.i) }).setSender t
        (some { c with filled := true })) where
  rotated := wf.rotated
  valid t' c' h' := by
    rw [SendSystem.setSender_senders] at h'
    have hvalid := wf.valid t c h
    split at h'
    · cases h'
      refine ⟨hvalid.parts_length, hvalid.inside, hvalid.consecutive, hvalid.call_lt, ?_, ?_⟩
      · intro j hj
        rw [SendCall.count_of_filled rfl] at hj
        rcases Nat.lt_succ_iff_lt_or_eq.mp hj with hlt | rfl
        · exact List.mem_append_left _
            (hvalid.stored j (by rw [SendCall.count_of_unfilled unfilled]; exact hlt))
        · exact List.mem_append_right _ (List.mem_singleton.mpr rfl)
      · intro ctx hctx hcall
        rw [SendCall.count_of_filled rfl]
        rcases List.mem_append.mp hctx with hold | hnew
        · have hlt := hvalid.part_lt ctx hold hcall
          rw [SendCall.count_of_unfilled unfilled] at hlt
          exact hlt.trans (Nat.lt_succ_self _)
        · rw [List.mem_singleton.mp hnew]
          exact Nat.lt_succ_self _
    · rename_i hne
      refine (wf.valid t' c' h').mono rfl le_rfl (fun _ h => List.mem_append_left _ h) ?_
      intro ctx hctx hcall
      rcases List.mem_append.mp hctx with hold | hnew
      · exact hold
      · rw [List.mem_singleton.mp hnew] at hcall
        exact absurd (wf.apart t' t c' c h' h hcall.symm) hne
  apart t₁ t₂ c₁ c₂ h₁ h₂ hcall := by
    rw [SendSystem.setSender_senders] at h₁ h₂
    split at h₁ <;> split at h₂
    · simp_all
    · rename_i heq hne
      cases h₁
      rw [heq]
      exact wf.apart t t₂ c c₂ h h₂ hcall
    · rename_i hne heq
      cases h₂
      rw [heq]
      exact wf.apart t₁ t c₁ c h₁ h hcall
    · exact wf.apart t₁ t₂ c₁ c₂ h₁ h₂ hcall
  call_lt ctx hctx := by
    rcases List.mem_append.mp hctx with hold | hnew
    · exact wf.call_lt ctx hold
    · rw [List.mem_singleton.mp hnew]
      exact (wf.valid t c h).call_lt
  nodup := by
    refine wf.nodup.append (List.nodup_singleton _) ?_
    rw [List.disjoint_singleton]
    exact wf.context_not_mem h unfilled
  returned ctx hctx := List.mem_append_left _ (wf.returned ctx hctx)
  slot id ctx hdata := by
    rw [SendSystem.setSender_pool, SendSystem.setAsync_asyncs] at hdata
    split at hdata
    · rename_i heq
      cases hdata
      rw [heq]
      exact ⟨(wf.valid t c h).lt_size (SendCall.async_mem (wf.valid t c h).inside),
        List.mem_append_right _ (List.mem_singleton.mpr rfl)⟩
    · exact ⟨(wf.slot id ctx hdata).1, List.mem_append_left _ (wf.slot id ctx hdata).2⟩
  settled ctx hctx t' c' h' := by
    rw [SendSystem.setSender_senders] at h'
    split at h'
    · cases h'
      exact wf.settled ctx hctx t c h
    · exact wf.settled ctx hctx t' c' h'
  pending id ctx hid := by
    rw [SendSystem.setSender_pool, SendSystem.setAsync_asyncs] at hid ⊢
    split
    · rename_i heq
      rw [if_pos heq] at hid
      exact Or.inr ⟨t, { c with filled := true },
        by rw [SendSystem.setSender_senders, if_pos rfl], rfl, heq.symm, Option.some.inj hid⟩
    · rename_i hne
      rw [if_neg hne] at hid
      refine wf.pending_setSender hid rfl fun c' h' hfilled => ?_
      rw [h, Option.some.injEq] at h'
      rw [← h', unfilled] at hfilled
      cases hfilled

/-- The pending flag of a handle is set; its call goes on or returns. -/
theorem notified (wf : WellFormed s) {t : Nat} {c : SendCall} (h : s.senders t = some c)
    (hfilled : c.filled = true) {returned : List SendDataContext} {sender : Option SendCall}
    (hreturned : ∀ ctx ∈ returned, ctx ∈ s.stored)
    (hsettled : ∀ ctx ∈ returned, ∀ t' c', t' ≠ t → s.senders t' = some c' → ctx.call ≠ c'.call)
    (hkept : sender ≠ none → returned = s.returned)
    (hsender : sender = none ∨ c.i + 1 < c.asyncResult.length ∧
      sender = some { c with i := c.i + 1, filled := false }) :
    WellFormed ({ s.setAsync (c.async c.i) { s.pool.asyncs (c.async c.i) with pending := true } with
      returned := returned }.setSender t sender) where
  rotated := wf.rotated
  valid t' c' h' := by
    rw [SendSystem.setSender_senders] at h'
    split at h'
    · have hvalid := wf.valid t c h
      rcases hsender with rfl | ⟨hmore, rfl⟩
      · cases h'
      · cases h'
        refine ⟨hvalid.parts_length, hmore, hvalid.consecutive, hvalid.call_lt, ?_, ?_⟩
        · intro j hj
          exact hvalid.stored j (by rwa [SendCall.count_of_filled hfilled])
        · intro ctx hctx hcall
          have hlt := hvalid.part_lt ctx hctx hcall
          rwa [SendCall.count_of_filled hfilled] at hlt
    · exact (wf.valid t' c' h').mono rfl le_rfl (fun _ h => h) (fun _ h _ => h)
  apart t₁ t₂ c₁ c₂ h₁ h₂ hcall := by
    have hold : ∀ t' c', (if t' = t then sender else s.senders t') = some c' →
        ∃ c'', s.senders t' = some c'' ∧ c''.call = c'.call := by
      intro t' c' h'
      split at h'
      · rename_i heq
        rcases hsender with rfl | ⟨-, rfl⟩
        · cases h'
        · cases h'
          rw [heq]
          exact ⟨c, h, rfl⟩
      · exact ⟨c', h', rfl⟩
    obtain ⟨d₁, hd₁, hcall₁⟩ := hold t₁ c₁ (by rwa [SendSystem.setSender_senders] at h₁)
    obtain ⟨d₂, hd₂, hcall₂⟩ := hold t₂ c₂ (by rwa [SendSystem.setSender_senders] at h₂)
    exact wf.apart t₁ t₂ d₁ d₂ hd₁ hd₂ (by rw [hcall₁, hcall₂, hcall])
  call_lt := wf.call_lt
  nodup := wf.nodup
  returned := hreturned
  slot id ctx hdata := by
    replace hdata : ((s.setAsync (c.async c.i)
      { s.pool.asyncs (c.async c.i) with pending := true }).pool.asyncs id).data = some ctx := hdata
    rw [SendSystem.setAsync_asyncs] at hdata
    split at hdata
    · rename_i heq
      rw [← heq] at hdata
      exact wf.slot id ctx hdata
    · exact wf.slot id ctx hdata
  settled ctx hctx t' c' h' := by
    rw [SendSystem.setSender_senders] at h'
    split at h'
    · rcases hsender with rfl | ⟨-, rfl⟩
      · cases h'
      · cases h'
        have hold : ctx ∈ s.returned := by
          rw [← hkept (Option.some_ne_none _)]
          exact hctx
        exact wf.settled ctx hold t c h
    · rename_i hne
      exact hsettled ctx hctx t' c' hne h'
  pending id ctx hid := by
    replace hid : ((s.setAsync (c.async c.i)
      { s.pool.asyncs (c.async c.i) with pending := true }).pool.asyncs id).data = some ctx := hid
    show ((s.setAsync (c.async c.i)
      { s.pool.asyncs (c.async c.i) with pending := true }).pool.asyncs id).pending = true ∨ _
    rw [SendSystem.setAsync_asyncs] at hid ⊢
    split
    · exact Or.inl rfl
    · rename_i hne
      rw [if_neg hne] at hid
      refine wf.pending_setSender hid rfl fun c' h' _ hasync => ?_
      rw [h, Option.some.injEq] at h'
      rw [← h'] at hasync
      exact hne hasync.symm

/-- A visit that empties a handle, or finds nothing behind it, leaves the calls as they are. -/
theorem visited (wf : WellFormed s) (id : Nat) (data : Option SendDataContext)
    (hdata : ∀ ctx, data = some ctx → (s.pool.asyncs id).data = some ctx)
    (hpending : (s.pool.asyncs id).pending = true → data = none)
    (pool_eq : s'.pool = (s.setAsync id ⟨data, false⟩).pool) (calls_eq : s'.calls = s.calls)
    (senders_eq : s'.senders = s.senders) (stored_eq : s'.stored = s.stored)
    (returned_eq : s'.returned = s.returned) : WellFormed s' where
  rotated := by
    rw [pool_eq]
    exact wf.rotated
  valid t c h := by
    refine (wf.valid t c (by rwa [← senders_eq])).mono (by rw [pool_eq]; rfl) calls_eq.ge ?_ ?_
    · exact fun ctx hctx => by rwa [stored_eq]
    · exact fun ctx hctx _ => by rwa [← stored_eq]
  apart t t' c c' h h' := wf.apart t t' c c' (by rwa [← senders_eq]) (by rwa [← senders_eq])
  call_lt := by
    rw [stored_eq, calls_eq]
    exact wf.call_lt
  nodup := by
    rw [stored_eq]
    exact wf.nodup
  returned := by
    rw [returned_eq, stored_eq]
    exact wf.returned
  slot other ctx h := by
    rw [pool_eq, SendSystem.setAsync_asyncs] at h
    rw [pool_eq, stored_eq]
    split at h
    · rename_i heq
      rw [heq]
      exact wf.slot id ctx (hdata ctx h)
    · exact wf.slot other ctx h
  settled := by
    rw [returned_eq, senders_eq]
    exact wf.settled
  pending other ctx h := by
    rw [pool_eq, SendSystem.setAsync_asyncs] at h ⊢
    rw [senders_eq]
    split
    · rename_i heq
      rw [if_pos heq] at h
      rw [heq]
      -- what stays behind a visit was not pending, so its call is about to set the flag
      rcases wf.pending id ctx (hdata ctx h) with hyes | hcall
      · rw [hpending hyes] at h
        cases h
      · exact Or.inr hcall
    · rename_i hne
      rw [if_neg hne] at h
      exact wf.pending other ctx h

end WellFormed

/-- **Well-formedness is kept by every step.** -/
theorem wellFormed_step {s s' : SendSystem} {a : Action} (wf : WellFormed s)
    (h : s.step a = some s') : WellFormed s' := by
  cases SendSystem.step_cases wf.rotated h with
  | called pool' idle spec =>
      refine ⟨spec.rotated, fun t c h => (wf.valid t c h).mono spec.size_eq le_rfl (fun _ h => h)
        (fun _ h _ => h), wf.apart, wf.call_lt, wf.nodup, wf.returned, ?_, wf.settled, ?_⟩
      · intro id ctx hdata
        rw [spec.size_eq]
        exact wf.slot id ctx (by rwa [← spec.asyncs_eq])
      · intro id
        rw [spec.asyncs_eq]
        exact wf.pending id
  | acquired pool' ids idle connected found nonempty length_eq spec =>
      exact wf.acquired idle nonempty length_eq spec
  | filled sending unfilled nonempty => exact wf.filled sending unfilled
  | emptyPart sending unfilled isEmpty => exact wf.drop sending unfilled
  | notified sending filled more =>
      exact wf.notified sending filled wf.returned
        (fun ctx hctx t c _ h => wf.settled ctx hctx t c h) (fun _ => rfl) (Or.inr ⟨more, rfl⟩)
  | @returned t c sending filled last =>
      have hvalid := wf.valid t c sending
      refine wf.notified sending filled ?_ ?_ (fun h => absurd rfl h) (Or.inl rfl)
      · intro ctx hctx
        rcases List.mem_append.mp hctx with hold | hnew
        · exact wf.returned ctx hold
        · obtain ⟨j, hj, rfl⟩ := List.mem_map.mp hnew
          refine hvalid.stored j ?_
          rw [SendCall.count_of_filled filled]
          have := List.mem_range.mp hj
          omega
      · intro ctx hctx t' c' hne h'
        rcases List.mem_append.mp hctx with hold | hnew
        · exact wf.settled ctx hold t' c' h'
        · obtain ⟨j, -, rfl⟩ := List.mem_map.mp hnew
          exact fun hcall => hne (wf.apart t t' c c' sending h' hcall).symm
  | refused sending unfilled closed => exact wf.drop sending unfilled
  | skipped inside nothing =>
      exact wf.visited _ _ (fun _ h => h) nothing rfl rfl rfl rfl rfl
  | @sent id ctx inside pending data =>
      exact wf.visited id none (fun _ h => by cases h) (fun _ => rfl)
        (by simp [SendSystem.setAsync]) (by simp) (by simp) (by simp) (by simp)
  | closed => exact ⟨wf.rotated, fun t c h => (wf.valid t c h).mono rfl le_rfl (fun _ h => h)
      (fun _ h _ => h), wf.apart, wf.call_lt, wf.nodup, wf.returned, wf.slot, wf.settled, wf.pending⟩

/-! ### What a peer gets -/

/-- The bytes of the contexts for one peer. -/
def bytesTo (peer : Nat) (ctxs : List SendDataContext) : Bytes :=
  (ctxs.filter fun ctx => ctx.peer = peer).flatMap fun ctx => ctx.data.take ctx.len

theorem bytesTo_append (peer : Nat) (front back : List SendDataContext) :
    bytesTo peer (front ++ back) = bytesTo peer front ++ bytesTo peer back := by
  simp [bytesTo]

theorem bytesTo_mono (peer : Nat) {front whole : List SendDataContext} (h : front <+: whole) :
    bytesTo peer front <+: bytesTo peer whole := by
  obtain ⟨back, rfl⟩ := h
  rw [bytesTo_append]
  exact List.prefix_append ..

/-- A peer gets the bytes of its contexts in the order in which they reach `send_data_impl`, until its
connection is closed. -/
structure Written (s : SendSystem) : Prop where
  prefix_reached : ∀ peer, s.wire peer <+: bytesTo peer s.reached
  wire_eq : ∀ peer, s.connected peer = true → s.wire peer = bytesTo peer s.reached

theorem written_init (size : Nat) (connected : Nat → Bool) :
    Written (SendSystem.init size connected) :=
  ⟨fun _ => List.prefix_refl _, fun _ _ => rfl⟩

theorem written_step {s s' : SendSystem} {a : Action} (rotated : s.pool.Rotated)
    (written : Written s) (h : s.step a = some s') : Written s' := by
  cases SendSystem.step_cases rotated h with
  | called | acquired | filled | emptyPart | notified | returned | refused | skipped =>
      exact ⟨written.prefix_reached, written.wire_eq⟩
  | @sent id ctx inside pending data =>
      have hnew : ∀ peer, bytesTo peer (s.reached ++ [ctx]) =
          bytesTo peer s.reached ++ if ctx.peer = peer then ctx.data.take ctx.len else [] := by
        intro peer
        rw [bytesTo_append]
        by_cases hpeer : ctx.peer = peer <;> simp [bytesTo, hpeer]
      refine ⟨fun peer => ?_, fun peer hconnected => ?_⟩
      · simp only [SendSystem.setAsync_wire, SendSystem.setAsync_reached,
          SendSystem.sendDataImpl_wire, SendSystem.sendDataImpl_reached, hnew]
        split
        · rename_i hwritten
          rw [if_pos hwritten.2.symm, written.wire_eq peer (by rw [hwritten.2]; exact hwritten.1)]
        · exact (written.prefix_reached peer).trans (List.prefix_append ..)
      · replace hconnected : s.connected peer = true := by simpa using hconnected
        simp only [SendSystem.setAsync_wire, SendSystem.setAsync_reached,
          SendSystem.sendDataImpl_wire, SendSystem.sendDataImpl_reached, hnew,
          written.wire_eq peer hconnected]
        by_cases hpeer : ctx.peer = peer
        · rw [if_pos ⟨by rw [hpeer]; exact hconnected, hpeer.symm⟩, if_pos hpeer]
        · rw [if_neg fun h => hpeer h.2.symm, if_neg hpeer, List.append_nil]
  | @closed peer =>
      refine ⟨written.prefix_reached, fun other hconnected => written.wire_eq other ?_⟩
      replace hconnected : Function.update s.connected peer false other = true := hconnected
      rw [Function.update_apply] at hconnected
      split at hconnected
      · cases hconnected
      · exact hconnected

end AnotherWs
