/-
Module: AnotherWs.Proofs.AtomicVisit
Purpose: async_send_callback, taken statement by statement between the threads, does what it does as
  one step, as long as no context is stored over another one.
Trusted boundary: none
Main exports: SendMemory.Granted, SendMemory.Steady, SendMemory.Atomic, SendMemory.follows,
  atomicVisit_refines
-/
import AnotherWs.Proofs.HandlePool
import AnotherWs.Proofs.MemorySafety

namespace AnotherWs

open Heaps Machines

/-! ### Acquires -/

/-- An acquire only looks at the pointers of the handles. -/
theorem windowFree_congr {asyncs asyncs' : Nat → UvAsync}
    (data : ∀ id, (asyncs' id).data = (asyncs id).data) (num prevId : Nat) (queue : List Nat) :
    windowFree asyncs' num prevId queue = windowFree asyncs num prevId queue := by
  induction num, prevId, queue using windowFree.induct asyncs with
  | case1 prevId queue => rfl
  | case2 num prevId => rfl
  | case3 num prevId id rest stops => simp [windowFree, data, stops]
  | case4 num prevId id rest goes ih => simp [windowFree, data, ih]

theorem findWindow_congr {asyncs asyncs' : Nat → UvAsync}
    (data : ∀ id, (asyncs' id).data = (asyncs id).data) (num maxPos fuel beginPos : Nat)
    (queue : List Nat) :
    findWindow asyncs' num maxPos fuel beginPos queue =
      findWindow asyncs num maxPos fuel beginPos queue := by
  induction fuel generalizing beginPos queue with
  | zero => rfl
  | succ fuel ih => simp only [findWindow, windowFree_congr data, ih]

theorem acquireOneUvAsync_congr {pool pool' : CAsyncs} (queue : pool'.asyncQueue = pool.asyncQueue)
    (data : ∀ id, (pool'.asyncs id).data = (pool.asyncs id).data) :
    (acquireOneUvAsync pool').1 = (acquireOneUvAsync pool).1 ∧
      (acquireOneUvAsync pool').2.asyncQueue = (acquireOneUvAsync pool).2.asyncQueue := by
  unfold acquireOneUvAsync
  rw [queue]
  cases hqueue : pool.asyncQueue with
  | nil => exact ⟨rfl, by simpa [hqueue] using queue⟩
  | cons id rest =>
      simp only [data]
      split
      · exact ⟨rfl, rfl⟩
      · exact ⟨rfl, queue⟩

theorem acquireManyUvAsync_congr (num : Nat) {pool pool' : CAsyncs}
    (queue : pool'.asyncQueue = pool.asyncQueue)
    (data : ∀ id, (pool'.asyncs id).data = (pool.asyncs id).data) :
    (acquireManyUvAsync num pool').1 = (acquireManyUvAsync num pool).1 ∧
      (acquireManyUvAsync num pool').2.asyncQueue = (acquireManyUvAsync num pool).2.asyncQueue := by
  unfold acquireManyUvAsync
  simp only [queue, findWindow_congr data]
  split
  · exact ⟨rfl, queue⟩
  · split
    · exact ⟨rfl, queue⟩
    · split <;> exact ⟨rfl, rfl⟩

/-- Pools with the same queue and the same pointers give the same handles. -/
theorem Request.acquire_congr (req : Request) {pool pool' : CAsyncs}
    (queue : pool'.asyncQueue = pool.asyncQueue)
    (data : ∀ id, (pool'.asyncs id).data = (pool.asyncs id).data) :
    (req.acquire pool').1 = (req.acquire pool).1 ∧
      (req.acquire pool').2.asyncQueue = (req.acquire pool).2.asyncQueue := by
  unfold Request.acquire
  cases req.splitDataLenFunction with
  | none =>
      obtain ⟨hfound, hqueue⟩ := acquireOneUvAsync_congr queue data
      rcases hone : acquireOneUvAsync pool with ⟨_ | id, next⟩ <;>
        rcases hone' : acquireOneUvAsync pool' with ⟨_ | id', next'⟩ <;>
        simp_all
  | some split =>
      dsimp only
      split
      · exact ⟨rfl, queue⟩
      · obtain ⟨hfound, hqueue⟩ := acquireManyUvAsync_congr (split req.data.length).length queue data
        rcases hmany : acquireManyUvAsync (split req.data.length).length pool with ⟨_ | ids, next⟩ <;>
          rcases hmany' : acquireManyUvAsync (split req.data.length).length pool' with
            ⟨_ | ids', next'⟩ <;>
          simp_all

theorem Request.acquire_size (req : Request) (pool : CAsyncs) :
    (req.acquire pool).2.size = pool.size := by
  unfold Request.acquire acquireOneUvAsync acquireManyUvAsync
  grind

attribute [ext] CAsyncs SendSystem

/-! ### The callback as one step -/

namespace CallbackPoint

/-- The callback is about this handle. -/
def visits (point : CallbackPoint) (id : Nat) : Bool := point.target.any fun target => target.1 = id

/-- What the callback has given to `send_data_impl`. -/
def entered : CallbackPoint → List SendDataContext
  | .idle | .loaded _ _ => []
  | .requested _ ctx _ | .failed _ ctx | .sent _ ctx | .freed _ ctx => [ctx]

/-- What the callback has written. -/
def written (connected : Nat → Bool) : CallbackPoint → Nat → Bytes
  | .idle, _ | .loaded _ _, _ | .requested _ _ _, _ | .failed _ _, _ => []
  | .sent _ ctx, peer | .freed _ ctx, peer =>
      if connected ctx.peer ∧ peer = ctx.peer then ctx.data.take ctx.len else []

theorem visits_iff (point : CallbackPoint) (id : Nat) :
    point.visits id = true ↔ ∃ ctx, point.target = some (id, ctx) := by
  unfold visits
  cases htarget : point.target with
  | none => simp
  | some target =>
      obtain ⟨other, ctx⟩ := target
      simp

end CallbackPoint

namespace SendMemory

/-- Memory does not run out, and no acquire hands out a handle that a call has acquired and not yet
filled. -/
def Granted (s : SendMemory) : MemoryAction → Prop
  | .call thread req _ => Exclusive s.toSendSystem (.call thread req)
  | .copy _ memory | .resume memory => memory = true
  | .fill _ | .notify _ | .visit _ | .afterWrite _ | .close _ | .afterClose _ => True

/-- What is behind the handles as long as no context is stored over another one. -/
structure Steady (s : SendMemory) : Prop where
  pending : ∀ {id}, (s.pool.asyncs id).pending = true → (s.pool.asyncs id).data ≠ none
  filled : ∀ {t c}, s.senders t = some c → c.filled = true →
    s.pool.asyncs (c.async c.i) = ⟨some (c.context c.i), false⟩ ∧ s.point.visits (c.async c.i) = false
  target : ∀ {id ctx}, s.point.target = some (id, ctx) →
    id < s.pool.size ∧ s.pool.asyncs id = ⟨some ctx, false⟩
  failed : ∀ {id ctx}, s.point = .failed id ctx → s.connected ctx.peer = false

/-- The state of the coarser model: the callback in progress has not begun. -/
structure Atomic (s : SendMemory) (a : SendSystem) : Prop where
  size : a.pool.size = s.pool.size
  queue : a.pool.asyncQueue = s.pool.asyncQueue
  asyncs : ∀ id, a.pool.asyncs id =
    ⟨(s.pool.asyncs id).data, (s.pool.asyncs id).pending || s.point.visits id⟩
  connected : a.connected = s.connected
  cursor : a.cursor = s.cursor
  calls : a.calls = s.calls
  senders : a.senders = s.senders
  stored : a.stored = s.stored
  returned : a.returned = s.returned
  reached : s.reached = a.reached ++ s.point.entered
  wire : ∀ peer, s.wire peer = a.wire peer ++ s.point.written s.connected peer

variable {s s' : SendMemory} {a : SendSystem} {lost : Block → Prop}

/-- Between two callbacks the models agree. -/
theorem Atomic.of_idle (idle : s.point = .idle) : s.Atomic s.toSendSystem where
  size := rfl
  queue := rfl
  asyncs := fun id => by simp [idle, CallbackPoint.visits, CallbackPoint.target]
  connected := rfl
  cursor := rfl
  calls := rfl
  senders := rfl
  stored := rfl
  returned := rfl
  reached := by simp [idle, CallbackPoint.entered]
  wire := fun peer => by simp [idle, CallbackPoint.written]

theorem Atomic.eq_of_idle (atomic : s.Atomic a) (idle : s.point = .idle) : a = s.toSendSystem := by
  have hasyncs : a.pool.asyncs = s.pool.asyncs := by
    funext id
    rw [atomic.asyncs]
    simp [idle, CallbackPoint.visits, CallbackPoint.target]
  have hreached : a.reached = s.reached := by
    rw [atomic.reached, idle]
    simp [CallbackPoint.entered]
  have hwire : a.wire = s.wire := by
    funext peer
    rw [atomic.wire, idle]
    simp [CallbackPoint.written]
  exact SendSystem.ext (CAsyncs.ext atomic.size atomic.queue hasyncs) atomic.connected atomic.cursor
    atomic.calls
    atomic.senders atomic.stored atomic.returned hreached hwire

/-! ### Steps of a thread -/

/-- A thread step of the coarser model that the callback cannot tell. -/
theorem Atomic.of_thread (atomic : s.Atomic a) {a' : SendSystem} (point : s'.point = s.point)
    (size : a'.pool.size = s'.pool.size) (queue : a'.pool.asyncQueue = s'.pool.asyncQueue)
    (asyncs : ∀ id, a'.pool.asyncs id =
      ⟨(s'.pool.asyncs id).data, (s'.pool.asyncs id).pending || s.point.visits id⟩)
    (connected : s'.connected = s.connected ∧ a'.connected = a.connected)
    (cursor : s'.cursor = s.cursor ∧ a'.cursor = a.cursor)
    (calls : a'.calls = s'.calls) (senders : a'.senders = s'.senders) (stored : a'.stored = s'.stored)
    (returned : a'.returned = s'.returned) (reached : s'.reached = s.reached ∧ a'.reached = a.reached)
    (wire : s'.wire = s.wire ∧ a'.wire = a.wire) : s'.Atomic a' where
  size := size
  queue := queue
  asyncs := by rw [point]; exact asyncs
  connected := by rw [connected.1, connected.2, atomic.connected]
  cursor := by rw [cursor.1, cursor.2, atomic.cursor]
  calls := calls
  senders := senders
  stored := stored
  returned := returned
  reached := by rw [reached.1, reached.2, point, atomic.reached]
  wire := fun peer => by rw [wire.1, wire.2, point, connected.1, atomic.wire]

section Threads

variable {thread : Nat} {c : SendCall}

theorem call_toSendSystem (s : SendMemory) (thread : Nat) (req : Request) (message : Bool) :
    (s.call thread req message).toSendSystem = s.toSendSystem.call thread req := by
  unfold call
  dsimp only
  split <;> rfl

theorem call_point (s : SendMemory) (thread : Nat) (req : Request) (message : Bool) :
    (s.call thread req message).point = s.point := by
  unfold call
  dsimp only
  split <;> rfl

/-- A call finds the same handles in both models. -/
theorem call_atomic (atomic : s.Atomic a) (req : Request) (message : Bool) :
    (s.call thread req message).Atomic (a.call thread req) := by
  have hdata : ∀ id, (a.pool.asyncs id).data = (s.pool.asyncs id).data := fun id => by
    rw [atomic.asyncs]
  obtain ⟨hfound, hqueue⟩ := req.acquire_congr atomic.queue hdata
  have hsize : (req.acquire a.pool).2.size = (req.acquire s.pool).2.size := by
    rw [req.acquire_size, req.acquire_size, atomic.size]
  have hasyncs : ∀ id, (req.acquire a.pool).2.asyncs id =
      ⟨((req.acquire s.pool).2.asyncs id).data,
        ((req.acquire s.pool).2.asyncs id).pending || s.point.visits id⟩ := fun id => by
    rw [req.acquire_asyncs, req.acquire_asyncs, atomic.asyncs]
  have hpoint := s.call_point thread req message
  have hcall := s.call_toSendSystem thread req message
  generalize s.call thread req message = s' at hpoint hcall
  obtain ⟨next, closing, drafts, point, writes, requests, heap⟩ := s'
  obtain rfl : next = s.toSendSystem.call thread req := hcall
  have hsame : a.connected req.peer = s.connected req.peer := by rw [atomic.connected]
  unfold SendSystem.call
  by_cases hconnected : s.connected req.peer = true
  · rw [if_pos hconnected, if_pos (hsame.trans hconnected)]
    rcases hacquire : req.acquire s.pool with ⟨found, pool⟩
    rcases hacquire' : req.acquire a.pool with ⟨found', pool'⟩
    rw [hacquire, hacquire'] at hfound hqueue hsize
    simp only [hacquire, hacquire'] at hasyncs
    obtain rfl : found' = found := hfound
    rcases found' with _ | ⟨_ | ⟨id, ids⟩, parts⟩
    · exact atomic.of_thread hpoint hsize hqueue hasyncs ⟨rfl, rfl⟩
        ⟨rfl, rfl⟩ atomic.calls atomic.senders
        atomic.stored atomic.returned ⟨rfl, rfl⟩ ⟨rfl, rfl⟩
    · exact atomic.of_thread hpoint hsize hqueue hasyncs ⟨rfl, rfl⟩
        ⟨rfl, rfl⟩ atomic.calls atomic.senders
        atomic.stored atomic.returned ⟨rfl, rfl⟩ ⟨rfl, rfl⟩
    · refine atomic.of_thread hpoint hsize hqueue hasyncs ⟨rfl, rfl⟩ ⟨rfl, rfl⟩ ?_ ?_
        atomic.stored atomic.returned ⟨rfl, rfl⟩ ⟨rfl, rfl⟩
      · exact congrArg (· + 1) atomic.calls
      · show Function.update a.senders thread _ = Function.update s.senders thread _
        rw [atomic.senders, atomic.calls]
  · rw [if_neg hconnected, if_neg (hsame ▸ hconnected)]
    exact atomic.of_thread hpoint atomic.size atomic.queue atomic.asyncs ⟨rfl, rfl⟩
      ⟨rfl, rfl⟩ atomic.calls
      atomic.senders atomic.stored atomic.returned ⟨rfl, rfl⟩ ⟨rfl, rfl⟩

/-- A refusal. -/
theorem refuse_atomic (atomic : s.Atomic a) : (s.refuse thread c).Atomic (a.setSender thread none) := by
  refine atomic.of_thread rfl atomic.size atomic.queue atomic.asyncs ⟨rfl, rfl⟩
    ⟨rfl, rfl⟩ atomic.calls ?_
    atomic.stored atomic.returned ⟨rfl, rfl⟩ ⟨rfl, rfl⟩
  show Function.update a.senders thread none = Function.update s.senders thread none
  rw [atomic.senders]

/-- `async->data = ctx`. -/
theorem fill_atomic (atomic : s.Atomic a) (nonempty : c.part c.i ≠ []) :
    (s.fill thread c).Atomic (a.fill thread c) := by
  simp only [fill, setDraft, SendSystem.fill, if_neg nonempty]
  refine atomic.of_thread rfl atomic.size atomic.queue (fun id => ?_) ⟨rfl, rfl⟩
    ⟨rfl, rfl⟩ atomic.calls ?_ ?_
    atomic.returned ⟨rfl, rfl⟩ ⟨rfl, rfl⟩
  · simp only [SendSystem.setSender_pool, SendSystem.setAsync_asyncs, atomic.asyncs]
    split
    · rename_i h
      rw [h]
    · rfl
  · show Function.update a.senders thread _ = Function.update s.senders thread _
    rw [atomic.senders]
  · exact congrArg (· ++ [c.context c.i]) atomic.stored

/-- `uv_async_send` -/
theorem notify_atomic (atomic : s.Atomic a) :
    (s.notify thread c).Atomic (a.notify thread c) := by
  have hasyncs : ∀ id,
      (a.setAsync (c.async c.i) { a.pool.asyncs (c.async c.i) with pending := true }).pool.asyncs id =
        ⟨((s.setAsync (c.async c.i)
          { s.pool.asyncs (c.async c.i) with pending := true }).pool.asyncs id).data,
          ((s.setAsync (c.async c.i)
            { s.pool.asyncs (c.async c.i) with pending := true }).pool.asyncs id).pending
            || s.point.visits id⟩ := by
    intro id
    simp only [SendSystem.setAsync_asyncs, atomic.asyncs]
    split <;> rfl
  unfold notify SendSystem.notify
  dsimp only
  split
  · refine atomic.of_thread rfl atomic.size atomic.queue hasyncs ⟨rfl, rfl⟩ ⟨rfl, rfl⟩ atomic.calls ?_
      atomic.stored atomic.returned ⟨rfl, rfl⟩ ⟨rfl, rfl⟩
    show Function.update a.senders thread _ = Function.update s.senders thread _
    rw [atomic.senders]
  · refine atomic.of_thread rfl atomic.size atomic.queue hasyncs ⟨rfl, rfl⟩ ⟨rfl, rfl⟩ atomic.calls ?_
      atomic.stored ?_ ⟨rfl, rfl⟩ ⟨rfl, rfl⟩
    · show Function.update a.senders thread _ = Function.update s.senders thread _
      rw [atomic.senders]
    · exact congrArg (· ++ _) atomic.returned

end Threads

/-! ### Steps of the callback -/

section Loop

variable {id : Nat} {ctx : SendDataContext}

/-- The coarser model has not begun with the handle. -/
theorem visit_atomic (atomic : s.Atomic a) (idle : s.point = .idle)
    (async : s.pool.asyncs id = ⟨some ctx, true⟩) : (s.visit id).Atomic a := by
  obtain rfl := atomic.eq_of_idle idle
  simp only [visit, async, if_true]
  refine { Atomic.of_idle idle with asyncs := fun other => ?_, reached := ?_, wire := fun peer => ?_ }
  · simp only [SendSystem.setAsync_asyncs, CallbackPoint.visits, CallbackPoint.target]
    by_cases hother : other = id
    · rw [hother, if_pos rfl, async]
      simp
    · simp [hother, Ne.symm hother]
  · simp [CallbackPoint.entered]
  · simp [CallbackPoint.written]

theorem request_atomic (atomic : s.Atomic a) (at_ : s.point = .loaded id ctx) :
    (s.request id ctx true).Atomic a := by
  have hreached : s.reached = a.reached := by
    rw [atomic.reached, at_]
    exact List.append_nil _
  have hwire : ∀ peer, s.wire peer = a.wire peer := fun peer => by
    rw [atomic.wire, at_]
    exact List.append_nil _
  unfold request
  dsimp only
  split
  · refine { atomic with asyncs := fun other => ?_, reached := ?_, wire := fun peer => ?_ }
    · rw [atomic.asyncs, at_]
      rfl
    · exact congrArg (· ++ [ctx]) hreached
    · simpa [CallbackPoint.written] using hwire peer
  · refine { atomic with asyncs := fun other => ?_, reached := ?_, wire := fun peer => ?_ }
    · rw [atomic.asyncs, at_]
      rfl
    · exact congrArg (· ++ [ctx]) hreached
    · simpa [CallbackPoint.written] using hwire peer

theorem write_atomic (atomic : s.Atomic a) {n : Nat} (at_ : s.point = .requested id ctx n) :
    (s.write id ctx n).Atomic a := by
  have hreached : s.reached = a.reached ++ [ctx] := by
    rw [atomic.reached, at_]
    rfl
  have hwire : ∀ peer, s.wire peer = a.wire peer := fun peer => by
    rw [atomic.wire, at_]
    exact List.append_nil _
  unfold write
  split
  · rename_i hconnected
    refine { atomic with asyncs := fun other => ?_, reached := hreached, wire := fun peer => ?_ }
    · rw [atomic.asyncs, at_]
      rfl
    · simp only [CallbackPoint.written, hconnected, true_and, Function.update_apply, hwire]
      split
      · rename_i h
        rw [h]
      · exact (List.append_nil _).symm
  · refine { atomic with asyncs := fun other => ?_, reached := hreached, wire := fun peer => ?_ }
    · rw [atomic.asyncs, at_]
      rfl
    · simpa [CallbackPoint.written] using hwire peer

theorem freeData_atomic (atomic : s.Atomic a) (at_ : s.point = .failed id ctx)
    (gone : s.connected ctx.peer = false) : (s.freeData id ctx).Atomic a := by
  refine { atomic with asyncs := fun other => ?_, reached := ?_, wire := fun peer => ?_ }
  · rw [atomic.asyncs, at_]
    rfl
  · show s.reached = _
    rw [atomic.reached, at_]
    rfl
  · show s.wire peer = _
    rw [atomic.wire, at_]
    simp [CallbackPoint.written, freeData, gone]

theorem freeContext_atomic (atomic : s.Atomic a) (at_ : s.point = .sent id ctx) :
    (s.freeContext id ctx).Atomic a := by
  refine { atomic with asyncs := fun other => ?_, reached := ?_, wire := fun peer => ?_ }
  · rw [atomic.asyncs, at_]
    rfl
  · show s.reached = _
    rw [atomic.reached, at_]
    rfl
  · show s.wire peer = _
    rw [atomic.wire, at_]
    rfl

/-- The end of the callback is the visit of the coarser model. -/
theorem release_atomic (atomic : s.Atomic a) (at_ : s.point = .freed id ctx)
    (untouched : s.pool.asyncs id = ⟨some ctx, false⟩) : (s.release id).Atomic (a.visit id) := by
  have hasync : a.pool.asyncs id = ⟨some ctx, true⟩ := by
    rw [atomic.asyncs, untouched, at_]
    simp [CallbackPoint.visits, CallbackPoint.target]
  have hvisit : a.visit id = ({ a with cursor := a.next id }.sendDataImpl ctx).setAsync id
      ⟨none, false⟩ := by
    simp only [SendSystem.visit, hasync, if_true]
    rfl
  unfold release
  rw [hvisit]
  constructor
  · simpa using atomic.size
  · simpa using atomic.queue
  · intro other
    simp only [SendSystem.setAsync_asyncs, SendSystem.sendDataImpl_pool, untouched, atomic.asyncs, at_,
      CallbackPoint.visits, CallbackPoint.target]
    by_cases hother : other = id
    · simp [hother]
    · simp [hother, Ne.symm hother]
  · simpa using atomic.connected
  · simp [next, SendSystem.next, atomic.size]
  · simpa using atomic.calls
  · simpa using atomic.senders
  · simpa using atomic.stored
  · simpa using atomic.returned
  · simp only [SendSystem.setAsync_reached, SendSystem.sendDataImpl_reached, atomic.reached, at_,
      CallbackPoint.entered, List.append_nil]
  · intro peer
    simp only [SendSystem.setAsync_wire, SendSystem.sendDataImpl_wire, atomic.wire, at_,
      CallbackPoint.written, List.append_nil, atomic.connected]
    split <;> simp

end Loop

/-! ### The handles -/

theorem steady_init (size : Nat) (connected : Nat → Bool) :
    (SendMemory.init size connected).Steady where
  pending := fun h => by cases h
  filled := fun h => by cases h
  target := fun h => by cases h
  failed := fun h => by cases h

section Handles

variable {thread : Nat} {c : SendCall} {id : Nat} {ctx : SendDataContext}

theorem call_size (s : SendMemory) (thread : Nat) (req : Request) (message : Bool) :
    (s.call thread req message).pool.size = s.pool.size := by
  have hsize := req.acquire_size s.pool
  rw [call_toSendSystem]
  unfold SendSystem.call
  split
  · split <;> rename_i hacquire <;> rw [hacquire] at hsize <;> exact hsize
  · rfl

/-- A step of a thread that stores nothing. -/
theorem Steady.of_thread (steady : s.Steady) (point : s'.point = s.point)
    (size : s'.pool.size = s.pool.size)
    (connected : s'.connected = s.connected) (asyncs : s'.pool.asyncs = s.pool.asyncs)
    (senders : ∀ {t c}, s'.senders t = some c → c.filled = true → s.senders t = some c) :
    s'.Steady where
  pending := by
    rw [asyncs]
    exact steady.pending
  filled := by
    rw [asyncs, point]
    exact fun hc hfilled => steady.filled (senders hc hfilled) hfilled
  target := by
    rw [asyncs, point, size]
    exact steady.target
  failed := by
    rw [point, connected]
    exact steady.failed

theorem Steady.call (steady : s.Steady) (idle : s.senders thread = none) (req : Request)
    (message : Bool) : (s.call thread req message).Steady := by
  have hsize := s.call_size thread req message
  rcases call_cases idle req message with ⟨pool', hasyncs, hcall⟩ | ⟨pool', c, hasyncs, -, hcount,
    hcall⟩
  · rw [hcall] at hsize ⊢
    exact steady.of_thread rfl hsize rfl hasyncs fun hc _ => hc
  · rw [hcall] at hsize ⊢
    refine steady.of_thread rfl hsize rfl hasyncs fun {t d} hd hfilled => ?_
    by_cases ht : t = thread
    · subst ht
      simp only [Function.update_self, Option.some.injEq] at hd
      rw [← hd] at hfilled
      rw [SendCall.count_of_filled hfilled] at hcount
      cases hcount
    · simpa [ht] using hd

theorem Steady.refuse (steady : s.Steady) : (s.refuse thread c).Steady := by
  refine steady.of_thread rfl rfl rfl rfl fun {t d} hd _ => ?_
  by_cases ht : t = thread
  · simp [SendMemory.refuse, ht] at hd
  · simpa [SendMemory.refuse, ht] using hd

/-- A context is stored in a handle that has none. -/
theorem Steady.fill (steady : s.Steady) (nonempty : c.part c.i ≠ [])
    (free : (s.pool.asyncs (c.async c.i)).data = none) : (s.fill thread c).Steady := by
  have hquiet : (s.pool.asyncs (c.async c.i)).pending = false := by
    rw [← Bool.not_eq_true]
    exact fun h => steady.pending h free
  have hused : ∀ {id ctx}, s.pool.asyncs id = ⟨some ctx, false⟩ → id ≠ c.async c.i := by
    rintro id ctx hasync rfl
    rw [hasync] at free
    cases free
  have hasyncs : ∀ id, (s.fill thread c).pool.asyncs id =
      if id = c.async c.i then ⟨some (c.context c.i), false⟩ else s.pool.asyncs id := fun id => by
    simp only [SendMemory.fill, setDraft, SendSystem.fill, if_neg nonempty, SendSystem.setSender_pool,
      SendSystem.setAsync_asyncs, hquiet]
  have hsenders : ∀ t, (s.fill thread c).senders t =
      if t = thread then some { c with filled := true } else s.senders t := fun t => by
    simp only [SendMemory.fill, setDraft, SendSystem.fill, if_neg nonempty,
      SendSystem.setSender_senders, SendSystem.setAsync_senders]
  have hconnected : (s.fill thread c).connected = s.connected := by
    simp [SendMemory.fill, setDraft, SendSystem.fill, nonempty]
  have hsize : (s.fill thread c).pool.size = s.pool.size := by
    simp [SendMemory.fill, setDraft, SendSystem.fill, nonempty]
  refine ⟨fun {id} h => ?_, fun {t d} hd hfilled => ?_, fun {id ctx} h => ?_, ?_⟩
  · rw [hasyncs] at h ⊢
    split at h
    · cases h
    · rw [if_neg ‹_›]
      exact steady.pending h
  · rw [hsenders] at hd
    split at hd
    · cases hd
      refine ⟨by rw [hasyncs]; exact if_pos rfl, ?_⟩
      rw [← Bool.not_eq_true]
      intro hvisits
      obtain ⟨ctx, htarget⟩ := (CallbackPoint.visits_iff _ _).mp hvisits
      exact hused (steady.target htarget).2 rfl
    · obtain ⟨hasync, hvisits⟩ := steady.filled hd hfilled
      refine ⟨?_, hvisits⟩
      rw [hasyncs, if_neg (hused hasync), hasync]
  · obtain ⟨hlt, hasync⟩ := steady.target h
    refine ⟨hsize ▸ hlt, ?_⟩
    rw [hasyncs, if_neg (hused hasync), hasync]
  · rw [hconnected]
    exact steady.failed

/-- A handle is notified by the thread that has filled it. -/
theorem Steady.notify (steady : s.Steady) (apart : s.CallsApart) (sending : s.senders thread = some c)
    (filled : c.filled = true) : (s.notify thread c).Steady := by
  obtain ⟨hmine, hvisits⟩ := steady.filled sending filled
  have hasyncs : ∀ id, (s.notify thread c).pool.asyncs id =
      if id = c.async c.i then ⟨some (c.context c.i), true⟩ else s.pool.asyncs id := fun id => by
    unfold SendMemory.notify SendSystem.notify
    dsimp only
    split <;> simp only [SendSystem.setSender_pool, SendSystem.setAsync_asyncs, hmine]
  have hsenders : ∀ {t d}, (s.notify thread c).senders t = some d → d.filled = true →
      t ≠ thread ∧ s.senders t = some d := by
    intro t d hd hfilled
    unfold SendMemory.notify SendSystem.notify at hd
    dsimp only at hd
    by_cases ht : t = thread
    · subst ht
      split at hd
      · simp only [SendSystem.setSender_senders, if_pos, Option.some.injEq] at hd
        rw [← hd] at hfilled
        cases hfilled
      · simp at hd
    · refine ⟨ht, ?_⟩
      split at hd <;> simpa [ht] using hd
  have hconnected : (s.notify thread c).connected = s.connected := by
    unfold SendMemory.notify SendSystem.notify
    dsimp only
    split <;> rfl
  have hsize : (s.notify thread c).pool.size = s.pool.size := by
    unfold SendMemory.notify SendSystem.notify
    dsimp only
    split <;> rfl
  refine ⟨fun {id} h => ?_, fun {t d} hd hfilled => ?_, fun {id ctx} h => ?_, ?_⟩
  · rw [hasyncs] at h ⊢
    split
    · exact Option.some_ne_none _
    · rw [if_neg ‹_›] at h
      exact steady.pending h
  · obtain ⟨ht, hd⟩ := hsenders hd hfilled
    obtain ⟨hasync, hother⟩ := steady.filled hd hfilled
    refine ⟨?_, hother⟩
    rw [hasyncs, if_neg, hasync]
    intro hsame
    rw [hsame, hmine] at hasync
    -- two threads with one context are one thread
    have hcall : c.call = d.call := by
      have h := congrArg UvAsync.data hasync
      simp only [Option.some.injEq, SendCall.context, SendDataContext.mk.injEq] at h
      exact h.2.2.2.1
    exact ht (apart.distinct hd sending hcall.symm)
  · obtain ⟨hlt, hasync⟩ := steady.target h
    refine ⟨hsize ▸ hlt, ?_⟩
    rw [hasyncs, if_neg, hasync]
    rintro rfl
    have hyes : s.point.visits (c.async c.i) = true := (CallbackPoint.visits_iff _ _).mpr ⟨ctx, h⟩
    rw [hyes] at hvisits
    cases hvisits
  · rw [hconnected]
    exact steady.failed

/-- The loop thread gets to a handle. -/
theorem Steady.visit (steady : s.Steady) (bound : id < s.pool.size)
    (async : s.pool.asyncs id = ⟨some ctx, true⟩) : (s.visit id).Steady := by
  have hasyncs : ∀ other, (s.visit id).pool.asyncs other =
      if other = id then ⟨some ctx, false⟩ else s.pool.asyncs other := fun other => by
    simp only [SendMemory.visit, async, if_true, SendSystem.setAsync_asyncs]
  have hpoint : (s.visit id).point = .loaded id ctx := by simp only [SendMemory.visit, async, if_true]
  have hsenders : (s.visit id).senders = s.senders := by
    simp only [SendMemory.visit, async, if_true, SendSystem.setAsync_senders]
  have hsize : (s.visit id).pool.size = s.pool.size := by
    simp only [SendMemory.visit, async, if_true, SendSystem.setAsync_size]
  refine ⟨fun {other} h => ?_, fun {t d} hd hfilled => ?_, fun {other ctx'} h => ?_, fun h => ?_⟩
  · rw [hasyncs] at h ⊢
    split at h
    · cases h
    · rw [if_neg ‹_›]
      exact steady.pending h
  · rw [hsenders] at hd
    obtain ⟨hasync, -⟩ := steady.filled hd hfilled
    have hne : d.async d.i ≠ id := by
      intro hsame
      rw [hsame, async] at hasync
      cases hasync
    rw [hasyncs, if_neg hne, hpoint]
    refine ⟨hasync, ?_⟩
    simp [CallbackPoint.visits, CallbackPoint.target, Ne.symm hne]
  · rw [hpoint] at h
    cases h
    rw [hasyncs, hsize]
    exact ⟨bound, if_pos rfl⟩
  · rw [hpoint] at h
    cases h

/-- A statement of the callback that writes no handle. -/
theorem Steady.of_callback (steady : s.Steady) (pool : s'.pool = s.pool)
    (senders : s'.senders = s.senders) (target : s'.point.target = s.point.target)
    (failed : ∀ {id ctx}, s'.point = .failed id ctx → s'.connected ctx.peer = false) : s'.Steady where
  pending := by
    rw [pool]
    exact steady.pending
  filled := by
    rw [pool, senders]
    unfold CallbackPoint.visits
    rw [target]
    exact steady.filled
  target := by
    rw [pool, target]
    exact steady.target
  failed := failed

theorem Steady.request (steady : s.Steady) (at_ : s.point = .loaded id ctx) :
    (s.request id ctx true).Steady := by
  by_cases hconnected : s.connected ctx.peer = true
  · rw [SendMemory.request, if_pos ⟨hconnected, rfl⟩]
    exact steady.of_callback rfl rfl (by rw [at_]; rfl) (fun h => by cases h)
  · rw [SendMemory.request, if_neg (fun h => hconnected h.1)]
    refine steady.of_callback rfl rfl (by rw [at_]; rfl) (fun h => ?_)
    cases h
    exact Bool.eq_false_iff.mpr hconnected

theorem Steady.write (steady : s.Steady) {n : Nat} (at_ : s.point = .requested id ctx n) :
    (s.write id ctx n).Steady := by
  by_cases hconnected : s.connected ctx.peer = true
  · rw [SendMemory.write, if_pos hconnected]
    exact steady.of_callback rfl rfl (by rw [at_]; rfl) (fun h => by cases h)
  · rw [SendMemory.write, if_neg hconnected]
    refine steady.of_callback rfl rfl (by rw [at_]; rfl) (fun h => ?_)
    cases h
    exact Bool.eq_false_iff.mpr hconnected

/-- The end of the callback. -/
theorem Steady.release (steady : s.Steady) (at_ : s.point = .freed id ctx) : (s.release id).Steady := by
  have htarget : s.point.target = some (id, ctx) := by
    rw [at_]
    rfl
  obtain ⟨-, hasync⟩ := steady.target htarget
  have hasyncs : ∀ other, (s.release id).pool.asyncs other =
      if other = id then ⟨none, false⟩ else s.pool.asyncs other := fun other => by
    simp only [SendMemory.release, SendSystem.setAsync_asyncs, hasync]
  refine ⟨fun {other} h => ?_, fun {t d} hd hfilled => ?_, fun h => (by cases h),
    fun h => (by cases h)⟩
  · rw [hasyncs] at h ⊢
    split at h
    · cases h
    · rw [if_neg ‹_›]
      exact steady.pending h
  · obtain ⟨hmine, hvisits⟩ := steady.filled hd hfilled
    have hne : d.async d.i ≠ id := by
      rintro rfl
      rw [(CallbackPoint.visits_iff _ _).mpr ⟨ctx, htarget⟩] at hvisits
      cases hvisits
    rw [hasyncs, if_neg hne]
    exact ⟨hmine, rfl⟩

end Handles

/-! ### The refinement -/

/-- **One step.** The coarser model does nothing, or one step, and agrees again. -/
theorem follows (accounted : s.Accounted lost) (steady : s.Steady) (atomic : s.Atomic a)
    (wf : WellFormed a)
    (held : Apart a) {action : MemoryAction} (granted : s.Granted action)
    (step : s.step action = some s') :
    s'.Steady ∧ ∃ steps a', sendMachine.Guarded Exclusive a steps ∧ sendMachine.exec a steps = some a' ∧
      s'.Atomic a' := by
  have hdata : ∀ id, (a.pool.asyncs id).data = (s.pool.asyncs id).data := fun id => by
    rw [atomic.asyncs]
  cases action with
  | call thread req message =>
      simp only [SendMemory.step] at step
      split at step
      · rename_i hidle
        cases step
        refine ⟨steady.call hidle req message, [.call thread req], _, ⟨?_, fun _ _ => trivial⟩, ?_,
          call_atomic atomic req message⟩
        · intro hconnected ids parts hfound t c hc
          rw [atomic.connected] at hconnected
          rw [(req.acquire_congr atomic.queue hdata).1] at hfound
          exact granted hconnected ids parts hfound t c (atomic.senders ▸ hc)
        · rw [Machine.exec_singleton]
          simp [sendMachine, SendSystem.step, atomic.senders, hidle]
      · cases step
  | copy thread memory =>
      obtain rfl : memory = true := granted
      simp only [SendMemory.step] at step
      split at step
      · rename_i c hsending
        split at step
        · cases step
        · rename_i hready
          cases step
          simp only [not_or, Bool.not_eq_true] at hready
          unfold copy
          split
          · rename_i hrefuses
            refine ⟨steady.refuse, ?_⟩
            by_cases hempty : c.part c.i = []
            · refine ⟨[.fill thread], _, ⟨trivial, fun _ _ => trivial⟩, ?_, refuse_atomic atomic⟩
              rw [Machine.exec_singleton]
              simp [sendMachine, SendSystem.step, atomic.senders, hsending, hready.1,
                SendSystem.fill, hempty]
            · have hgone : s.connected c.peer = false := by simpa [Refuses, hempty] using hrefuses
              refine ⟨[.refuse thread], _, ⟨trivial, fun _ _ => trivial⟩, ?_, refuse_atomic atomic⟩
              rw [Machine.exec_singleton]
              simp [sendMachine, SendSystem.step, atomic.senders, atomic.connected, hsending,
                hready.1, hgone]
          · exact ⟨steady.of_thread rfl rfl rfl rfl fun h _ => h, [], a, trivial, rfl, { atomic with }⟩
      · cases step
  | fill thread =>
      simp only [SendMemory.step] at step
      split at step
      · rename_i c hsending
        split at step
        · rename_i hcopied
          cases step
          obtain ⟨hunfilled, hnonempty⟩ := accounted.apart.copied hsending hcopied
          have hsending' : a.senders thread = some c := atomic.senders ▸ hsending
          have hfree : (s.pool.asyncs (c.async c.i)).data = none := by
            rw [← hdata]
            refine held.empty thread c hsending' _ ?_
            rw [SendCall.unfilled_of_unfilled (wf.valid thread c hsending').inside hunfilled]
            exact List.mem_cons_self
          refine ⟨steady.fill hnonempty hfree, [.fill thread], _, ⟨trivial, fun _ _ => trivial⟩, ?_,
            fill_atomic atomic hnonempty⟩
          rw [Machine.exec_singleton]
          simp [sendMachine, SendSystem.step, atomic.senders, hsending, hunfilled]
        · cases step
      · cases step
  | notify thread =>
      simp only [SendMemory.step] at step
      split at step
      · rename_i c hsending
        split at step
        · rename_i hfilled
          cases step
          refine ⟨steady.notify accounted.apart hsending hfilled, [.notify thread], _,
            ⟨trivial, fun _ _ => trivial⟩, ?_, notify_atomic atomic⟩
          rw [Machine.exec_singleton]
          simp [sendMachine, SendSystem.step, atomic.senders, hsending, hfilled]
        · cases step
      · cases step
  | visit id =>
      simp only [SendMemory.step] at step
      split at step
      · rename_i hready
        obtain ⟨hidle, hbound⟩ := hready
        cases step
        rcases hasync : s.pool.asyncs id with ⟨data, _ | _⟩
        · -- no callback: the cursor moves in both models
          have hvisit : s.visit id = { s with cursor := s.next id } := by simp [visit, hasync]
          rw [hvisit]
          refine ⟨steady.of_callback rfl rfl rfl fun h => ?_, [.visit id], _,
            ⟨trivial, fun _ _ => trivial⟩, ?_, Atomic.of_idle hidle⟩
          · rw [hidle] at h
            cases h
          · obtain rfl := atomic.eq_of_idle hidle
            rw [Machine.exec_singleton]
            simp [sendMachine, SendSystem.step, SendSystem.visit, hbound, hasync, next]
        · cases data with
          | none =>
              have hpending : (s.pool.asyncs id).pending = true := by rw [hasync]
              have hnone := steady.pending hpending
              rw [hasync] at hnone
              exact absurd rfl hnone
          | some ctx =>
              exact ⟨steady.visit hbound hasync, [], a, trivial, rfl, visit_atomic atomic hidle hasync⟩
      · cases step
  | resume memory =>
      obtain rfl : memory = true := granted
      cases hpoint : s.point with
      | idle => simp [SendMemory.step, resume, hpoint] at step
      | loaded id ctx =>
          simp only [SendMemory.step, resume, hpoint, Option.some.injEq] at step
          subst step
          exact ⟨steady.request hpoint, [], a, trivial, rfl, request_atomic atomic hpoint⟩
      | requested id ctx n =>
          simp only [SendMemory.step, resume, hpoint, Option.some.injEq] at step
          subst step
          exact ⟨steady.write hpoint, [], a, trivial, rfl, write_atomic atomic hpoint⟩
      | failed id ctx =>
          simp only [SendMemory.step, resume, hpoint, Option.some.injEq] at step
          subst step
          refine ⟨steady.of_callback rfl rfl (by rw [hpoint]; rfl) fun h => ?_, [], a, trivial, rfl,
            freeData_atomic atomic hpoint (steady.failed hpoint)⟩
          cases h
      | sent id ctx =>
          simp only [SendMemory.step, resume, hpoint, Option.some.injEq] at step
          subst step
          refine ⟨steady.of_callback rfl rfl (by rw [hpoint]; rfl) fun h => ?_, [], a, trivial, rfl,
            freeContext_atomic atomic hpoint⟩
          cases h
      | freed id ctx =>
          simp only [SendMemory.step, resume, hpoint, Option.some.injEq] at step
          subst step
          have htarget : s.point.target = some (id, ctx) := by
            rw [hpoint]
            rfl
          obtain ⟨hbound, hasync⟩ := steady.target htarget
          refine ⟨steady.release hpoint, [.visit id], _, ⟨trivial, fun _ _ => trivial⟩, ?_,
            release_atomic atomic hpoint hasync⟩
          rw [Machine.exec_singleton]
          simp [sendMachine, SendSystem.step, atomic.size, hbound]
  | afterWrite peer =>
      simp only [SendMemory.step] at step
      split at step
      · obtain ⟨w, -, rfl⟩ := Option.map_eq_some_iff.mp step
        exact ⟨steady.of_callback rfl rfl rfl steady.failed, [], a, trivial, rfl, { atomic with }⟩
      · cases step
  | close peer =>
      simp only [SendMemory.step] at step
      split at step
      · cases step
        exact ⟨steady.of_callback rfl rfl rfl steady.failed, [], a, trivial, rfl, { atomic with }⟩
      · cases step
  | afterClose peer =>
      simp only [SendMemory.step] at step
      split at step
      · rename_i hready
        cases step
        obtain rfl := atomic.eq_of_idle hready.1
        refine ⟨steady.of_callback rfl rfl rfl fun h => ?_, [.close peer], _,
          ⟨trivial, fun _ _ => trivial⟩, ?_, Atomic.of_idle hready.1⟩
        · rw [hready.1] at h
          cases h
        · rw [Machine.exec_singleton]
          rfl
      · cases step

end SendMemory

open SendMemory

/-- **Refinement.** As long as memory does not run out and no acquire hands out a handle that a call
has acquired and not yet filled, a run reaches, whenever no callback is in progress, a state that
the coarser model reaches with such acquires; and every context of a call that has returned `true`
has got to `send_data_impl` or is in a handle, once. -/
theorem atomicVisit_refines {size : Nat} {connected : Nat → Bool} {actions : List MemoryAction}
    {s : SendMemory} (run : memoryMachine.exec (SendMemory.init size connected) actions = some s)
    (granted : memoryMachine.Guarded Granted (SendMemory.init size connected) actions)
    (idle : s.point = .idle) :
    (∃ steps, sendMachine.Guarded Exclusive (SendSystem.init size connected) steps ∧
        sendMachine.exec (SendSystem.init size connected) steps = some s.toSendSystem) ∧
      ∀ ctx ∈ s.returned, (s.reached ++ s.pool.contents).count ctx = 1 := by
  have hinit := accounted_init size connected
  obtain ⟨steps, a, hguarded, hrun, -, -, hatomic, hwf, hheld⟩ :=
    Machine.exec_simulates (M := memoryMachine) (N := sendMachine)
      (fun s a => (∃ lost, s.Accounted lost) ∧ s.Steady ∧ s.Atomic a ∧ WellFormed a ∧ Apart a)
      (fun s action s' a h hgranted hstep => by
        obtain ⟨⟨lost, haccounted⟩, hsteady, hatomic, hwf, hheld⟩ := h
        obtain ⟨hsteady', steps, a', hguarded, hrun, hatomic'⟩ :=
          follows haccounted hsteady hatomic hwf hheld hgranted hstep
        obtain ⟨lost', haccounted', -⟩ := step_accounted haccounted hstep
        obtain ⟨hwf', hheld'⟩ := Machine.exec_invariant (fun a => WellFormed a ∧ Apart a)
          (fun a action a' h hexclusive hstep =>
            ⟨wellFormed_step h.1 hstep, apart_step h.1 h.2 hexclusive hstep⟩) ⟨hwf, hheld⟩ hguarded hrun
        exact ⟨steps, a', hguarded, hrun, ⟨lost', haccounted'⟩, hsteady', hatomic', hwf', hheld'⟩)
      ⟨⟨_, hinit⟩, steady_init size connected, Atomic.of_idle rfl, wellFormed_init size connected,
        apart_init size connected⟩ granted run
  obtain rfl := hatomic.eq_of_idle idle
  exact ⟨⟨steps, hguarded, hrun⟩, (hheld.nothingLost hwf).once⟩

/-- Two threads with overlapping calls. The callback with the message of the one comes between the
steps of the other, and goes on between them. -/
def interleavedSends : List MemoryAction :=
  [.call 0 ⟨7, [0x81, 0x01, 0x61], none⟩ true, .call 1 ⟨7, [0x81, 0x01, 0x62], none⟩ true,
    .copy 0 true, .fill 0, .notify 0, .visit 0, .copy 1 true, .resume true, .resume true, .fill 1,
    .resume true, .notify 1, .resume true, .visit 1, .resume true, .resume true, .resume true,
    .resume true, .afterWrite 7]

theorem interleavedSends_granted :
    memoryMachine.Guarded Granted (SendMemory.init 2 fun _ => true) interleavedSends := by
  refine ⟨fun _ ids parts _ t c h => (by cases h), fun s₁ h₁ => ⟨?_, fun s₂ _ => ?_⟩⟩
  · cases h₁
    intro _ ids parts hfound t c hc id hid
    by_cases ht : t = 0
    · subst ht
      cases hc
      cases hfound
      revert hid
      rw [List.mem_singleton]
      rintro rfl
      decide
    · have hidle : (none : Option SendCall) = some c := (Function.update_of_ne ht _ _).symm.trans hc
      cases hidle
  · refine Machine.Guarded.of_forall (fun a ha s => ?_) s₂
    simp only [List.mem_cons, List.not_mem_nil, or_false] at ha
    rcases ha with rfl | rfl | rfl | rfl | rfl | rfl | rfl | rfl | rfl | rfl | rfl | rfl | rfl | rfl |
      rfl | rfl | rfl <;> trivial

theorem atomicVisit_refines_interleaved :
    ∃ s, memoryMachine.exec (SendMemory.init 2 fun _ => true) interleavedSends = some s ∧
      s.wire 7 = [0x81, 0x01, 0x61, 0x81, 0x01, 0x62] ∧
      (∃ steps, sendMachine.Guarded Exclusive (SendSystem.init 2 fun _ => true) steps ∧
        sendMachine.exec (SendSystem.init 2 fun _ => true) steps = some s.toSendSystem) ∧
      ∀ ctx ∈ s.returned, (s.reached ++ s.pool.contents).count ctx = 1 := by
  obtain ⟨s, hrun, hidle, hwire⟩ : ∃ s,
      memoryMachine.exec (SendMemory.init 2 fun _ => true) interleavedSends = some s ∧
        s.point = .idle ∧ s.wire 7 = [0x81, 0x01, 0x61, 0x81, 0x01, 0x62] := ⟨_, rfl, rfl, rfl⟩
  exact ⟨s, hrun, hwire, atomicVisit_refines hrun interleavedSends_granted hidle⟩

end AnotherWs
