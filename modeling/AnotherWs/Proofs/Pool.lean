/-
Module: AnotherWs.Proofs.Pool
Purpose: The queue of the pool after any history, what an acquire of many handles returns, and which
windows its search looks at.
Trusted boundary: none
Main exports: acquireManyInto_eq, rotated_of_run, pool_of_run, findWindow_finds, windowFree_iff,
  acquireManyUvAsync_invariant, acquireManyUvAsync_finds
-/
import AnotherWs.Core.Pool
import AnotherWs.Proofs.Asyncs

namespace AnotherWs

/-! ### The vector of the caller -/

/-- Taking handles one by one takes them from the front and turns the queue. -/
theorem takeHandles_eq {num : Nat} (result : List Nat) {queue : List Nat}
    (enough : num ≤ queue.length) :
    takeHandles num result queue = (result ++ queue.take num, queue.rotate num) := by
  induction num generalizing result queue with
  | zero => simp [takeHandles]
  | succ num ih =>
      cases queue with
      | nil => cases enough
      | cons id rest =>
          have hle : num ≤ rest.length := by simpa using enough
          rw [takeHandles, ih _ (by simp; omega), List.rotate_cons_succ, List.take_succ_cons,
            List.take_append_of_le_length hle, List.append_assoc]
          rfl

/-- The vector holds the handles, stays as it was, or is cleared. -/
theorem acquireManyInto_eq (num : Nat) (result : List Nat) (pool : CAsyncs) :
    acquireManyInto num result pool =
      match acquireManyUvAsync num pool with
      | (some ids, pool') => (true, ids, pool')
      | (none, pool') =>
          (false, if pool.asyncQueue = [] ∨ num > pool.asyncQueue.length then result else [],
            pool') := by
  unfold acquireManyInto acquireManyUvAsync
  by_cases hempty : pool.asyncQueue = []
  · simp [hempty]
  · by_cases hmany : num > pool.asyncQueue.length
    · simp [hmany]
    · simp only [hempty, hmany, if_false, or_self]
      obtain ⟨⟨r, hr⟩, -⟩ := @findWindow_spec pool.asyncs num (pool.asyncQueue.length - 1)
        (pool.asyncQueue.length - 1 + 1) 0 pool.asyncQueue
      rcases hsearch : findWindow pool.asyncs num (pool.asyncQueue.length - 1)
        (pool.asyncQueue.length - 1 + 1) 0 pool.asyncQueue with ⟨_ | _, queue⟩
      · rfl
      · rw [hsearch] at hr
        have hlen : num ≤ queue.length := by
          rw [show queue = _ from hr, List.length_rotate]
          omega
        simp [takeHandles_eq [] hlen]

/-! ### Histories -/

theorem CAsyncs.store_rotated {pool pool' : CAsyncs} (rotated : pool.Rotated) {id : Nat}
    {async : UvAsync} (stored : pool.store id async = some pool') :
    pool'.size = pool.size ∧ pool'.Rotated := by
  unfold CAsyncs.store at stored
  split at stored
  · cases stored
    exact ⟨rfl, rotated⟩
  · cases stored

/-- One step. -/
theorem CAsyncs.step_rotated {pool pool' : CAsyncs} (rotated : pool.Rotated) {a : PoolAction}
    (step : pool.step a = some pool') : pool'.size = pool.size ∧ pool'.Rotated := by
  cases a with
  | acquireOne =>
      cases step
      have hspec := acquireOne_spec rotated
      exact ⟨hspec.size_eq, hspec.rotated⟩
  | acquireMany num result =>
      cases step
      have hpool : (acquireManyInto num result pool).2.2 = (acquireManyUvAsync num pool).2 := by
        rw [acquireManyInto_eq]
        rcases acquireManyUvAsync num pool with ⟨_ | ids, pool'⟩ <;> rfl
      have hspec := (acquireMany_spec num rotated).1
      rw [hpool]
      exact ⟨hspec.size_eq, hspec.rotated⟩
  | fill id ctx => exact store_rotated rotated step
  | flag id pending => exact store_rotated rotated step
  | drain id => exact store_rotated rotated step

/-- **The queue.** After any history it is a rotation of the handles in the order of initialisation. -/
theorem rotated_of_run {n : Nat} {actions : List PoolAction} {pool : CAsyncs}
    (run : poolMachine.exec (CAsyncs.init n) actions = some pool) :
    pool.size = n ∧ pool.Rotated := by
  refine Machines.Machine.exec_invariant_of_step (fun p => p.size = n ∧ p.Rotated) ?_
    ⟨rfl, 0, by simp [CAsyncs.init]⟩ run
  rintro p a p' ⟨rfl, hrotated⟩ hstep
  exact CAsyncs.step_rotated hrotated hstep

/-! ### The search

The head of a queue that is turned by `k` is `k % n`, so a window of free handles is looked at when
its first handle stands before the last `num` places of the queue. -/

/-- The handles `i .. i + num - 1` are all free. -/
def FreeFrom (pool : CAsyncs) (num i : Nat) : Prop :=
  ∀ j < num, (pool.asyncs (i + j)).data = none

/-- A window that is free and in order passes the inspection. -/
theorem windowFree_of_pairwise {asyncs : Nat → UvAsync} {num prevId : Nat} {queue : List Nat}
    (enough : num ≤ queue.length)
    (free : ∀ id ∈ queue.take num, (asyncs id).data = none ∧ prevId ≤ id)
    (ordered : (queue.take num).Pairwise (· ≤ ·)) : windowFree asyncs num prevId queue = true := by
  induction num generalizing prevId queue with
  | zero => rfl
  | succ num ih =>
      cases queue with
      | nil => cases enough
      | cons id rest =>
          rw [List.take_succ_cons] at free ordered
          obtain ⟨hfree, hle⟩ := free id List.mem_cons_self
          obtain ⟨hlater, hrest⟩ := List.pairwise_cons.mp ordered
          unfold windowFree
          rw [if_neg (by rw [not_or, not_not, Nat.not_lt]; exact ⟨hfree, hle⟩)]
          exact ih (by simpa using enough)
            (fun other hother => ⟨(free other (List.mem_cons_of_mem _ hother)).1, hlater other hother⟩)
            hrest

/-- The inspection of the first `num` handles of a turned queue. -/
theorem windowFree_iff {pool : CAsyncs} {num n k : Nat} (positive : 1 ≤ num) (fits : num ≤ n) :
    windowFree pool.asyncs num 0 ((List.range n).rotate k) = true ↔
      k % n + num ≤ n ∧ FreeFrom pool num (k % n) := by
  have hlt : k % n < n := Nat.mod_lt _ (by omega)
  constructor
  · intro h
    obtain ⟨-, hall, -⟩ := windowFree_spec h
    obtain ⟨a, hwindow, hle⟩ := window_of_windowFree h
    have hfirst : a = k % n := by
      have hget := congrArg (·[0]?) hwindow
      rw [range_rotate (by omega)] at hget
      obtain ⟨m, rfl⟩ : ∃ m, num = m + 1 := ⟨num - 1, by omega⟩
      obtain ⟨r, hr⟩ : ∃ r, n - k % n = r + 1 := ⟨n - k % n - 1, by omega⟩
      simpa [hr, List.range'_succ] using hget.symm
    subst hfirst
    refine ⟨hle, fun j hj => (hall _ ?_).1⟩
    rw [hwindow, List.mem_range'_1]
    omega
  · rintro ⟨hfits, hfree⟩
    have hwindow : ((List.range n).rotate k).take num = List.range' (k % n) num := by
      rw [range_rotate (by omega), List.take_append_of_le_length (by simp; omega),
        List.take_range'_of_length_ge (by omega)]
    refine windowFree_of_pairwise (by simpa using fits) ?_ ?_
    · intro id hid
      rw [hwindow, List.mem_range'_1] at hid
      obtain ⟨j, rfl⟩ := Nat.exists_eq_add_of_le hid.1
      exact ⟨hfree j (by omega), Nat.zero_le _⟩
    · rw [hwindow]
      exact (List.pairwise_lt_range' ..).imp Nat.le_of_lt

/-- The search succeeds at one of the places it gets to. -/
theorem findWindow_finds {asyncs : Nat → UvAsync} {num maxPos fuel beginPos : Nat} {queue : List Nat}
    (enough : maxPos < beginPos + fuel) :
    (findWindow asyncs num maxPos fuel beginPos queue).1 = true ↔
      ∃ p, beginPos + p + num ≤ maxPos ∧ windowFree asyncs num 0 (queue.rotate p) = true := by
  induction fuel generalizing beginPos queue with
  | zero =>
      refine ⟨fun h => (by cases h), fun ⟨p, hp, _⟩ => ?_⟩
      omega
  | succ fuel ih =>
      unfold findWindow
      split
      · rename_i hinside
        split
        · rename_i hfree
          exact ⟨fun _ => ⟨0, by omega, by rwa [List.rotate_zero]⟩, fun _ => rfl⟩
        · rename_i hbroken
          rw [ih (by omega)]
          constructor
          · rintro ⟨p, hp, hfree⟩
            rw [List.rotate_rotate] at hfree
            exact ⟨1 + p, by omega, hfree⟩
          · rintro ⟨p, hp, hfree⟩
            cases p with
            | zero =>
                rw [List.rotate_zero] at hfree
                exact absurd hfree hbroken
            | succ p =>
                refine ⟨p, by omega, ?_⟩
                rwa [List.rotate_rotate, Nat.add_comm 1 p]
      · rename_i houtside
        refine ⟨fun h => (by cases h), fun ⟨p, hp, _⟩ => ?_⟩
        omega

/-- What an acquire of many handles finds: a free window that starts before the last `num` places of the
queue. -/
theorem acquireManyUvAsync_isSome {num : Nat} {pool : CAsyncs} (rotated : pool.Rotated)
    (positive : 1 ≤ num) (fits : num ≤ pool.size) :
    (acquireManyUvAsync num pool).1.isSome ↔
      ∃ i ∈ pool.asyncQueue.take (pool.size - num), i + num ≤ pool.size ∧ FreeFrom pool num i := by
  obtain ⟨k, hqueue⟩ := rotated
  have hlen : pool.asyncQueue.length = pool.size := by
    rw [hqueue, List.length_rotate, List.length_range]
  have hne : pool.asyncQueue ≠ [] := List.ne_nil_of_length_pos (by omega)
  have hplace : ∀ p (hp : p < pool.asyncQueue.length),
      pool.asyncQueue[p] = (k + p) % pool.size := by
    intro p hp
    simp [hqueue, List.getElem_rotate, Nat.add_comm]
  have hfound : (acquireManyUvAsync num pool).1.isSome ↔
      (findWindow pool.asyncs num (pool.size - 1) (pool.size - 1 + 1) 0 pool.asyncQueue).1 = true := by
    unfold acquireManyUvAsync
    rw [if_neg hne, hlen, if_neg (by omega)]
    dsimp only
    split
    · rename_i hyes
      exact ⟨fun _ => hyes, fun _ => rfl⟩
    · rename_i hno
      exact ⟨fun h => (by cases h), fun h => absurd h hno⟩
  rw [hfound, findWindow_finds (by omega)]
  constructor
  · rintro ⟨p, hp, hfree⟩
    rw [hqueue, List.rotate_rotate, windowFree_iff positive fits] at hfree
    refine ⟨(k + p) % pool.size, ?_, hfree⟩
    exact List.mem_take_iff_getElem.mpr ⟨p, by omega, hplace p (by omega)⟩
  · rintro ⟨i, hi, hfree⟩
    obtain ⟨p, hp, rfl⟩ := List.mem_take_iff_getElem.mp hi
    rw [hplace p (by omega)] at hfree
    refine ⟨p, by omega, ?_⟩
    rw [hqueue, List.rotate_rotate, windowFree_iff positive fits]
    exact hfree

/-! ### The pool of the send calls -/

/-- What a request does to the pool is an acquire or nothing. -/
theorem acquire_run (req : Request) (pool : CAsyncs) :
    ∃ actions, poolMachine.exec pool actions = some (req.acquire pool).2 := by
  unfold Request.acquire
  cases req.splitDataLenFunction with
  | none =>
      refine ⟨[.acquireOne], ?_⟩
      rcases hone : acquireOneUvAsync pool with ⟨_ | id, pool'⟩ <;>
        simp [Machines.Machine.exec, poolMachine, CAsyncs.step, hone]
  | some split =>
      dsimp only
      split
      · exact ⟨[], rfl⟩
      · refine ⟨[.acquireMany (split req.data.length).length []], ?_⟩
        simp only [Machines.Machine.exec, poolMachine, CAsyncs.step, acquireManyInto_eq]
        rcases acquireManyUvAsync (split req.data.length).length pool with ⟨_ | ids, pool'⟩ <;> rfl

theorem CAsyncs.store_run {pool : CAsyncs} {id : Nat} (inside : id < pool.size) {a : PoolAction}
    {async : UvAsync} (step : pool.step a = pool.store id async) :
    poolMachine.exec pool [a] =
      some { pool with asyncs := Function.update pool.asyncs id async } := by
  have hstore : pool.step a = some { pool with asyncs := Function.update pool.asyncs id async } := by
    rw [step, CAsyncs.store, if_pos inside]
  exact Machines.Machine.exec_cons.mpr ⟨_, hstore, rfl⟩

/-- Every step of the threads and of the loop thread is a history of the pool. -/
theorem pool_of_step {s s' : SendSystem} (wf : WellFormed s) {a : Action}
    (step : s.step a = some s') :
    ∃ actions, poolMachine.exec s.pool actions = some s'.pool := by
  have inside : ∀ {t c}, s.senders t = some c → c.async c.i < s.pool.size := fun h =>
    have hvalid := wf.valid _ _ h
    hvalid.lt_size (SendCall.async_mem hvalid.inside)
  have hcase := SendSystem.step_cases wf.rotated step
  cases a with
  | call thread req =>
      unfold SendSystem.step at step
      cases hidle : s.senders thread with
      | some c => simp [hidle] at step
      | none =>
          simp only [hidle, Option.some.injEq] at step
          subst step
          unfold SendSystem.call
          split
          · obtain ⟨actions, hrun⟩ := acquire_run req s.pool
            refine ⟨actions, hrun.trans ?_⟩
            rcases req.acquire s.pool with ⟨_ | ⟨_ | ⟨id, rest⟩, parts⟩, pool'⟩ <;> rfl
          · exact ⟨[], rfl⟩
  | fill thread =>
      cases hcase with
      | filled sending _ _ => exact ⟨_, CAsyncs.store_run (inside sending) (a := .fill _ _) rfl⟩
      | emptyPart _ _ _ => exact ⟨[], rfl⟩
  | notify thread =>
      cases hcase with
      | notified sending _ _ => exact ⟨_, CAsyncs.store_run (inside sending) (a := .flag _ true) rfl⟩
      | returned sending _ _ => exact ⟨_, CAsyncs.store_run (inside sending) (a := .flag _ true) rfl⟩
  | refuse thread =>
      cases hcase
      exact ⟨[], rfl⟩
  | visit id =>
      cases hcase with
      | skipped inside _ => exact ⟨_, CAsyncs.store_run inside (a := .flag id false) rfl⟩
      | sent inside _ _ =>
          have hdrain := CAsyncs.store_run inside (a := .drain id) rfl
          refine ⟨_, (Machines.Machine.exec_append hdrain
            (CAsyncs.store_run (by exact inside) (a := .flag id false) rfl)).trans ?_⟩
          simp [SendSystem.setAsync]
  | close peer =>
      cases hcase
      exact ⟨[], rfl⟩

/-- Every run of the send calls is a history of the pool. -/
theorem pool_of_run {n : Nat} {connected : Nat → Bool} {actions : List Action} {s : SendSystem}
    (run : sendMachine.exec (SendSystem.init n connected) actions = some s) :
    ∃ actions, poolMachine.exec (CAsyncs.init n) actions = some s.pool := by
  refine (Machines.Machine.exec_invariant_of_step (M := sendMachine)
    (fun s => WellFormed s ∧ ∃ actions, poolMachine.exec (CAsyncs.init n) actions = some s.pool) ?_
    ⟨wellFormed_init n connected, [], rfl⟩ run).2
  rintro s a s' ⟨hwf, before, hbefore⟩ hstep
  obtain ⟨after, hafter⟩ := pool_of_step hwf hstep
  exact ⟨wellFormed_step hwf hstep, before ++ after, Machines.Machine.exec_append hbefore hafter⟩

/-! ### Every history -/

section Histories

variable {n : Nat} {actions : List PoolAction} {pool : CAsyncs}

/-- **The pool.** After any history the queue is a turn of all the handles. An acquire that succeeds
puts `num` free handles of consecutive ids into the vector; one that fails clears the vector or
leaves it, and the queue still holds every handle. -/
theorem acquireManyUvAsync_invariant
    (run : poolMachine.exec (CAsyncs.init n) actions = some pool) :
    (∃ k, pool.asyncQueue = (List.range n).rotate k) ∧
    ∀ (num : Nat) (result : List Nat), 1 ≤ num →
      ((acquireManyInto num result pool).1 = true →
        (acquireManyInto num result pool).2.1.length = num ∧
        (acquireManyInto num result pool).2.1.Nodup ∧
        (∃ a, (acquireManyInto num result pool).2.1 = List.range' a num ∧ a + num ≤ n) ∧
        ∀ id ∈ (acquireManyInto num result pool).2.1, (pool.asyncs id).data = none) ∧
      ((acquireManyInto num result pool).1 = false →
        ((acquireManyInto num result pool).2.1 = [] ∨
          (acquireManyInto num result pool).2.1 = result) ∧
        (acquireManyInto num result pool).2.2.asyncQueue.Perm (List.range n)) := by
  obtain ⟨rfl, hrotated⟩ := rotated_of_run run
  refine ⟨hrotated, fun num result _ => ?_⟩
  obtain ⟨hspec, hlength⟩ := acquireMany_spec num hrotated
  rw [acquireManyInto_eq]
  rcases hcall : acquireManyUvAsync num pool with ⟨_ | ids, pool'⟩
  · rw [hcall] at hspec
    refine ⟨fun h => (by cases h), fun _ => ⟨?_, ?_⟩⟩
    · dsimp only
      split
      · exact Or.inr rfl
      · exact Or.inl rfl
    · obtain ⟨k, hqueue⟩ := hspec.rotated
      have hsize : pool'.size = pool.size := hspec.size_eq
      change pool'.asyncQueue = (List.range pool'.size).rotate k at hqueue
      change pool'.asyncQueue.Perm (List.range pool.size)
      rw [hqueue, hsize]
      exact List.rotate_perm ..
  · rw [hcall] at hspec hlength
    obtain ⟨⟨a, hids, hle⟩, hfree⟩ := hspec.window ids rfl
    have hnum : ids.length = num := hlength ids rfl
    rw [hnum] at hids hle
    refine ⟨fun _ => ⟨hnum, ?_, ⟨a, hids, hle⟩, hfree⟩, fun h => (by cases h)⟩
    show ids.Nodup
    rw [hids]
    exact List.nodup_range'

/-- Two handles are acquired, filled and run; in between a search for three of them fails. -/
def sampleHistory : List PoolAction :=
  [.acquireMany 2 [], .fill 0 ⟨7, [0x61], 1, 0, 0⟩, .flag 0 true, .fill 1 ⟨7, [0x62], 1, 0, 1⟩,
    .flag 1 true, .acquireMany 3 [9], .flag 0 false, .drain 0, .flag 1 false, .drain 1]

theorem acquireManyUvAsync_invariant_history :
    ∃ pool, poolMachine.exec (CAsyncs.init 4) sampleHistory = some pool ∧
      pool.asyncQueue = [3, 0, 1, 2] ∧ (acquireManyInto 2 [] pool).2.1 = [0, 1] ∧
      (∃ k, pool.asyncQueue = (List.range 4).rotate k) ∧
      ∀ (num : Nat) (result : List Nat), 1 ≤ num →
        ((acquireManyInto num result pool).1 = true →
          (acquireManyInto num result pool).2.1.length = num ∧
          (acquireManyInto num result pool).2.1.Nodup ∧
          (∃ a, (acquireManyInto num result pool).2.1 = List.range' a num ∧ a + num ≤ 4) ∧
          ∀ id ∈ (acquireManyInto num result pool).2.1, (pool.asyncs id).data = none) ∧
        ((acquireManyInto num result pool).1 = false →
          ((acquireManyInto num result pool).2.1 = [] ∨
            (acquireManyInto num result pool).2.1 = result) ∧
          (acquireManyInto num result pool).2.2.asyncQueue.Perm (List.range 4)) :=
  ⟨_, rfl, by decide, by decide, @acquireManyUvAsync_invariant 4 sampleHistory _ rfl⟩

/-- The whole pool is never handed out. -/
theorem acquireManyInto_all (run : poolMachine.exec (CAsyncs.init n) actions = some pool)
    (positive : 1 ≤ n) (result : List Nat) : (acquireManyInto n result pool).1 = false := by
  obtain ⟨rfl, hrotated⟩ := rotated_of_run run
  have hnone := (acquireManyUvAsync_isSome hrotated positive le_rfl).not.mpr (by simp)
  rw [acquireManyInto_eq]
  rcases hcall : acquireManyUvAsync pool.size pool with ⟨_ | ids, pool'⟩
  · rfl
  · rw [hcall] at hnone
    exact absurd rfl hnone

/-- An acquire of many handles succeeds exactly when there is a free window, as long as a free
window, if there is any, starts before the last `num` places of the queue. -/
theorem acquireManyUvAsync_finds (run : poolMachine.exec (CAsyncs.init n) actions = some pool)
    {num : Nat} (positive : 1 ≤ num) (fits : num ≤ n) (result : List Nat) :
    ((acquireManyInto num result pool).1 = true ↔ ∃ i ≤ n - num, FreeFrom pool num i) ↔
      ((∃ i ≤ n - num, FreeFrom pool num i) →
        ∃ i ∈ pool.asyncQueue.take (n - num), i ≤ n - num ∧ FreeFrom pool num i) := by
  obtain ⟨rfl, hrotated⟩ := rotated_of_run run
  have hfound : (acquireManyInto num result pool).1 = true ↔
      ∃ i ∈ pool.asyncQueue.take (pool.size - num), i ≤ pool.size - num ∧ FreeFrom pool num i := by
    have hfits : ∀ i, i ≤ pool.size - num ↔ i + num ≤ pool.size := fun i => by omega
    simp only [hfits]
    rw [← acquireManyUvAsync_isSome hrotated positive fits, acquireManyInto_eq]
    rcases acquireManyUvAsync num pool with ⟨_ | ids, pool'⟩ <;> simp
  rw [hfound]
  constructor
  · intro h hwindow
    exact h.mpr hwindow
  · intro h
    exact ⟨fun ⟨i, _, hi⟩ => ⟨i, hi⟩, h⟩

end Histories

theorem acquireManyUvAsync_finds_three :
    let pool := (acquireOneUvAsync (CAsyncs.init 3)).2
    ((acquireManyInto 2 [] pool).1 = true ↔ ∃ i ≤ 3 - 2, FreeFrom pool 2 i) ↔
      ((∃ i ≤ 3 - 2, FreeFrom pool 2 i) →
        ∃ i ∈ pool.asyncQueue.take (3 - 2), i ≤ 3 - 2 ∧ FreeFrom pool 2 i) :=
  @acquireManyUvAsync_finds 3 [.acquireOne] _ rfl 2 (by decide) (by decide) []

/-- A pool of one free handle: a call that asks for one handle does not get it. -/
theorem acquireManyUvAsync_misses :
    poolMachine.exec (CAsyncs.init 1) [] = some (CAsyncs.init 1) ∧
    FreeFrom (CAsyncs.init 1) 1 0 ∧
    ¬ ((acquireManyInto 1 [] (CAsyncs.init 1)).1 = true ↔
      ∃ i ≤ 1 - 1, FreeFrom (CAsyncs.init 1) 1 i) := by
  have hfree : FreeFrom (CAsyncs.init 1) 1 0 := fun _ _ => rfl
  have hcall : (acquireManyInto 1 [] (CAsyncs.init 1)).1 = false := by decide
  refine ⟨rfl, hfree, fun h => ?_⟩
  rw [hcall] at h
  cases h.mpr ⟨0, le_rfl, hfree⟩

end AnotherWs
