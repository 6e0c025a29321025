/-
Module: AnotherWs.Proofs.Tasks
Purpose: What becomes of a task that is posted: its functions are called once each and in this
  order, its request is freed once, and when nothing moves any more all of this has happened, unless
  the loop has ended.
Trusted boundary: none
Main exports: TaskManager.Conserved, TaskManager.Scheduled, tasks_once, tasks_complete
-/
import AnotherWs.Core.Tasks
import AnotherWs.Lib.Tally
import Mathlib.Data.List.Perm.Basic

namespace AnotherWs

open Heaps Machines Tallies

namespace Worker

/-- The request that a thread has in its hands. -/
def held : Worker → Option UvWork
  | .awake | .asleep | .signalled | .sending => none
  | .taken req | .called req => some req

/-- The request whose `work` has returned. -/
def ran : Worker → Option UvWork
  | .awake | .asleep | .signalled | .taken _ | .sending => none
  | .called req => some req

/-- The thread is counted in `idle_threads`. -/
def idle : Worker → Nat
  | .asleep | .signalled => 1
  | .awake | .taken _ | .called _ | .sending => 0

end Worker

/-- A mark for the places where a request is. -/
def isAt (place : Worker → Option UvWork) (req : UvWork) (w : Worker) : Nat :=
  if place w = some req then 1 else 0

section Marks

variable {place : Worker → Option UvWork} {w : Worker} {req : UvWork}

theorem isAt_of_none (h : place w = none) (other : UvWork) : isAt place other w = 0 := by simp [isAt, h]

theorem isAt_of_some (h : place w = some req) (other : UvWork) :
    isAt place other w = [req].count other := by
  simp [isAt, h, List.count_singleton]

end Marks

namespace TaskManager

variable (s : TaskManager)

/-- How many threads of the pool have the request. -/
def inHands (place : Worker → Option UvWork) (req : UvWork) : Nat :=
  tally (isAt place req) s.nthreads s.workers

theorem inHands_setWorker (place : Worker → Option UvWork) (req : UvWork) {i : Nat}
    (inside : i < s.nthreads)
    (w : Worker) : (s.setWorker i w).inHands place req + isAt place req (s.workers i) =
      s.inHands place req + isAt place req w := tally_update inside w

variable {s} in
theorem take_of_nil (empty : s.wq = []) {i : Nat} :
    s.take i = { s with idleThreads := s.idleThreads + 1 }.setWorker i .asleep := by simp [take, empty]

variable {s} in
theorem take_of_cons {req : UvWork} {rest : List UvWork} (head : s.wq = req :: rest) {i : Nat} :
    s.take i = { s with wq := rest, begun := s.begun ++ [req] }.setWorker i (.taken req) := by
      simp [take, head]

/-! ### What a step does -/

variable {s} {s' : TaskManager}

/-- The statements of a thread of the pool. -/
inductive WorkCase (s : TaskManager) (i : Nat) : TaskManager → Prop
  | awake (at_ : s.workers i = .awake) : WorkCase s i (s.take i)
  | signalled (at_ : s.workers i = .signalled) :
      WorkCase s i ({ s with idleThreads := s.idleThreads - 1 }.take i)
  | taken {req : UvWork} (at_ : s.workers i = .taken req) : WorkCase s i (s.taskCallback i req)
  | called {req : UvWork} (at_ : s.workers i = .called req) : WorkCase s i (s.giveBack i req)
  | sending (at_ : s.workers i = .sending) : WorkCase s i (s.asyncWrite.setWorker i .awake)

theorem work_cases {i : Nat} (step : s.work i = some s') : WorkCase s i s' := by
  unfold work at step
  split at step <;> cases step
  · exact .awake ‹_›
  · exact .signalled ‹_›
  · exact .taken ‹_›
  · exact .called ‹_›
  · exact .sending ‹_›

/-- The statements of the loop thread. -/
inductive LoopCase (s : TaskManager) : TaskManager → Prop
  | refused (at_ : s.point = .started) (flag : s.bRunnig = true) : LoopCase s { s with point := .ended }
  | entered (at_ : s.point = .started) (flag : s.bRunnig = false) :
      LoopCase s { s with bRunnig := true, point := .head }
  | stopped (at_ : s.point = .head) (flag : s.stopFlag = true) :
      LoopCase s { s with stopFlag := false, point := .ended }
  | turned (at_ : s.point = .head) (flag : s.stopFlag = false) : LoopCase s { s with point := .poll }
  | woken (at_ : s.point = .poll) (counter : 0 < s.eventfd) :
      LoopCase s { s with eventfd := 0, point := .wqAsync }
  | pending (at_ : s.point = .wqAsync) (flag : s.wqAsync = true) :
      LoopCase s { s with wqAsync := false, point := .lock }
  | clear (at_ : s.point = .wqAsync) (flag : s.wqAsync = false) :
      LoopCase s { s with point := .sendAsync }
  | moved (at_ : s.point = .lock) :
      LoopCase s { s with batch := s.loopWq, loopWq := [], point := .workDone }
  | done (at_ : s.point = .workDone) (empty : s.batch = []) : LoopCase s { s with point := .sendAsync }
  | unregister {req : UvWork} {rest : List UvWork} (at_ : s.point = .workDone)
      (batch : s.batch = req :: rest) :
      LoopCase s (s.unregister req)
  | unregisterBack {req : UvWork} {rest : List UvWork} (at_ : s.point = .unlinking)
      (batch : s.batch = req :: rest) :
      LoopCase s (s.unregisterBack req)
  | calledBack {req : UvWork} {rest : List UvWork} (at_ : s.point = .unlinked)
      (batch : s.batch = req :: rest) :
      LoopCase s ({ s with batch := rest, point := .workDone }.afterTaskCallback req)
  | visited (at_ : s.point = .sendAsync) :
      LoopCase s { s with
        sendAsync := false, stopFlag := s.stopFlag || s.sendAsync && s.sendData, point := .head }

theorem loop_cases (step : s.loop = some s') : LoopCase s s' := by
  unfold loop at step
  split at step
  · cases step
  · cases step
  · split at step <;> cases step
    · exact .refused ‹_› ‹_›
    · exact .entered ‹_› (by simpa using ‹¬ s.bRunnig = true›)
  · split at step <;> cases step
    · exact .stopped ‹_› ‹_›
    · exact .turned ‹_› (by simpa using ‹¬ s.stopFlag = true›)
  · split at step <;> cases step
    exact .woken ‹_› ‹_›
  · split at step <;> cases step
    · exact .pending ‹_› ‹_›
    · exact .clear ‹_› (by simpa using ‹¬ s.wqAsync = true›)
  · cases step
    exact .moved ‹_›
  · split at step <;> cases step
    · exact .done ‹_› ‹_›
    · exact .unregister ‹_› ‹_›
  · split at step <;> cases step
    exact .unregisterBack ‹_› ‹_›
  · split at step <;> cases step
    exact .calledBack ‹_› ‹_›
  · cases step
    exact .visited ‹_›

/-- The steps. -/
inductive StepCase (s : TaskManager) : TaskAction → TaskManager → Prop
  | startup (at_ : s.point = .created) : StepCase s .startup { s with point := .started }
  | postTask {thread : Nat} (free : s.posts thread = none) (task : Option CTask) (memory : Bool) :
      StepCase s (.postTask thread task memory) (s.postTask thread task memory)
  | register {thread : Nat} {post : Post} {s' : TaskManager} (mine : s.posts thread = some post)
      (next : s.register thread post = some s') : StepCase s (.register thread) s'
  | submit {thread : Nat} {post : Post} {wake : Option Nat} (mine : s.posts thread = some post)
      (registered : post.point = .registered) (signals : s.Signals wake) :
      StepCase s (.submit thread wake) (s.submit thread post wake)
  | worker {i : Nat} {s' : TaskManager} (inside : i < s.nthreads) (next : WorkCase s i s') :
      StepCase s (.worker i) s'
  | wakeup {i : Nat} (inside : i < s.nthreads) (asleep : s.workers i = .asleep) :
      StepCase s (.wakeup i) (s.setWorker i .signalled)
  | loop {s' : TaskManager} (next : LoopCase s s') : StepCase s .loop s'
  | shutdown : StepCase s .shutdown s.shutdown
  | write (owed : 0 < s.owed) : StepCase s .write { s.asyncWrite with owed := s.owed - 1 }

/-- **What a step can do.** -/
theorem step_cases {a : TaskAction} (step : s.step a = some s') :
    s.aborted = false ∧ StepCase s a s' := by
  unfold TaskManager.step at step
  split at step
  · cases step
  refine ⟨by simpa using ‹¬ s.aborted = true›, ?_⟩
  cases a with
  | startup =>
      simp only [act] at step
      split at step <;> cases step
      exact .startup ‹_›
  | postTask thread task memory =>
      simp only [act] at step
      split at step <;> cases step
      exact .postTask ‹_› task memory
  | register thread =>
      obtain ⟨post, hmine, hnext⟩ := Option.bind_eq_some_iff.mp step
      exact .register hmine hnext
  | submit thread wake =>
      simp only [act] at step
      split at step
      · split at step <;> cases step
        rename_i hready
        exact .submit ‹_› hready.1 hready.2
      · cases step
  | worker i =>
      simp only [act] at step
      split at step
      · exact .worker ‹_› (work_cases step)
      · cases step
  | wakeup i =>
      simp only [act] at step
      split at step <;> cases step
      rename_i hready
      exact .wakeup hready.1 hready.2
  | loop => exact .loop (loop_cases step)
  | shutdown =>
      cases step
      exact .shutdown
  | write =>
      simp only [act] at step
      split at step <;> cases step
      exact .write ‹_›

variable (s) in
/-- The thread is in `uv_queue_work` with the request. -/
def Posting (thread : Nat) (req : UvWork) : Prop := ∃ post, s.posts thread = some post ∧ post.req = req

/-! ### Where the requests are -/

/-- A request is posted by one thread; once it is queued it is in the queue, in the hands of one
thread, on its way to the loop thread, or finished. It is live until then. -/
structure Conserved (s : TaskManager) : Prop where
  fresh : ∀ req ∈ s.posted, req.request < s.requests
  distinct : (s.posted.map UvWork.request).Nodup
  posting : ∀ {t req}, s.Posting t req → req.request < s.requests ∧ ∀ other ∈ s.posted,
    other.request ≠ req.request
  alone : ∀ {t t' req req'}, s.Posting t req → s.Posting t' req' → req.request = req'.request → t = t'
  queued : s.posted = s.begun ++ s.wq
  held : ∀ req, s.begun.count req =
    s.finished.count req + s.batch.count req + s.loopWq.count req + s.inHands Worker.held req
  ran : ∀ req, s.called.count req =
    s.finished.count req + s.batch.count req + s.loopWq.count req + s.inHands Worker.ran req
  calls : s.calls.Perm (s.called.flatMap UvWork.callbackCalls ++ s.finished.flatMap UvWork.afterCalls)
  sound : s.heap.misused = false
  live : ∀ r, s.heap.live r = true ↔
    (∃ req ∈ s.posted, req.request = r ∧ req ∉ s.finished) ∨ ∃ t req, s.Posting t req ∧ req.request = r

namespace Conserved

variable {s s' : TaskManager}

theorem init (size : Option Nat) (bRunnig : Bool) (word : Nat) :
    (TaskManager.init size bRunnig word).Conserved where
  fresh := fun req h => by cases h
  distinct := List.nodup_nil
  posting := fun h => by
    obtain ⟨post, hpost, -⟩ := h
    cases hpost
  alone := fun h => by
    obtain ⟨post, hpost, -⟩ := h
    cases hpost
  queued := rfl
  held := fun req => by simp [TaskManager.init, inHands, tally, isAt, Worker.held]
  ran := fun req => by simp [TaskManager.init, inHands, tally, isAt, Worker.ran]
  calls := List.Perm.refl []
  sound := rfl
  live := fun r => by
    constructor
    · intro h
      cases h
    · rintro (⟨req, hreq, -⟩ | ⟨t, req, ⟨post, hpost, -⟩, -⟩)
      · cases hreq
      · cases hpost

theorem nodup (conserved : s.Conserved) : s.posted.Nodup := List.Nodup.of_map _ conserved.distinct

/-- Requests have different numbers. -/
theorem request_inj (conserved : s.Conserved) {req req' : UvWork} (mem : req ∈ s.posted)
    (mem' : req' ∈ s.posted) (same : req.request = req'.request) : req = req' :=
  List.inj_on_of_nodup_map conserved.distinct mem mem' same

/-- What is live has been allocated. -/
theorem live_lt (conserved : s.Conserved) {r : Nat} (live : s.heap.live r = true) : r < s.requests := by
  rcases (conserved.live r).mp live with ⟨req, hreq, rfl, -⟩ | ⟨t, req, hpost, rfl⟩
  · exact conserved.fresh req hreq
  · exact (conserved.posting hpost).1

theorem begun_count_le (conserved : s.Conserved) (req : UvWork) : s.begun.count req ≤ 1 := by
  have hnodup := conserved.nodup
  rw [conserved.queued] at hnodup
  exact List.nodup_iff_count_le_one.mp (List.nodup_append.mp hnodup).1 req

theorem mem_posted_of_begun (conserved : s.Conserved) {req : UvWork} (pos : 0 < s.begun.count req) :
    req ∈ s.posted := by
  rw [conserved.queued]
  exact List.mem_append_left _ (List.count_pos_iff.mp pos)

/-- A request that has begun and is somewhere else is not finished, and live. -/
theorem live_of_elsewhere (conserved : s.Conserved) {req : UvWork}
    (elsewhere : 0 < s.batch.count req + s.loopWq.count req + s.inHands Worker.held req) :
    req ∈ s.posted ∧ req ∉ s.finished ∧ s.heap.live req.request = true := by
  have hheld := conserved.held req
  have hle := conserved.begun_count_le req
  have hmem : req ∈ s.posted := conserved.mem_posted_of_begun (by omega)
  have hnot : req ∉ s.finished := fun h => by
    have hpos := List.count_pos_iff.mpr h
    omega
  exact ⟨hmem, hnot, (conserved.live _).mpr (Or.inl ⟨req, hmem, rfl, hnot⟩)⟩

/-- One thread of the pool moves, and keeps what it has in its hands. -/
theorem setWorker (conserved : s.Conserved) {i : Nat} {w : Worker} (inside : i < s.nthreads)
    (held : w.held = (s.workers i).held) (ran : w.ran = (s.workers i).ran) :
    (s.setWorker i w).Conserved where
  fresh := conserved.fresh
  distinct := conserved.distinct
  posting := conserved.posting
  alone := conserved.alone
  queued := conserved.queued
  held := fun req => by
    have hsame : (s.setWorker i w).inHands Worker.held req = s.inHands Worker.held req :=
      tally_same inside (by simp only [isAt, held])
    rw [hsame]
    exact conserved.held req
  ran := fun req => by
    have hsame : (s.setWorker i w).inHands Worker.ran req = s.inHands Worker.ran req :=
      tally_same inside (by simp only [isAt, ran])
    rw [hsame]
    exact conserved.ran req
  calls := conserved.calls
  sound := conserved.sound
  live := conserved.live

theorem finished_subset (conserved : s.Conserved) {req : UvWork} (mem : req ∈ s.finished) :
    req ∈ s.posted := by
  have hheld := conserved.held req
  have hpos := List.count_pos_iff.mpr mem
  exact conserved.mem_posted_of_begun (by omega)

/-- Live requests may be read and written. -/
theorem use (conserved : s.Conserved) {r : Nat} (live : s.heap.live r = true) :
    Conserved { s with heap := s.heap.use r } :=
  { conserved with
    sound := by
      show (s.heap.misused || !s.heap.live r) = false
      rw [conserved.sound, live]
      rfl }

theorem touch (conserved : s.Conserved) (node : Option Nat)
    (live : ∀ r, node = some r → s.heap.live r = true) :
    Conserved { s with heap := AnotherWs.touch s.heap node } := by
  cases node with
  | none => exact { conserved with }
  | some r => exact conserved.use (live r rfl)

theorem setPost_posting (thread : Nat) (post : Option Post) (t : Nat) (req : UvWork) :
    (s.setPost thread post).Posting t req ↔
      if t = thread then post.map Post.req = some req else s.Posting t req := by
  unfold Posting
  show (∃ p, Function.update s.posts thread post t = some p ∧ p.req = req) ↔ _
  split
  · rename_i ht
    subst ht
    rw [Function.update_self]
    exact Option.map_eq_some_iff.symm
  · rename_i ht
    rw [Function.update_of_ne ht]

/-- A posting thread goes on with its request. -/
theorem setPost (conserved : s.Conserved) {thread : Nat} {req : UvWork} (posting : s.Posting thread req)
    (point : PostPoint) : (s.setPost thread (some ⟨req, point⟩)).Conserved := by
  have hsame : ∀ t other, (s.setPost thread (some ⟨req, point⟩)).Posting t other ↔
      s.Posting t other := by
    intro t other
    rw [setPost_posting]
    split
    · rename_i ht
      subst ht
      obtain ⟨post, hpost, rfl⟩ := posting
      simp [Posting, hpost]
    · rfl
  exact { conserved with
    posting := fun h => conserved.posting ((hsame _ _).mp h)
    alone := fun h h' => conserved.alone ((hsame _ _).mp h) ((hsame _ _).mp h')
    live := fun r => by
      simp only [hsame]
      exact conserved.live r }

/-- A new request. -/
theorem postTask (conserved : s.Conserved) {thread : Nat} (free : s.posts thread = none)
    (task : Option CTask) (memory : Bool) : (s.postTask thread task memory).Conserved := by
  cases memory with
  | false => exact conserved
  | true =>
      have hsplit : ∀ {t req}, (s.postTask thread task true).Posting t req →
          s.Posting t req ∧ t ≠ thread ∨ t = thread ∧ req = ⟨s.requests, task⟩ := by
        intro t req hpost
        rcases (setPost_posting thread (some ⟨⟨s.requests, task⟩, .prepared⟩) t req).mp hpost with h
        split at h
        · exact Or.inr ⟨‹_›, (Option.some.inj h).symm⟩
        · exact Or.inl ⟨h, ‹_›⟩
      have hother : ∀ {t req}, s.Posting t req → t ≠ thread := by
        rintro t req ⟨post, hpost, -⟩ rfl
        rw [free] at hpost
        cases hpost
      have hdead : s.heap.live s.requests = false := by
        rw [← Bool.not_eq_true]
        exact fun h => absurd (conserved.live_lt h) (Nat.lt_irrefl _)
      refine ⟨fun req h => Nat.lt_succ_of_lt (conserved.fresh req h), conserved.distinct, fun h => ?_,
        fun h h' hsame => ?_, conserved.queued, conserved.held, conserved.ran, conserved.calls, ?_,
          fun r => ?_⟩
      · rcases hsplit h with ⟨hpost, -⟩ | ⟨-, rfl⟩
        · obtain ⟨hlt, hne⟩ := conserved.posting hpost
          exact ⟨Nat.lt_succ_of_lt hlt, hne⟩
        · exact ⟨Nat.lt_succ_self _, fun other hother => Nat.ne_of_lt (conserved.fresh other hother)⟩
      · rcases hsplit h with ⟨hpost, -⟩ | ⟨rfl, rfl⟩ <;> rcases hsplit h' with ⟨hpost', -⟩ | ⟨rfl, rfl⟩
        · exact conserved.alone hpost hpost' hsame
        · exact absurd hsame (Nat.ne_of_lt (conserved.posting hpost).1)
        · exact absurd hsame.symm (Nat.ne_of_lt (conserved.posting hpost').1)
        · rfl
      · show (s.heap.alloc s.requests).misused = false
        simp [Heap.alloc, conserved.sound, hdead]
      · show (s.heap.alloc s.requests).live r = true ↔ _
        by_cases hr : r = s.requests
        · subst hr
          rw [Heap.live_alloc_self, eq_self, true_iff]
          refine Or.inr ⟨thread, ⟨s.requests, task⟩, (setPost_posting _ _ _ _).mpr ?_, rfl⟩
          rw [if_pos rfl]
          rfl
        · rw [Heap.live_alloc_of_ne _ hr, conserved.live]
          refine or_congr_right ⟨?_, ?_⟩
          · rintro ⟨t, req, hpost, hreq⟩
            refine ⟨t, req, (setPost_posting _ _ _ _).mpr ?_, hreq⟩
            rw [if_neg (hother hpost)]
            exact hpost
          · rintro ⟨t, req, hpost, hreq⟩
            rcases hsplit hpost with ⟨hpost, -⟩ | ⟨-, rfl⟩
            · exact ⟨t, req, hpost, hreq⟩
            · exact absurd hreq.symm hr

/-- The request of a posting thread goes to the queue. -/
theorem queue (conserved : s.Conserved) {thread : Nat} {req : UvWork} (posting : s.Posting thread req) :
    ({ s with wq := s.wq ++ [req], posted := s.posted ++ [req] }.setPost thread none).Conserved := by
  obtain ⟨hlt, hne⟩ := conserved.posting posting
  have hsplit : ∀ {t other}, ({ s with wq := s.wq ++ [req], posted := s.posted ++ [req] }.setPost thread
      none).Posting t other ↔ s.Posting t other ∧ t ≠ thread := by
    intro t other
    rw [setPost_posting]
    split
    · simp [*]
    · exact ⟨fun h => ⟨h, ‹_›⟩, And.left⟩
  have hnew : req ∉ s.finished := by
    intro h
    have hheld := conserved.held req
    have hpos := List.count_pos_iff.mpr h
    exact hne req (conserved.mem_posted_of_begun (by omega)) rfl
  refine ⟨fun other h => ?_, ?_, fun h => ?_, fun h h' => conserved.alone (hsplit.mp h).1
    (hsplit.mp h').1, ?_,
    conserved.held, conserved.ran, conserved.calls, conserved.sound, fun r => ?_⟩
  · rcases List.mem_append.mp h with h | h
    · exact conserved.fresh other h
    · rw [List.mem_singleton.mp h]
      exact hlt
  · show ((s.posted ++ [req]).map UvWork.request).Nodup
    rw [List.map_append, List.nodup_append]
    refine ⟨conserved.distinct, List.nodup_singleton _, ?_⟩
    simp only [List.mem_map, List.map_cons, List.map_nil, List.mem_singleton]
    rintro a ⟨other, hother, rfl⟩ b rfl
    exact hne other hother
  · obtain ⟨hpost, hthread⟩ := hsplit.mp h
    obtain ⟨hlt', hne'⟩ := conserved.posting hpost
    refine ⟨hlt', fun other hother => ?_⟩
    rcases List.mem_append.mp hother with hother | hother
    · exact hne' other hother
    · rw [List.mem_singleton.mp hother]
      exact fun hsame => hthread (conserved.alone hpost posting hsame.symm)
  · show s.posted ++ [req] = s.begun ++ (s.wq ++ [req])
    rw [conserved.queued, List.append_assoc]
  · show s.heap.live r = true ↔ (∃ other ∈ s.posted ++ [req], other.request = r ∧
      other ∉ s.finished) ∨ _
    rw [conserved.live]
    constructor
    · rintro (⟨other, hother, hsame, hnot⟩ | ⟨t, other, hpost, hsame⟩)
      · exact Or.inl ⟨other, List.mem_append_left _ hother, hsame, hnot⟩
      · by_cases ht : t = thread
        · subst ht
          obtain ⟨post, hpost, rfl⟩ := hpost
          obtain ⟨post', hpost', rfl⟩ := posting
          rw [hpost, Option.some.injEq] at hpost'
          subst hpost'
          exact Or.inl ⟨post.req, List.mem_append_right _ List.mem_cons_self, hsame, hnew⟩
        · exact Or.inr ⟨t, other, hsplit.mpr ⟨hpost, ht⟩, hsame⟩
    · rintro (⟨other, hother, hsame, hnot⟩ | ⟨t, other, hpost, hsame⟩)
      · rcases List.mem_append.mp hother with hother | hother
        · exact Or.inl ⟨other, hother, hsame, hnot⟩
        · rw [List.mem_singleton.mp hother] at hsame
          exact Or.inr ⟨thread, req, posting, hsame⟩
      · exact Or.inr ⟨t, other, (hsplit.mp hpost).1, hsame⟩

/-- `uv__work_submit` -/
theorem submit (conserved : s.Conserved) {thread : Nat} {post : Post}
    (posting : s.posts thread = some post)
    {wake : Option Nat} (signals : s.Signals wake) : (s.submit thread post wake).Conserved := by
  have hqueue := conserved.queue ⟨post, posting, rfl⟩
  cases wake with
  | none => exact hqueue
  | some i =>
      obtain ⟨-, hinside, hasleep⟩ := signals
      have hworker :
          ({ s with wq := s.wq ++ [post.req], posted := s.posted ++ [post.req] }.setPost thread
            none).workers i = .asleep := hasleep
      exact hqueue.setWorker hinside (by rw [hworker]; rfl) (by rw [hworker]; rfl)

/-- A thread goes to sleep, or takes the head of the queue. -/
theorem take (conserved : s.Conserved) {i : Nat} (inside : i < s.nthreads)
    (free : (s.workers i).held = none) : (s.take i).Conserved := by
  have hran : (s.workers i).ran = none := by
    cases hw : s.workers i <;> rw [hw] at free <;> first | rfl | cases free
  cases hwq : s.wq with
  | nil =>
      rw [take_of_nil hwq]
      have hidle : Conserved { s with idleThreads := s.idleThreads + 1 } := { conserved with }
      exact hidle.setWorker inside (show Worker.asleep.held = (s.workers i).held from free.symm)
        (show Worker.asleep.ran = (s.workers i).ran from hran.symm)
  | cons req rest =>
      rw [take_of_cons hwq]
      refine ⟨conserved.fresh, conserved.distinct, conserved.posting, conserved.alone, ?_,
        fun other => ?_, fun other => ?_, conserved.calls, conserved.sound, conserved.live⟩
      · show s.posted = (s.begun ++ [req]) ++ rest
        rw [conserved.queued, hwq, List.append_assoc]
        rfl
      · have hmove := s.inHands_setWorker Worker.held other inside (.taken req)
        rw [isAt_of_none free, isAt_of_some (rfl : (Worker.taken req).held = some req)] at hmove
        show (s.begun ++ [req]).count other = s.finished.count other + s.batch.count other +
          s.loopWq.count other + (s.setWorker i (.taken req)).inHands Worker.held other
        rw [List.count_append, conserved.held]
        omega
      · have hmove := s.inHands_setWorker Worker.ran other inside (.taken req)
        rw [isAt_of_none hran, isAt_of_none (rfl : (Worker.taken req).ran = none)] at hmove
        show s.called.count other = s.finished.count other + s.batch.count other +
          s.loopWq.count other + (s.setWorker i (.taken req)).inHands Worker.ran other
        rw [conserved.ran]
        omega

/-- `task_callback` reads a live request. -/
theorem taskCallback (conserved : s.Conserved) {i : Nat} (inside : i < s.nthreads) {req : UvWork}
    (taken : s.workers i = .taken req) : (s.taskCallback i req).Conserved := by
  have hheld : (s.workers i).held = some req := by rw [taken]; rfl
  have hran : (s.workers i).ran = none := by rw [taken]; rfl
  have hmine : 0 < s.inHands Worker.held req := by
    refine Nat.lt_of_lt_of_le ?_ (weight_le_tally inside)
    rw [isAt_of_some hheld, List.count_singleton_self]
    exact Nat.one_pos
  have helsewhere : 0 < s.batch.count req + s.loopWq.count req + s.inHands Worker.held req := by omega
  obtain ⟨-, -, hlive⟩ := conserved.live_of_elsewhere helsewhere
  refine ⟨conserved.fresh, conserved.distinct, conserved.posting, conserved.alone, conserved.queued,
    fun other => ?_, fun other => ?_, ?_, ?_, conserved.live⟩
  · have hmove := s.inHands_setWorker Worker.held other inside (.called req)
    rw [isAt_of_some hheld, isAt_of_some (rfl : (Worker.called req).held = some req)] at hmove
    show s.begun.count other = s.finished.count other + s.batch.count other +
      s.loopWq.count other + (s.setWorker i (.called req)).inHands Worker.held other
    rw [conserved.held]
    omega
  · have hmove := s.inHands_setWorker Worker.ran other inside (.called req)
    rw [isAt_of_none hran, isAt_of_some (rfl : (Worker.called req).ran = some req)] at hmove
    show (s.called ++ [req]).count other = s.finished.count other + s.batch.count other +
      s.loopWq.count other + (s.setWorker i (.called req)).inHands Worker.ran other
    rw [List.count_append, conserved.ran]
    omega
  · show (s.calls ++ req.callbackCalls).Perm ((s.called ++ [req]).flatMap UvWork.callbackCalls ++
      s.finished.flatMap UvWork.afterCalls)
    rw [List.flatMap_append, List.flatMap_singleton, List.append_assoc]
    refine (conserved.calls.append_right _).trans ?_
    rw [List.append_assoc]
    exact List.perm_append_comm.append_left _
  · show (s.heap.misused || !s.heap.live req.request) = false
    rw [conserved.sound, hlive]
    rfl

/-- The request goes from the hands of the thread to the queue of the loop. -/
theorem giveBack (conserved : s.Conserved) {i : Nat} (inside : i < s.nthreads) {req : UvWork}
    (called : s.workers i = .called req) : (s.giveBack i req).Conserved := by
  have hheld : (s.workers i).held = some req := by rw [called]; rfl
  have hran : (s.workers i).ran = some req := by rw [called]; rfl
  have hfree : (if s.wqAsync then Worker.awake else .sending).held = none := by split <;> rfl
  have hfree' : (if s.wqAsync then Worker.awake else .sending).ran = none := by split <;> rfl
  refine ⟨conserved.fresh, conserved.distinct, conserved.posting, conserved.alone, conserved.queued,
    fun other => ?_, fun other => ?_, conserved.calls, conserved.sound, conserved.live⟩
  · have hmove := s.inHands_setWorker Worker.held other inside (if s.wqAsync then .awake else .sending)
    rw [isAt_of_some hheld, isAt_of_none hfree] at hmove
    show s.begun.count other = s.finished.count other + s.batch.count other +
      (s.loopWq ++ [req]).count other +
      (s.setWorker i (if s.wqAsync then .awake else .sending)).inHands Worker.held other
    rw [List.count_append, conserved.held]
    omega
  · have hmove := s.inHands_setWorker Worker.ran other inside (if s.wqAsync then .awake else .sending)
    rw [isAt_of_some hran, isAt_of_none hfree'] at hmove
    show s.called.count other = s.finished.count other + s.batch.count other +
      (s.loopWq ++ [req]).count other +
      (s.setWorker i (if s.wqAsync then .awake else .sending)).inHands Worker.ran other
    rw [List.count_append, conserved.ran]
    omega

/-- `after_task_callback` frees a live request. -/
theorem afterTaskCallback (conserved : s.Conserved) {req : UvWork} {rest : List UvWork}
    (batch : s.batch = req :: rest) (point : LoopPoint) :
    ({ s with batch := rest, point := point }.afterTaskCallback req).Conserved := by
  have hbatch : ∀ other, s.batch.count other = [req].count other + rest.count other := fun other => by
    rw [batch, ← List.count_append]
    rfl
  have helsewhere : 0 < s.batch.count req + s.loopWq.count req + s.inHands Worker.held req := by
    rw [hbatch, List.count_singleton_self]
    omega
  obtain ⟨hmem, -, hlive⟩ := conserved.live_of_elsewhere helsewhere
  refine ⟨conserved.fresh, conserved.distinct, conserved.posting, conserved.alone, conserved.queued,
    fun other => ?_, fun other => ?_, ?_, ?_, fun r => ?_⟩
  · show s.begun.count other = (s.finished ++ [req]).count other + rest.count other +
      s.loopWq.count other +
      s.inHands Worker.held other
    rw [List.count_append, conserved.held, hbatch]
    omega
  · show s.called.count other = (s.finished ++ [req]).count other + rest.count other +
      s.loopWq.count other +
      s.inHands Worker.ran other
    rw [List.count_append, conserved.ran, hbatch]
    omega
  · show (s.calls ++ req.afterCalls).Perm (s.called.flatMap UvWork.callbackCalls ++
      (s.finished ++ [req]).flatMap UvWork.afterCalls)
    rw [List.flatMap_append, List.flatMap_singleton, ← List.append_assoc]
    exact conserved.calls.append_right _
  · show ((s.heap.use req.request).free req.request).misused = false
    simp [Heap.free, Heap.use, conserved.sound, hlive]
  · show ((s.heap.use req.request).free req.request).live r = true ↔
      (∃ other ∈ s.posted, other.request = r ∧ other ∉ s.finished ++ [req]) ∨
        ∃ t other, s.Posting t other ∧ other.request = r
    by_cases hr : r = req.request
    · subst hr
      rw [Heap.live_free_self, Bool.false_eq_true, false_iff]
      rintro (⟨other, hother, hsame, hnot⟩ | ⟨t, other, hpost, hsame⟩)
      · rw [conserved.request_inj hother hmem hsame] at hnot
        exact hnot (List.mem_append_right _ List.mem_cons_self)
      · exact (conserved.posting hpost).2 req hmem hsame.symm
    · rw [Heap.live_free_of_ne _ hr, Heap.live_use, conserved.live]
      refine or_congr_left (exists_congr fun other => and_congr_right fun hother =>
        and_congr_right fun hsame => ?_)
      rw [List.mem_append, List.mem_singleton, not_or]
      refine (and_iff_left ?_).symm
      rintro rfl
      exact hr hsame.symm

end Conserved

/-! ### Who is awake -/

/-- `idle_threads` counts the threads in `uv_cond_wait`. Where there is something to take a thread
is awake, and where the loop has something to call back its handle is pending, or the loop thread is
about to take it. -/
structure Scheduled (s : TaskManager) : Prop where
  threads : 0 < s.nthreads
  idle : s.idleThreads = tally Worker.idle s.nthreads s.workers
  awake : s.wq ≠ [] → ∃ i < s.nthreads, s.workers i ≠ .asleep
  pending : s.loopWq ≠ [] → s.wqAsync = true ∨ s.point = .lock
  batch : s.batch ≠ [] → s.point = .workDone ∨ s.point = .unlinking ∨ s.point = .unlinked
  removing : s.point = .unlinking ∨ s.point = .unlinked → s.batch ≠ []

namespace Scheduled

variable {s s' : TaskManager} {i : Nat} {req : UvWork}

theorem init (size : Option Nat) (bRunnig : Bool) (word : Nat) :
    (TaskManager.init size bRunnig word).Scheduled where
  threads := by
    show 0 < initThreads size
    unfold initThreads
    dsimp only
    split <;> omega
  idle := (tally_eq_zero_iff.mpr fun _ _ => rfl).symm
  awake := fun h => absurd rfl h
  pending := fun h => absurd rfl h
  batch := fun h => absurd rfl h
  removing := fun h => by rcases h with h | h <;> cases h

/-- A thread moves and stays awake, or wakes up. -/
theorem setWorker (scheduled : s.Scheduled) {w : Worker} (inside : i < s.nthreads)
    (same : w.idle = (s.workers i).idle) (awake : w ≠ .asleep) : (s.setWorker i w).Scheduled where
  threads := scheduled.threads
  idle := by
    show s.idleThreads = tally Worker.idle s.nthreads (Function.update s.workers i w)
    rw [tally_same inside same, scheduled.idle]
  awake := fun _ => ⟨i, inside, by
    show Function.update s.workers i w i ≠ .asleep
    rwa [Function.update_self]⟩
  pending := scheduled.pending
  batch := scheduled.batch
  removing := scheduled.removing

/-- A post leaves a thread awake: the one that the signal wakes, or one that needs no signal. -/
theorem submit (scheduled : s.Scheduled) (thread : Nat) (post : Post) {wake : Option Nat}
    (signals : s.Signals wake) : (s.submit thread post wake).Scheduled := by
  cases wake with
  | none =>
      refine { scheduled with awake := fun _ => ?_ }
      rcases signals with hzero | hnobody
      · rw [scheduled.idle, tally_eq_zero_iff] at hzero
        refine ⟨0, scheduled.threads, fun hasleep => ?_⟩
        have hweight := hzero 0 scheduled.threads
        rw [show s.workers 0 = .asleep from hasleep] at hweight
        cases hweight
      · exact ⟨0, scheduled.threads, hnobody 0 scheduled.threads⟩
  | some i =>
      obtain ⟨-, hinside, hasleep⟩ := signals
      refine ⟨scheduled.threads, ?_, fun _ => ⟨i, hinside, ?_⟩, scheduled.pending, scheduled.batch,
        scheduled.removing⟩
      · show s.idleThreads = tally Worker.idle s.nthreads (Function.update s.workers i .signalled)
        rw [tally_same hinside (by rw [hasleep]; rfl), scheduled.idle]
      · show Function.update s.workers i .signalled i ≠ .asleep
        rw [Function.update_self]
        exact Worker.noConfusion

/-- A thread that is counted out goes to sleep, or takes the head of the queue. -/
theorem take (scheduled : s.Scheduled) {k : Nat} (inside : i < s.nthreads)
    (counted : k + (s.workers i).idle = s.idleThreads) :
    ({ s with idleThreads := k }.take i).Scheduled := by
  rw [scheduled.idle] at counted
  by_cases hwq : s.wq = []
  · rw [take_of_nil (s := { s with idleThreads := k }) hwq]
    refine ⟨scheduled.threads, ?_, fun h => absurd hwq h, scheduled.pending, scheduled.batch,
        scheduled.removing⟩
    have hmove : tally Worker.idle s.nthreads (Function.update s.workers i Worker.asleep) +
      (s.workers i).idle =
        tally Worker.idle s.nthreads s.workers + 1 := tally_update inside Worker.asleep
    show k + 1 = tally Worker.idle s.nthreads (Function.update s.workers i Worker.asleep)
    omega
  · obtain ⟨req, rest, hwq⟩ := List.exists_cons_of_ne_nil hwq
    rw [take_of_cons (s := { s with idleThreads := k }) hwq]
    refine ⟨scheduled.threads, ?_, fun _ => ⟨i, inside, ?_⟩, scheduled.pending, scheduled.batch,
        scheduled.removing⟩
    · have hmove : tally Worker.idle s.nthreads (Function.update s.workers i (Worker.taken req)) +
          (s.workers i).idle = tally Worker.idle s.nthreads s.workers + 0 :=
        tally_update inside (Worker.taken req)
      show k = tally Worker.idle s.nthreads (Function.update s.workers i (Worker.taken req))
      omega
    · show Function.update s.workers i (.taken req) i ≠ .asleep
      rw [Function.update_self]
      exact Worker.noConfusion

theorem taskCallback (scheduled : s.Scheduled) (inside : i < s.nthreads)
    (taken : s.workers i = .taken req) : (s.taskCallback i req).Scheduled :=
  have hlog : Scheduled { s with
      heap := s.heap.use req.request
      called := s.called ++ [req]
      calls := s.calls ++ req.callbackCalls } :=
    { scheduled with }
  hlog.setWorker inside (by rw [taken]; rfl) Worker.noConfusion

theorem giveBack (scheduled : s.Scheduled) (inside : i < s.nthreads)
    (called : s.workers i = .called req) : (s.giveBack i req).Scheduled :=
  have hgiven : Scheduled { s with loopWq := s.loopWq ++ [req], wqAsync := true } :=
    { scheduled with pending := fun _ => Or.inl rfl }
  hgiven.setWorker inside (by rw [called]; split <;> rfl) (by split <;> exact Worker.noConfusion)

end Scheduled

end TaskManager

end AnotherWs
