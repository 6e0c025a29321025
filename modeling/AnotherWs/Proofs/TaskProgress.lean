/-
Module: AnotherWs.Proofs.TaskProgress
Purpose: The threads of the pool and the loop thread come to rest by themselves, and where they do
  every task has been called; every task has been called back, too, unless the loop has not begun or
  has ended. That the loop thread wakes up rests on the number that uv__async_send writes to the
  eventfd.
Trusted boundary: none
Main exports: TaskManager.backlog, TaskManager.Orderly, TaskManager.Notified, TaskManager.Still,
  tasks_complete
-/
import AnotherWs.Proofs.TaskRuns

namespace AnotherWs

open Heaps Machines Tallies

/-- What a thread of the pool does until it waits. -/
def Worker.weight : Worker → Nat
  | .asleep => 0
  | .awake | .signalled => 1
  | .sending => 8
  | .called _ => 12
  | .taken _ => 13

/-- What the loop thread does until it waits in `uv__io_poll`, but for the requests of the batch. -/
def LoopPoint.weight : LoopPoint → Nat
  | .created | .poll | .ended => 0
  | .head | .unlinked => 1
  | .started | .sendAsync | .unlinking => 2
  | .workDone => 3
  | .lock => 4
  | .wqAsync => 5

namespace TaskManager

variable (s : TaskManager)

/-- How many statements of the threads of the pool, of the loop thread and of `shutdown` are left,
at most. -/
def backlog : Nat :=
  tally Worker.weight s.nthreads s.workers + 13 * s.wq.length + 3 * s.loopWq.length +
    3 * s.batch.length +
    s.point.weight + 7 * s.owed + min 6 (6 * s.eventfd)

/-- A statement of a thread of the pool or of the loop thread, or a write that is owed. -/
def Orderly : TaskAction → Prop
  | .worker _ | .loop | .write => True
  | .startup | .postTask _ _ _ | .register _ | .submit _ _ | .wakeup _ | .shutdown => False

/-- Nothing moves: the threads of the pool wait, and the loop thread waits, has not begun or has
ended. -/
def Still (s : TaskManager) : Prop := ∀ a, Orderly a → taskMachine.step s a = none

variable {s} {s' : TaskManager} {i : Nat}

/-! ### Every statement is progress -/

/-- A thread of the pool moves from one place to another. -/
theorem tally_setWorker (inside : i < s.nthreads) {before : Worker} (at_ : s.workers i = before)
    (w : Worker) :
    tally Worker.weight s.nthreads (Function.update s.workers i w) + before.weight =
      tally Worker.weight s.nthreads s.workers + w.weight := by
  rw [← at_]
  exact tally_update inside w

theorem take_backlog (inside : i < s.nthreads) (light : (s.workers i).weight = 1) :
    (s.take i).backlog < s.backlog := by
  by_cases hwq : s.wq = []
  · have hmove := tally_setWorker inside rfl .asleep
    rw [take_of_nil hwq]
    simp only [backlog, setWorker]
    rw [light] at hmove
    simp only [Worker.weight] at hmove
    omega
  · obtain ⟨req, rest, hwq⟩ := List.exists_cons_of_ne_nil hwq
    have hmove := tally_setWorker inside rfl (.taken req)
    rw [take_of_cons hwq]
    simp only [backlog, setWorker, hwq, List.length_cons]
    rw [light] at hmove
    simp only [Worker.weight] at hmove
    omega

/-- The write makes one round of the loop thread necessary, at most. -/
theorem asyncWrite_backlog (s : TaskManager) : s.asyncWrite.backlog ≤ s.backlog + 6 := by
  unfold asyncWrite
  split
  · exact Nat.le_add_right _ _
  · split
    · simp only [backlog]
      omega
    · exact Nat.le_add_right _ _

theorem work_backlog (inside : i < s.nthreads) (step : WorkCase s i s') : s'.backlog < s.backlog := by
  cases step with
  | awake at_ => exact take_backlog inside (by rw [at_]; rfl)
  | signalled at_ =>
      have hlight : (s.workers i).weight = 1 := by rw [at_]; rfl
      exact take_backlog (s := { s with idleThreads := s.idleThreads - 1 }) inside hlight
  | @taken req at_ =>
      have hmove := tally_setWorker inside at_ (.called req)
      simp only [Worker.weight] at hmove
      simp only [taskCallback, backlog, setWorker]
      omega
  | @called req at_ =>
      have hmove := tally_setWorker inside at_ (if s.wqAsync then .awake else .sending)
      have hlight : (if s.wqAsync then Worker.awake else .sending).weight ≤ 8 := by split <;> decide
      rw [show (Worker.called req).weight = 12 from rfl] at hmove
      simp only [giveBack, backlog, setWorker, List.length_append, List.length_singleton]
      omega
  | sending at_ =>
      obtain ⟨hworkers, hthreads⟩ := s.asyncWrite_workers
      have hmove := tally_setWorker (s := s.asyncWrite) (hthreads ▸ inside) (hworkers ▸ at_) .awake
      have hwrite := s.asyncWrite_backlog
      simp only [Worker.weight] at hmove
      simp only [backlog, setWorker] at hwrite ⊢
      omega

theorem loop_backlog (sound : s.Sound) (turns : s.TakesTurns .loop) (step : LoopCase s s') :
    s'.backlog < s.backlog := by
  cases step with
  | refused at_ | entered at_ | stopped at_ | turned at_ | pending at_ | clear at_ | visited at_ =>
      simp only [backlog, at_, LoopPoint.weight]
      omega
  | woken at_ counter =>
      simp only [backlog, at_, LoopPoint.weight]
      omega
  | moved at_ =>
      have hbatch := sound.batch_nil at_ (by simp)
      simp only [backlog, at_, hbatch, LoopPoint.weight, List.length_nil]
      omega
  | done at_ empty =>
      simp only [backlog, at_, LoopPoint.weight]
      omega
  | unregister at_ batch =>
      have hidle := turns at_ (by rw [batch]; exact List.cons_ne_nil _ _)
      obtain ⟨hunregister, -, -⟩ := sound.listed.unregister sound.conserved hidle batch at_
      rw [hunregister]
      simp only [backlog, at_, LoopPoint.weight]
      omega
  | unregisterBack at_ =>
      simp only [unregisterBack, backlog, at_, LoopPoint.weight]
      omega
  | calledBack at_ batch =>
      simp only [afterTaskCallback, backlog, at_, batch, LoopPoint.weight, List.length_cons]
      omega

theorem orderly_backlog (sound : s.Sound) {a : TaskAction} (orderly : Orderly a)
    (turns : s.TakesTurns a) (step : s.step a = some s') : s'.backlog < s.backlog := by
  obtain ⟨-, hcase⟩ := step_cases step
  cases hcase with
  | worker inside next => exact work_backlog inside next
  | loop next => exact loop_backlog sound turns next
  | write owed =>
      have hwrite := s.asyncWrite_backlog
      have howed : s.asyncWrite.owed = s.owed := by
        unfold asyncWrite
        split
        · rfl
        · split <;> rfl
      simp only [backlog] at hwrite ⊢
      omega
  | startup | postTask | register | submit | wakeup | shutdown => exact orderly.elim

/-! ### Nobody waits for a wake-up that is not to come -/

/-- A flag that is up has been told the loop thread, or will be, or the loop thread is about to look
at it. -/
structure Notified (s : TaskManager) : Prop where
  wq : s.wqAsync = true → 0 < s.eventfd ∨ (∃ i < s.nthreads, s.workers i = .sending) ∨
    s.point = .wqAsync
  send : s.sendAsync = true → 0 < s.eventfd ∨ 0 < s.owed ∨
    s.point ∈ [LoopPoint.wqAsync, .lock, .workDone, .unlinking, .unlinked, .sendAsync]

namespace Notified

theorem init (size : Option Nat) (bRunnig : Bool) (word : Nat) :
    (TaskManager.init size bRunnig word).Notified :=
  ⟨fun h => (by cases h), fun h => (by cases h)⟩

/-- A number that is not zero and that the kernel takes wakes the loop thread up. -/
theorem asyncWrite_wakes (positive : 0 < s.word) (small : s.word < 2 ^ 64 - 1) :
    0 < s.asyncWrite.eventfd := by
  unfold asyncWrite
  rw [if_neg (by omega)]
  split
  · show 0 < s.eventfd + s.word
    omega
  · omega

/-- A thread of the pool that was not at its write moves. -/
theorem setWorker (notified : s.Notified) {w : Worker} (other : s.workers i ≠ .sending) :
    (s.setWorker i w).Notified where
  wq := fun h => by
    rcases notified.wq h with hcounter | ⟨j, hj, hsending⟩ | hpoint
    · exact Or.inl hcounter
    · have hne : j ≠ i := fun hij => other (hij ▸ hsending)
      exact Or.inr (Or.inl ⟨j, hj, (Function.update_of_ne hne _ _).trans hsending⟩)
    · exact Or.inr (Or.inr hpoint)
  send := notified.send

theorem take (notified : s.Notified) (other : s.workers i ≠ .sending) : (s.take i).Notified := by
  by_cases hwq : s.wq = []
  · rw [take_of_nil hwq]
    have hcount : Notified { s with idleThreads := s.idleThreads + 1 } := { notified with }
    exact hcount.setWorker other
  · obtain ⟨req, rest, hwq⟩ := List.exists_cons_of_ne_nil hwq
    rw [take_of_cons hwq]
    have hbegun : Notified { s with wq := rest, begun := s.begun ++ [req] } := { notified with }
    exact hbegun.setWorker other

theorem work (notified : s.Notified) (positive : 0 < s.word) (small : s.word < 2 ^ 64 - 1)
    (inside : i < s.nthreads) (step : WorkCase s i s') : s'.Notified := by
  cases step with
  | awake at_ => exact notified.take (by rw [at_]; exact Worker.noConfusion)
  | signalled at_ =>
      have hcount : Notified { s with idleThreads := s.idleThreads - 1 } := { notified with }
      exact hcount.take (by show s.workers i ≠ .sending; rw [at_]; exact Worker.noConfusion)
  | @taken req at_ =>
      have hcalled : Notified { s with
          heap := s.heap.use req.request
          called := s.called ++ [req]
          calls := s.calls ++ req.callbackCalls } :=
        { notified with }
      exact hcalled.setWorker (by show s.workers i ≠ .sending; rw [at_]; exact Worker.noConfusion)
  | @called req at_ =>
      refine ⟨fun _ => ?_, notified.send⟩
      cases hflag : s.wqAsync with
      | false =>
          refine Or.inr (Or.inl ⟨i, inside, ?_⟩)
          show Function.update s.workers i (if s.wqAsync then .awake else .sending) i = .sending
          rw [Function.update_self, hflag]
          rfl
      | true =>
          have hmoved : (s.setWorker i .awake).Notified :=
            notified.setWorker (by rw [at_]; exact Worker.noConfusion)
          have hwq := hmoved.wq hflag
          simp only [giveBack, hflag, if_true]
          exact hwq
  | sending =>
      have hcounter := asyncWrite_wakes positive small
      exact ⟨fun _ => Or.inl hcounter, fun _ => Or.inl hcounter⟩

theorem loop (notified : s.Notified) (step : LoopCase s s') : s'.Notified := by
  have haway : ∀ {point}, s.point = point → point ≠ .wqAsync → s.wqAsync = true →
      0 < s.eventfd ∨ ∃ i < s.nthreads, s.workers i = .sending := by
    rintro point rfl hpoint h
    rcases notified.wq h with hcounter | hsending | hat
    · exact Or.inl hcounter
    · exact Or.inr hsending
    · exact absurd hat hpoint
  cases step with
  | refused at_ | entered at_ | stopped at_ | turned at_ =>
      refine ⟨fun h => or_assoc.mp (Or.inl (haway at_ LoopPoint.noConfusion h)), fun h => ?_⟩
      rcases notified.send h with hcounter | howed | hpoint
      · exact Or.inl hcounter
      · exact Or.inr (Or.inl howed)
      · rw [at_] at hpoint
        simp at hpoint
  | woken => exact ⟨fun _ => Or.inr (Or.inr rfl), fun _ => Or.inr (Or.inr (by simp))⟩
  | pending => exact ⟨fun h => (by cases h), fun _ => Or.inr (Or.inr (by simp))⟩
  | clear _ flag => exact ⟨fun h => absurd h (by simp [flag]), fun _ => Or.inr (Or.inr (by simp))⟩
  | moved at_ | done at_ | unregisterBack at_ | calledBack at_ =>
      exact ⟨fun h => or_assoc.mp (Or.inl (haway at_ LoopPoint.noConfusion h)),
        fun _ => Or.inr (Or.inr (by simp [unregisterBack, afterTaskCallback]))⟩
  | unregister at_ =>
      unfold unregister
      split
      · exact ⟨notified.wq, notified.send⟩
      · exact ⟨fun h => or_assoc.mp (Or.inl (haway at_ LoopPoint.noConfusion h)),
          fun _ => Or.inr (Or.inr (by simp))⟩
  | visited at_ =>
      exact ⟨fun h => or_assoc.mp (Or.inl (haway at_ LoopPoint.noConfusion h)), fun h => (by cases h)⟩

theorem step (notified : s.Notified) (positive : 0 < s.word) (small : s.word < 2 ^ 64 - 1)
    {a : TaskAction} (step : s.step a = some s') : s'.Notified := by
  obtain ⟨-, hcase⟩ := step_cases step
  cases hcase with
  | startup at_ =>
      refine ⟨fun h => ?_, fun h => ?_⟩
      · rcases notified.wq h with hcounter | hsending | hpoint
        · exact Or.inl hcounter
        · exact Or.inr (Or.inl hsending)
        · rw [at_] at hpoint
          cases hpoint
      · rcases notified.send h with hcounter | howed | hpoint
        · exact Or.inl hcounter
        · exact Or.inr (Or.inl howed)
        · rw [at_] at hpoint
          simp at hpoint
  | postTask _ _ memory => cases memory <;> exact { notified with }
  | @register _ post _ _ next =>
      obtain ⟨req, point⟩ := post
      cases point <;> cases next <;> exact { notified with }
  | @submit thread post wake _ _ signals =>
      have hqueued : Notified
          ({ s with wq := s.wq ++ [post.req], posted := s.posted ++ [post.req] }.setPost thread none) :=
        { notified with }
      cases wake with
      | none => exact hqueued
      | some i =>
          refine hqueued.setWorker ?_
          show s.workers i ≠ .sending
          rw [signals.2.2]
          exact Worker.noConfusion
  | worker inside next => exact notified.work positive small inside next
  | wakeup inside asleep => exact notified.setWorker (by rw [asleep]; exact Worker.noConfusion)
  | loop next => exact notified.loop next
  | shutdown =>
      unfold TaskManager.shutdown
      split
      · refine ⟨notified.wq, fun _ => ?_⟩
        cases hflag : s.sendAsync with
        | false => exact Or.inr (Or.inl (by simp))
        | true => simpa [hflag] using notified.send hflag
      · exact notified
  | write =>
      have hcounter := asyncWrite_wakes positive small
      exact ⟨fun _ => Or.inl hcounter, fun _ => Or.inl hcounter⟩

theorem exec {actions : List TaskAction} (notified : s.Notified) (positive : 0 < s.word)
    (small : s.word < 2 ^ 64 - 1) (run : taskMachine.exec s actions = some s') : s'.Notified := by
  have hall : s'.word = s.word ∧ s'.Notified :=
    Machine.exec_invariant_of_step (fun t => t.word = s.word ∧ t.Notified)
      (fun t _ _ h hstep => ⟨(step_constants hstep).2.trans h.1,
        h.2.step (h.1 ▸ positive) (h.1 ▸ small) hstep⟩)
      ⟨rfl, notified⟩ run
  exact hall.2

end Notified

/-! ### At rest -/

/-- Where nothing moves, the threads of the pool are asleep. -/
theorem Still.asleep (still : s.Still) (running : s.aborted = false) (inside : i < s.nthreads) :
    s.workers i = .asleep := by
  have hnone : s.work i = none := by
    have h := still (.worker i) trivial
    simp only [taskMachine, TaskManager.step, running, Bool.false_eq_true, if_false, act,
      if_pos inside] at h
    exact h
  unfold TaskManager.work at hnone
  split at hnone
  · assumption
  all_goals cases hnone

/-- Where nothing moves, the loop thread has not begun or has ended, or it waits. -/
theorem Still.point (still : s.Still) (sound : s.Sound) (running : s.aborted = false) :
    s.point = .created ∨ s.point = .ended ∨ s.point = .poll ∧ s.eventfd = 0 := by
  have hnone : s.loop = none := by
    have h := still .loop trivial
    simp only [taskMachine, TaskManager.step, running, Bool.false_eq_true, if_false, act] at h
    exact h
  unfold TaskManager.loop at hnone
  split at hnone
  · exact Or.inl ‹_›
  · exact Or.inr (Or.inl ‹_›)
  · cases hnone
  · cases hnone
  · rename_i hpoint
    split at hnone
    · cases hnone
    · exact Or.inr (Or.inr ⟨hpoint, by omega⟩)
  · cases hnone
  · cases hnone
  · split at hnone <;> cases hnone
  · rename_i hpoint
    split at hnone
    · exact absurd ‹_› (sound.scheduled.removing (Or.inl hpoint))
    · cases hnone
  · rename_i hpoint
    split at hnone
    · exact absurd ‹_› (sound.scheduled.removing (Or.inr hpoint))
    · cases hnone
  · cases hnone

/-- Where nothing moves, no write is owed. -/
theorem Still.owed (still : s.Still) (running : s.aborted = false) : s.owed = 0 := by
  have h := still .write trivial
  simp only [taskMachine, TaskManager.step, running, Bool.false_eq_true, if_false, act] at h
  split at h
  · cases h
  · omega

/-- **At rest.** Every request has been called, and has been called back or waits for the loop. -/
theorem Still.counts (still : s.Still) (sound : s.Sound) (running : s.aborted = false) :
    s.posted = s.begun ∧ (∀ req, s.called.count req = s.posted.count req) ∧
      ∀ req, s.posted.count req = s.finished.count req + s.loopWq.count req := by
  obtain ⟨hconserved, hscheduled, -, -⟩ := id sound
  have hwq : s.wq = [] := by
    by_contra h
    obtain ⟨i, hinside, hawake⟩ := hscheduled.awake h
    exact hawake (still.asleep running hinside)
  have hbatch : s.batch = [] := by
    rcases still.point sound running with hpoint | hpoint | ⟨hpoint, -⟩ <;>
      exact sound.batch_nil hpoint (by simp)
  have hposted : s.posted = s.begun := by rw [hconserved.queued, hwq, List.append_nil]
  have hheld : ∀ req, s.inHands Worker.held req = 0 := fun req =>
    tally_eq_zero_iff.mpr fun i hi => by rw [still.asleep running hi]; rfl
  have hran : ∀ req, s.inHands Worker.ran req = 0 := fun req =>
    tally_eq_zero_iff.mpr fun i hi => by rw [still.asleep running hi]; rfl
  have hcount : ∀ req, s.posted.count req = s.finished.count req + s.loopWq.count req := fun req => by
    have h := hconserved.held req
    rw [hheld, hbatch] at h
    rw [hposted, h]
    rfl
  refine ⟨hposted, fun req => ?_, hcount⟩
  have h := hconserved.ran req
  rw [hran, hbatch] at h
  rw [h, hcount]
  rfl

/-- At rest no flag is up that the loop thread has not been told of. -/
theorem Still.heard (still : s.Still) (sound : s.Sound) (notified : s.Notified)
    (running : s.aborted = false)
    (waiting : s.point = .poll) : s.wqAsync = false ∧ s.sendAsync = false := by
  have hcounter : ¬ 0 < s.eventfd := by
    rcases still.point sound running with hpoint | hpoint | ⟨-, hzero⟩
    · rw [waiting] at hpoint
      cases hpoint
    · rw [waiting] at hpoint
      cases hpoint
    · omega
  constructor
  · by_contra h
    rcases notified.wq (by simpa using h) with hpos | ⟨i, hi, hsending⟩ | hpoint
    · exact hcounter hpos
    · rw [still.asleep running hi] at hsending
      cases hsending
    · rw [waiting] at hpoint
      cases hpoint
  · by_contra h
    rcases notified.send (by simpa using h) with hpos | howed | hpoint
    · exact hcounter hpos
    · rw [still.owed running] at howed
      cases howed
    · rw [waiting] at hpoint
      simp at hpoint

/-- At rest exactly what is in the queue of the loop is not finished, and its memory is not freed. -/
theorem Still.finished_iff (still : s.Still) (sound : s.Sound) (running : s.aborted = false) :
    (s.finished.Perm s.posted ↔ s.loopWq = []) ∧
      ((∀ r, s.heap.live r = true → ∃ t req, s.Posting t req ∧ req.request = r) ↔ s.loopWq = []) := by
  obtain ⟨-, -, hcount⟩ := still.counts sound running
  have hperm : s.finished.Perm s.posted ↔ s.loopWq = [] := by
    constructor
    · intro h
      refine List.eq_nil_iff_forall_not_mem.mpr fun req hreq => ?_
      have hpos := List.count_pos_iff.mpr hreq
      have hsame := h.count_eq req
      have hsum := hcount req
      omega
    · intro h
      refine List.perm_iff_count.mpr fun req => ?_
      rw [hcount, h]
      rfl
  refine ⟨hperm, ?_⟩
  constructor
  · intro hposting
    refine List.eq_nil_iff_forall_not_mem.mpr fun req hreq => ?_
    have hpos := List.count_pos_iff.mpr hreq
    obtain ⟨hmem, -, hlive⟩ := sound.conserved.live_of_elsewhere (show 0 < s.batch.count req +
      s.loopWq.count req + s.inHands Worker.held req by omega)
    obtain ⟨t, other, hpost, hsame⟩ := hposting _ hlive
    exact (sound.conserved.posting hpost).2 req hmem hsame.symm
  · intro hempty r hlive
    rcases (sound.conserved.live r).mp hlive with ⟨req, hreq, -, hnot⟩ | hposting
    · exact absurd ((hperm.mpr hempty).mem_iff.mpr hreq) hnot
    · exact hposting

/-- The loop has not been told to stop. -/
structure Serving (s : TaskManager) : Prop where
  flag : s.point = .created ∨ s.point = .started → s.bRunnig = false
  sendAsync : s.sendAsync = false
  stopFlag : s.stopFlag = false
  point : s.point ≠ .ended

namespace Serving

theorem loop (serving : s.Serving) (step : LoopCase s s') : s'.Serving := by
  cases step with
  | refused at_ flag =>
      rw [serving.flag (Or.inr at_)] at flag
      cases flag
  | entered =>
      exact ⟨fun h => (by simp at h), serving.sendAsync, serving.stopFlag, LoopPoint.noConfusion⟩
  | stopped _ flag =>
      rw [serving.stopFlag] at flag
      cases flag
  | turned | woken | pending | clear | moved | done | unregisterBack | calledBack =>
      exact ⟨fun h => (by rcases h with h | h <;> cases h), serving.sendAsync, serving.stopFlag,
        LoopPoint.noConfusion⟩
  | unregister =>
      unfold unregister
      split
      · exact { serving with }
      · exact ⟨fun h => (by simp at h), serving.sendAsync, serving.stopFlag, LoopPoint.noConfusion⟩
  | visited =>
      refine ⟨fun h => (by simp at h), rfl, ?_, LoopPoint.noConfusion⟩
      rw [serving.stopFlag, serving.sendAsync]
      rfl

theorem take (serving : s.Serving) (i : Nat) : (s.take i).Serving := by
  unfold TaskManager.take
  split <;> exact { serving with }

theorem asyncWrite (serving : s.Serving) : s.asyncWrite.Serving := by
  unfold TaskManager.asyncWrite
  split
  · exact { serving with }
  · split <;> exact { serving with }

theorem step (serving : s.Serving) {a : TaskAction} (other : a ≠ .shutdown)
    (step : s.step a = some s') :
    s'.Serving := by
  obtain ⟨-, hcase⟩ := step_cases step
  cases hcase with
  | startup at_ =>
      exact ⟨fun _ => serving.flag (Or.inl at_), serving.sendAsync, serving.stopFlag,
        LoopPoint.noConfusion⟩
  | postTask _ _ memory => cases memory <;> exact { serving with }
  | @register _ post _ _ next =>
      obtain ⟨req, point⟩ := post
      cases point <;> cases next <;> exact { serving with }
  | @submit _ _ wake => cases wake <;> exact { serving with }
  | worker _ next =>
      cases next with
      | awake => exact serving.take _
      | signalled =>
          have hcount : Serving { s with idleThreads := s.idleThreads - 1 } := { serving with }
          exact hcount.take _
      | taken | called => exact { serving with }
      | sending => exact { serving.asyncWrite with }
  | wakeup => exact { serving with }
  | loop next => exact serving.loop next
  | shutdown => exact absurd rfl other
  | write => exact { serving.asyncWrite with }

end Serving

end TaskManager

open TaskManager

/-- **Completion.** From every state of every run whose posts take turns, the threads of the pool,
the loop thread and the writes that `shutdown` owes come to rest, after a bounded number of
statements. At rest every task that was queued has been called, and a loop thread that waits has
heard of every flag; every task has been called back, and everything is freed but for the posts
under way, exactly if nothing is left in the queue of the loop; and nothing is, if the loop has
begun with `m_bRunnig` false and nobody has shut it down. The number that `uv__async_send` writes
must be one that the kernel adds up. -/
theorem tasks_complete {size : Option Nat} {bRunnig : Bool} {word : Nat} {actions : List TaskAction}
    {s : TaskManager} (run : taskMachine.exec (TaskManager.init size bRunnig word) actions = some s)
    (turns : taskMachine.Guarded TakesTurns (TaskManager.init size bRunnig word) actions)
    (positive : 0 < word) (small : word < 2 ^ 64 - 1) :
    (∀ more s', taskMachine.Guarded (fun s a => Orderly a ∧ s.TakesTurns a) s more →
        taskMachine.exec s more = some s' → more.length ≤ s.backlog) ∧
      (s.Still → s.calls.Perm (s.posted.flatMap UvWork.callbackCalls ++
        s.finished.flatMap UvWork.afterCalls) ∧
        (s.point = .poll → s.wqAsync = false ∧ s.sendAsync = false) ∧
        (s.finished.Perm s.posted ↔ s.loopWq = []) ∧
        ((∀ r, s.heap.live r = true → ∃ t req, s.Posting t req ∧ req.request = r) ↔ s.loopWq = [])) ∧
      (s.Still → bRunnig = false → .shutdown ∉ actions → s.point ≠ .created →
        s.finished.Perm s.posted ∧ ∀ r, s.heap.live r = true → ∃ t req,
          s.Posting t req ∧ req.request = r) := by
  have hsound := (Sound.init size bRunnig word).exec turns run
  have hnotified := (Notified.init size bRunnig word).exec positive small run
  have hword : s.word = word := (exec_constants run).2
  have hrunning : s.aborted = false := hsound.running (by rw [hword]; omega)
  refine ⟨fun more s' horderly hmore => ?_, fun still => ⟨?_, still.heard hsound hnotified hrunning,
    still.finished_iff hsound hrunning⟩, fun still hflag hopen hbegun => ?_⟩
  · have hlength := (Machine.exec_measure Sound backlog
      (fun _ _ _ h hguard hstep => ⟨h.step hguard.2 hstep, orderly_backlog h hguard.1 hguard.2 hstep⟩)
      hsound horderly hmore).2
    omega
  · obtain ⟨-, hcalled, -⟩ := still.counts hsound hrunning
    refine hsound.conserved.calls.trans (List.Perm.append_right _ ?_)
    exact (List.perm_iff_count.mpr hcalled).flatMap_right _
  · have hserving : s.Serving := by
      refine Machine.exec_invariant Serving (fun s a s' h hother hstep => h.step hother hstep)
        ⟨fun _ => hflag, rfl, rfl, LoopPoint.noConfusion⟩
        (Machine.Guarded.of_forall (fun a ha _ => ?_) _) run
      rintro rfl
      exact hopen ha
    have hempty : s.loopWq = [] := by
      rcases still.point hsound hrunning with hpoint | hpoint | ⟨hpoint, -⟩
      · exact absurd hpoint hbegun
      · exact absurd hpoint hserving.point
      · by_contra h
        rcases hsound.scheduled.pending h with hpending | hlock
        · rw [(still.heard hsound hnotified hrunning hpoint).1] at hpending
          cases hpending
        · rw [hpoint] at hlock
          cases hlock
    exact ⟨(still.finished_iff hsound hrunning).1.mpr hempty,
      (still.finished_iff hsound hrunning).2.mpr hempty⟩

theorem tasks_complete_two :
    ∃ s, taskMachine.exec (TaskManager.init (some 2) false 256) sampleTasks = some s ∧
      s.Still ∧ s.finished.Perm s.posted ∧ s.heap.live 0 = false ∧ s.heap.live 1 = false := by
  obtain ⟨s, hrun, -, hpoint, hcounter, howed, hthreads, hasleep, hasleep', hposts⟩ := sampleTasks_run
  have hstill : s.Still := by
    intro a horderly
    unfold taskMachine TaskManager.step
    dsimp only
    split
    · rfl
    cases a with
    | worker i =>
        simp only [act, hthreads]
        split
        · rename_i hinside
          rcases (by omega : i = 0 ∨ i = 1) with rfl | rfl
          · simp only [work, hasleep]
          · simp only [work, hasleep']
        · rfl
    | loop => simp [act, TaskManager.loop, hpoint, hcounter]
    | write => simp [act, howed]
    | startup | postTask | register | submit | wakeup | shutdown => exact horderly.elim
  obtain ⟨hperm, hfreed⟩ := (tasks_complete hrun sampleTasks_turns (by decide)
    (by decide)).2.2 hstill rfl (by decide)
    (by rw [hpoint]; exact LoopPoint.noConfusion)
  have hdead : ∀ r, s.heap.live r = false := fun r => by
    by_contra h
    obtain ⟨t, req, ⟨post, hpost, -⟩, -⟩ := hfreed r (by simpa using h)
    rw [hposts t] at hpost
    cases hpost
  exact ⟨s, hrun, hstill, hperm, hdead 0, hdead 1⟩

/-- A shutdown while the thread has the task in its hands: the loop ends before it is called back. -/
example : ∃ s, taskMachine.exec (TaskManager.init (some 1) false 256)
    [.startup, .loop, .loop, .postTask 0 (some ⟨7, true, true⟩) true, .register 0, .register 0,
      .submit 0 none, .worker 0, .shutdown, .write, .loop, .loop, .loop, .loop, .worker 0, .worker 0,
      .worker 0, .worker 0] = some s ∧
    s.point = .ended ∧ s.calls = [.callback 0 7] ∧ s.heap.live 0 = true := ⟨_, rfl, rfl, rfl, rfl⟩

/-- A number without a sum: the task is called, and the loop thread is not woken to call it back. -/
example : ∃ s, taskMachine.exec (TaskManager.init (some 1) false 0)
    [.startup, .loop, .loop, .postTask 0 (some ⟨7, true, true⟩) true, .register 0, .register 0,
      .submit 0 none, .worker 0, .worker 0, .worker 0, .worker 0, .worker 0] = some s ∧
    s.workers 0 = .asleep ∧ s.loop.isNone ∧ s.wqAsync = true ∧ s.calls = [.callback 0 7] :=
  ⟨_, rfl, rfl, rfl, rfl, rfl⟩

end AnotherWs
