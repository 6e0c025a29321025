/-
Module: AnotherWs.Proofs.TaskRuns
Purpose: The runs of the task manager in which the posts take turns with each other and with the
  loop thread: nothing is freed twice or used after it was freed, and the functions of a task are
  called once each, in order.
Trusted boundary: none
Main exports: TaskManager.Sound, TaskManager.InLine, tasks_once
-/
import AnotherWs.Proofs.TaskList

namespace AnotherWs

open Heaps Machines Tallies

namespace TaskManager

/-- What holds in every state of every run. -/
structure Sound (s : TaskManager) : Prop where
  conserved : s.Conserved
  scheduled : s.Scheduled
  listed : s.Listed
  running : s.word ≠ 2 ^ 64 - 1 → s.aborted = false

variable {s s' : TaskManager}

theorem Sound.init (size : Option Nat) (bRunnig : Bool) (word : Nat) :
    (TaskManager.init size bRunnig word).Sound :=
  ⟨.init size bRunnig word, .init size bRunnig word, .init size bRunnig word, fun _ => rfl⟩

/-- The write to the eventfd. -/
theorem Sound.asyncWrite (sound : s.Sound) : s.asyncWrite.Sound := by
  obtain ⟨hconserved, hscheduled, hlisted, hrunning⟩ := sound
  unfold TaskManager.asyncWrite
  split
  · exact ⟨{ hconserved with }, { hscheduled with }, hlisted.keep rfl rfl rfl (Or.inr ⟨rfl, rfl⟩),
      fun h => absurd ‹_› h⟩
  · split
    · exact ⟨{ hconserved with }, { hscheduled with }, hlisted.keep rfl rfl rfl (Or.inr ⟨rfl, rfl⟩),
        hrunning⟩
    · exact ⟨hconserved, hscheduled, hlisted, hrunning⟩

theorem asyncWrite_workers (s : TaskManager) : s.asyncWrite.workers = s.workers ∧
    s.asyncWrite.nthreads = s.nthreads := by
  unfold TaskManager.asyncWrite
  split
  · exact ⟨rfl, rfl⟩
  · split <;> exact ⟨rfl, rfl⟩

theorem Sound.take (sound : s.Sound) {i k : Nat} (inside : i < s.nthreads)
    (free : (s.workers i).held = none)
    (counted : k + (s.workers i).idle = s.idleThreads) :
    ({ s with idleThreads := k }.take i).Sound := by
  have hcount : Conserved { s with idleThreads := k } := { sound.conserved with }
  refine ⟨hcount.take inside free, sound.scheduled.take inside counted, ?_, ?_⟩ <;>
    unfold TaskManager.take
  · split <;> exact sound.listed.keep rfl rfl rfl (Or.inr ⟨rfl, rfl⟩)
  · split <;> exact sound.running

/-- A thread that has nothing in its hands moves. -/
theorem Sound.setWorker (sound : s.Sound) {i : Nat} {w : Worker} (inside : i < s.nthreads)
    (held : w.held = (s.workers i).held) (ran : w.ran = (s.workers i).ran)
    (idle : w.idle = (s.workers i).idle) (awake : w ≠ .asleep) : (s.setWorker i w).Sound :=
  ⟨sound.conserved.setWorker inside held ran, sound.scheduled.setWorker inside idle awake,
    sound.listed.keep rfl rfl rfl (Or.inr ⟨rfl, rfl⟩), sound.running⟩

theorem Sound.work (sound : s.Sound) {i : Nat} (inside : i < s.nthreads) (step : WorkCase s i s') :
    s'.Sound := by
  cases step with
  | awake at_ => exact sound.take inside (by rw [at_]; rfl) (by rw [at_]; rfl)
  | signalled at_ =>
      refine sound.take inside (by rw [at_]; rfl) ?_
      have hle : (s.workers i).idle ≤ tally Worker.idle s.nthreads s.workers := weight_le_tally inside
      rw [← sound.scheduled.idle, at_] at hle
      rw [at_]
      exact Nat.sub_add_cancel hle
  | taken at_ =>
      exact ⟨sound.conserved.taskCallback inside at_, sound.scheduled.taskCallback inside at_,
        sound.listed.keep rfl rfl rfl (Or.inr ⟨rfl, rfl⟩), sound.running⟩
  | called at_ =>
      exact ⟨sound.conserved.giveBack inside at_, sound.scheduled.giveBack inside at_,
        sound.listed.keep rfl rfl rfl (Or.inr ⟨rfl, rfl⟩), sound.running⟩
  | sending at_ =>
      obtain ⟨hworkers, hthreads⟩ := s.asyncWrite_workers
      have hsending : s.asyncWrite.workers i = .sending := by rw [hworkers]; exact at_
      exact sound.asyncWrite.setWorker (hthreads ▸ inside) (by rw [hsending]; rfl)
        (by rw [hsending]; rfl)
        (by rw [hsending]; rfl) Worker.noConfusion

/-- Away from `uv__work_done` there is no batch. -/
theorem Sound.batch_nil (sound : s.Sound) {point : LoopPoint} (at_ : s.point = point)
    (other : point ≠ .workDone ∧ point ≠ .unlinking ∧ point ≠ .unlinked) : s.batch = [] := by
  by_contra h
  rcases sound.scheduled.batch h with hpoint | hpoint | hpoint <;> rw [at_] at hpoint
  · exact other.1 hpoint
  · exact other.2.1 hpoint
  · exact other.2.2 hpoint

/-- The loop thread goes on without a batch. -/
theorem Sound.go (sound : s.Sound) (bRunnig sendAsync stopFlag : Bool) (eventfd : Nat)
    (point : LoopPoint)
    (empty : s.batch = []) (steady : s.point ≠ .unlinking ∧ s.point ≠ .unlinked ∧ s.point ≠ .lock)
    (steady' : point ≠ .unlinking ∧ point ≠ .unlinked) :
    Sound { s with
      bRunnig := bRunnig
      sendAsync := sendAsync
      stopFlag := stopFlag
      eventfd := eventfd
      point := point } := by
  obtain ⟨hconserved, hscheduled, hlisted, hrunning⟩ := sound
  refine ⟨{ hconserved with }, { hscheduled with
    pending := fun h => ?_, batch := fun h => absurd empty h, removing := fun h => ?_ },
    hlisted.keep rfl rfl rfl (Or.inl ⟨⟨steady.1, steady.2.1⟩, steady'⟩), hrunning⟩
  · exact Or.inl ((hscheduled.pending h).resolve_right steady.2.2)
  · rcases h with h | h
    · exact absurd h steady'.1
    · exact absurd h steady'.2

/-- In the loop of `uv__work_done` the batch stays where it is. -/
theorem Scheduled.inBatch (scheduled : s.Scheduled) {point : LoopPoint} (at_ : s.point ≠ .lock)
    (point_eq : s'.point = point) (inside : point = .workDone ∨ point = .unlinking ∨ point = .unlinked)
    (workers : s'.workers = s.workers) (nthreads : s'.nthreads = s.nthreads)
    (idleThreads : s'.idleThreads = s.idleThreads) (wq : s'.wq = s.wq) (loopWq : s'.loopWq = s.loopWq)
    (wqAsync : s'.wqAsync = s.wqAsync) (removing : point = .unlinking ∨ point = .unlinked →
      s'.batch ≠ []) :
    s'.Scheduled where
  threads := nthreads ▸ scheduled.threads
  idle := by rw [idleThreads, workers, nthreads, scheduled.idle]
  awake := by
    rw [wq, workers, nthreads]
    exact scheduled.awake
  pending := by
    rw [loopWq, wqAsync]
    exact fun h => Or.inl ((scheduled.pending h).resolve_right at_)
  batch := fun _ => point_eq ▸ inside
  removing := point_eq ▸ removing

/-- One statement of the loop thread, while nobody registers a request and it takes one out. -/
theorem Sound.loop (sound : s.Sound) (turns : s.TakesTurns .loop) (step : LoopCase s s') :
    s'.Sound := by
  have hquiet : ∀ {point}, s.point = point →
      point ≠ .workDone ∧ point ≠ .unlinking ∧ point ≠ .unlinked → s.batch = [] := sound.batch_nil
  cases step with
  | refused at_ =>
      exact sound.go s.bRunnig s.sendAsync s.stopFlag s.eventfd _ (hquiet at_ (by simp))
        (by simp [at_]) (by simp)
  | entered at_ =>
      exact sound.go true s.sendAsync s.stopFlag s.eventfd _ (hquiet at_ (by simp)) (by simp [at_])
        (by simp)
  | stopped at_ =>
      exact sound.go s.bRunnig s.sendAsync false s.eventfd _ (hquiet at_ (by simp)) (by simp [at_])
        (by simp)
  | turned at_ | clear at_ =>
      exact sound.go s.bRunnig s.sendAsync s.stopFlag s.eventfd _ (hquiet at_ (by simp))
        (by simp [at_]) (by simp)
  | woken at_ =>
      exact sound.go s.bRunnig s.sendAsync s.stopFlag 0 _ (hquiet at_ (by simp)) (by simp [at_])
        (by simp)
  | pending at_ =>
      have hbatch := hquiet at_ (by simp)
      obtain ⟨hconserved, hscheduled, hlisted, hrunning⟩ := sound
      exact ⟨{ hconserved with },
        { hscheduled with
          pending := fun _ => Or.inr rfl
          batch := fun h => absurd hbatch h
          removing := fun h => (by simp at h) },
        hlisted.keep rfl rfl rfl (Or.inl (by simp [at_])), hrunning⟩
  | moved at_ =>
      -- the queue of the loop becomes the batch
      have hbatch := hquiet at_ (by simp)
      obtain ⟨hconserved, hscheduled, hlisted, hrunning⟩ := sound
      refine ⟨{ hconserved with held := fun req => ?_, ran := fun req => ?_ },
        { hscheduled with
          pending := fun h => absurd rfl h
          batch := fun _ => Or.inl rfl
          removing := fun h => (by simp at h) },
        hlisted.keep rfl rfl rfl (Or.inl (by simp [at_])), hrunning⟩
      · have hheld := hconserved.held req
        rw [hbatch, List.count_nil, Nat.add_zero] at hheld
        exact hheld
      · have hran := hconserved.ran req
        rw [hbatch, List.count_nil, Nat.add_zero] at hran
        exact hran
  | done at_ empty =>
      exact sound.go s.bRunnig s.sendAsync s.stopFlag s.eventfd _ empty (by simp [at_]) (by simp)
  | unregister at_ batch =>
      have hidle := turns at_ (by rw [batch]; exact List.cons_ne_nil _ _)
      obtain ⟨hunregister, hconserved, hlisted⟩ :=
        sound.listed.unregister sound.conserved hidle batch at_
      refine ⟨hconserved, ?_, hlisted, ?_⟩ <;> rw [hunregister]
      · exact sound.scheduled.inBatch (by simp [at_]) rfl (Or.inr (Or.inl rfl)) rfl rfl rfl rfl rfl rfl
          fun _ => by simp [batch]
      · exact sound.running
  | @unregisterBack req rest at_ batch =>
      obtain ⟨hconserved, hlisted⟩ := sound.listed.unregisterBack sound.conserved batch at_
      have hscheduled : (s.unregisterBack req).Scheduled :=
        sound.scheduled.inBatch (by simp [at_]) rfl (Or.inr (Or.inr rfl)) rfl rfl rfl rfl rfl rfl
          fun _ => by simp [TaskManager.unregisterBack, batch]
      exact ⟨hconserved, hscheduled, hlisted, sound.running⟩
  | calledBack at_ batch =>
      exact ⟨sound.conserved.afterTaskCallback batch _,
        sound.scheduled.inBatch (by simp [at_]) rfl (Or.inl rfl) rfl rfl rfl rfl rfl rfl
          fun h => (by rcases h with h | h <;> cases h),
        sound.listed.afterTaskCallback batch at_, sound.running⟩
  | visited at_ =>
      exact sound.go s.bRunnig false (s.stopFlag || s.sendAsync && s.sendData) s.eventfd _
        (hquiet at_ (by simp))
        (by simp [at_]) (by simp)

/-- **One step.** -/
theorem Sound.step (sound : s.Sound) {a : TaskAction} (turns : s.TakesTurns a)
    (step : s.step a = some s') :
    s'.Sound := by
  obtain ⟨-, hcase⟩ := step_cases step
  cases hcase with
  | startup at_ =>
      exact sound.go s.bRunnig s.sendAsync s.stopFlag s.eventfd _ (sound.batch_nil at_ (by simp))
        (by simp [at_])
        (by simp)
  | postTask free task memory =>
      refine ⟨sound.conserved.postTask free task memory, ?_,
        sound.listed.postTask sound.conserved turns, ?_⟩
      · cases memory <;> exact { sound.scheduled with }
      · cases memory <;> exact sound.running
  | @register thread post _ mine next =>
      obtain ⟨hconserved, hlisted⟩ := sound.listed.register sound.conserved mine next
      obtain ⟨req, point⟩ := post
      cases point with
      | prepared | linked =>
          cases next
          exact ⟨hconserved, { sound.scheduled with }, hlisted, sound.running⟩
      | registered => cases next
  | @submit thread post wake mine registered signals =>
      refine ⟨sound.conserved.submit mine signals, sound.scheduled.submit thread post signals, ?_, ?_⟩
      · have hbefore : ¬ s.Registering thread := by
          rintro ⟨other, hother, hat⟩
          rw [mine, Option.some.injEq] at hother
          exact hat (hother ▸ registered)
        have hmoved : (s.setPost thread none).Listed :=
          sound.listed.setPost_registered hbefore (fun t ht => setPost_of_ne none ht) fun post h => by
            rw [Function.update_self] at h
            cases h
        cases wake <;> exact hmoved.keep rfl rfl rfl (Or.inr ⟨rfl, rfl⟩)
      · cases wake <;> exact sound.running
  | worker inside next => exact sound.work inside next
  | wakeup inside asleep =>
      exact sound.setWorker inside (by rw [asleep]; rfl) (by rw [asleep]; rfl) (by rw [asleep]; rfl)
        Worker.noConfusion
  | loop next => exact sound.loop turns next
  | shutdown =>
      unfold TaskManager.shutdown
      split
      · exact ⟨{ sound.conserved with }, { sound.scheduled with },
          sound.listed.keep rfl rfl rfl (Or.inr ⟨rfl, rfl⟩), sound.running⟩
      · exact sound
  | write =>
      obtain ⟨hconserved, hscheduled, hlisted, hrunning⟩ := sound.asyncWrite
      exact ⟨{ hconserved with }, { hscheduled with }, hlisted.keep rfl rfl rfl (Or.inr ⟨rfl, rfl⟩),
        hrunning⟩

theorem Sound.exec {actions : List TaskAction} (sound : s.Sound)
    (turns : taskMachine.Guarded TakesTurns s actions)
    (run : taskMachine.exec s actions = some s') : s'.Sound :=
  Machine.exec_invariant Sound (fun _ _ _ h hturns hstep => h.step hturns hstep) sound turns run

/-! ### Once each -/

namespace Conserved

theorem ran_le_held (req : UvWork) : s.inHands Worker.ran req ≤ s.inHands Worker.held req := by
  refine tally_le_tally fun w => ?_
  cases w with
  | awake | asleep | signalled | called other | sending => exact Nat.le_refl _
  | taken other =>
      rw [isAt_of_none (rfl : (Worker.taken other).ran = none)]
      exact Nat.zero_le _

theorem called_count_le (conserved : s.Conserved) (req : UvWork) :
    s.called.count req ≤ s.begun.count req := by
  have hle := ran_le_held (s := s) req
  rw [conserved.ran, conserved.held]
  omega

theorem finished_count_le (conserved : s.Conserved) (req : UvWork) :
    s.finished.count req ≤ s.called.count req := by
  rw [conserved.ran]
  omega

theorem called_subset (conserved : s.Conserved) {req : UvWork} (mem : req ∈ s.called) :
    req ∈ s.posted :=
  conserved.mem_posted_of_begun (Nat.lt_of_lt_of_le (List.count_pos_iff.mpr mem)
    (conserved.called_count_le req))

theorem finished_subset_called (conserved : s.Conserved) {req : UvWork} (mem : req ∈ s.finished) :
    req ∈ s.called :=
  List.count_pos_iff.mp (Nat.lt_of_lt_of_le (List.count_pos_iff.mpr mem)
    (conserved.finished_count_le req))

theorem called_nodup (conserved : s.Conserved) : s.called.Nodup :=
  List.nodup_iff_count_le_one.mpr fun req => (conserved.called_count_le req).trans
    (conserved.begun_count_le req)

theorem finished_nodup (conserved : s.Conserved) : s.finished.Nodup :=
  List.nodup_iff_count_le_one.mpr fun req =>
    (conserved.finished_count_le req).trans (List.nodup_iff_count_le_one.mp conserved.called_nodup req)

end Conserved

end TaskManager

/-- The number of the request that a call is made for. -/
def TaskCall.request : TaskCall → Nat
  | .callback request _ | .afterCallback request _ => request

theorem UvWork.callbackCalls_spec (req : UvWork) :
    req.callbackCalls.Nodup ∧ ∀ call ∈ req.callbackCalls, call.request = req.request ∧ ∃ d, call =
      .callback req.request d := by
  unfold UvWork.callbackCalls
  split
  · simp
  · split <;> simp [TaskCall.request]

theorem UvWork.afterCalls_spec (req : UvWork) :
    req.afterCalls.Nodup ∧ ∀ call ∈ req.afterCalls, call.request = req.request ∧ ∃ task, call =
      .afterCallback req.request task := by
  unfold UvWork.afterCalls
  split
  · simp
  · split <;> simp [TaskCall.request]

namespace TaskManager

variable {s s' : TaskManager}

/-- The calls for different requests are different. -/
theorem Conserved.flatMap_nodup (conserved : s.Conserved) {reqs : List UvWork}
    {f : UvWork → List TaskCall} (nodup : reqs.Nodup) (posted : ∀ req ∈ reqs, req ∈ s.posted)
    (spec : ∀ req, (f req).Nodup ∧ ∀ call ∈ f req, call.request = req.request) :
    (reqs.flatMap f).Nodup := by
  refine List.nodup_flatMap.mpr ⟨fun req _ => (spec req).1, ?_⟩
  refine nodup.imp_of_mem fun {req other} hreq hother hne call hcall hcall' => ?_
  refine hne (conserved.request_inj (posted req hreq) (posted other hother) ?_)
  rw [← (spec req).2 call hcall, (spec other).2 call hcall']

theorem Conserved.calls_nodup (conserved : s.Conserved) : s.calls.Nodup := by
  rw [conserved.calls.nodup_iff, List.nodup_append]
  refine ⟨?_, ?_, ?_⟩
  · exact conserved.flatMap_nodup conserved.called_nodup (fun _ => conserved.called_subset)
      fun req => ⟨req.callbackCalls_spec.1, fun call h => (req.callbackCalls_spec.2 call h).1⟩
  · exact conserved.flatMap_nodup conserved.finished_nodup (fun _ => conserved.finished_subset)
      fun req => ⟨req.afterCalls_spec.1, fun call h => (req.afterCalls_spec.2 call h).1⟩
  · intro call hcall call' hcall' hsame
    obtain ⟨req, -, hcall⟩ := List.mem_flatMap.mp hcall
    obtain ⟨req', -, hcall'⟩ := List.mem_flatMap.mp hcall'
    obtain ⟨-, d, rfl⟩ := req.callbackCalls_spec.2 call hcall
    obtain ⟨-, task, rfl⟩ := req'.afterCalls_spec.2 call' hcall'
    cases hsame

/-! ### One thread -/

/-- With one thread the requests stand in one line. -/
structure InLine (s : TaskManager) : Prop where
  begun : s.begun = s.finished ++ s.batch ++ s.loopWq ++ (s.workers 0).held.toList
  called : s.called = s.finished ++ s.batch ++ s.loopWq ++ (s.workers 0).ran.toList

namespace InLine

theorem init (size : Option Nat) (bRunnig : Bool) (word : Nat) :
    (TaskManager.init size bRunnig word).InLine := ⟨rfl, rfl⟩

/-- The thread moves, and keeps what it has in its hands. -/
theorem setWorker (line : s.InLine) {w : Worker} (held : w.held = (s.workers 0).held)
    (ran : w.ran = (s.workers 0).ran) : (s.setWorker 0 w).InLine where
  begun := by
    show s.begun = s.finished ++ s.batch ++ s.loopWq ++ (Function.update s.workers 0 w 0).held.toList
    rw [Function.update_self, held, line.begun]
  called := by
    show s.called = s.finished ++ s.batch ++ s.loopWq ++ (Function.update s.workers 0 w 0).ran.toList
    rw [Function.update_self, ran, line.called]

theorem take (line : s.InLine) (free : (s.workers 0).held = none) : (s.take 0).InLine := by
  have hran : (s.workers 0).ran = none := by
    cases hw : s.workers 0 <;> rw [hw] at free <;> first | rfl | cases free
  by_cases hwq : s.wq = []
  · rw [take_of_nil hwq]
    have hcount : InLine { s with idleThreads := s.idleThreads + 1 } := { line with }
    exact hcount.setWorker (show Worker.asleep.held = (s.workers 0).held from free.symm)
      (show Worker.asleep.ran = (s.workers 0).ran from hran.symm)
  · obtain ⟨req, rest, hwq⟩ := List.exists_cons_of_ne_nil hwq
    rw [take_of_cons hwq]
    constructor
    · show s.begun ++ [req] = s.finished ++ s.batch ++ s.loopWq ++
        (Function.update s.workers 0 (.taken req) 0).held.toList
      rw [Function.update_self, line.begun, free, Option.toList_none, List.append_nil]
      rfl
    · show s.called = s.finished ++ s.batch ++ s.loopWq ++
        (Function.update s.workers 0 (.taken req) 0).ran.toList
      rw [Function.update_self, line.called, hran]
      rfl

theorem asyncWrite (line : s.InLine) : s.asyncWrite.InLine := by
  unfold TaskManager.asyncWrite
  split
  · exact { line with }
  · split <;> exact { line with }

theorem work (line : s.InLine) (step : WorkCase s 0 s') : s'.InLine := by
  cases step with
  | awake at_ => exact line.take (by rw [at_]; rfl)
  | signalled at_ =>
      have hcount : InLine { s with idleThreads := s.idleThreads - 1 } := { line with }
      refine hcount.take ?_
      show (s.workers 0).held = none
      rw [at_]
      rfl
  | @taken req at_ =>
      constructor
      · show s.begun = s.finished ++ s.batch ++ s.loopWq ++
          (Function.update s.workers 0 (.called req) 0).held.toList
        rw [Function.update_self, line.begun, at_]
        rfl
      · show s.called ++ [req] = s.finished ++ s.batch ++ s.loopWq ++
          (Function.update s.workers 0 (.called req) 0).ran.toList
        rw [Function.update_self, line.called, at_]
        simp [Worker.ran]
  | @called req at_ =>
      have hfree : (if s.wqAsync then Worker.awake else .sending).held = none := by split <;> rfl
      have hfree' : (if s.wqAsync then Worker.awake else .sending).ran = none := by split <;> rfl
      constructor
      · show s.begun = s.finished ++ s.batch ++ (s.loopWq ++ [req]) ++
          (Function.update s.workers 0 (if s.wqAsync then .awake else .sending) 0).held.toList
        rw [Function.update_self, line.begun, at_, hfree]
        simp [Worker.held]
      · show s.called = s.finished ++ s.batch ++ (s.loopWq ++ [req]) ++
          (Function.update s.workers 0 (if s.wqAsync then .awake else .sending) 0).ran.toList
        rw [Function.update_self, line.called, at_, hfree']
        simp [Worker.ran]
  | sending at_ =>
      obtain ⟨hworkers, -⟩ := s.asyncWrite_workers
      exact line.asyncWrite.setWorker (by rw [hworkers, at_]; rfl) (by rw [hworkers, at_]; rfl)

theorem loop (line : s.InLine) (sound : s.Sound) (step : LoopCase s s') : s'.InLine := by
  cases step with
  | moved at_ =>
      have hbatch := sound.batch_nil at_ (by simp)
      constructor
      · simpa [hbatch] using line.begun
      · simpa [hbatch] using line.called
  | unregister =>
      unfold TaskManager.unregister
      split <;> exact { line with }
  | @calledBack req rest _ batch =>
      constructor
      · show s.begun = (s.finished ++ [req]) ++ rest ++ s.loopWq ++ (s.workers 0).held.toList
        rw [line.begun, batch]
        simp
      · show s.called = (s.finished ++ [req]) ++ rest ++ s.loopWq ++ (s.workers 0).ran.toList
        rw [line.called, batch]
        simp
  | refused | entered | stopped | turned | woken | pending | clear | done | unregisterBack | visited =>
      exact { line with }

theorem step (line : s.InLine) (sound : s.Sound) (single : s.nthreads = 1) {a : TaskAction}
    (step : s.step a = some s') : s'.InLine := by
  have hzero : ∀ {i}, i < s.nthreads → i = 0 := fun h => by omega
  obtain ⟨-, hcase⟩ := step_cases step
  cases hcase with
  | startup => exact { line with }
  | postTask _ _ memory => cases memory <;> exact { line with }
  | @register _ post _ _ next =>
      obtain ⟨req, point⟩ := post
      cases point with
      | prepared | linked =>
          cases next
          exact { line with }
      | registered => cases next
  | @submit thread post wake _ _ signals =>
      have hqueued : InLine
          ({ s with wq := s.wq ++ [post.req], posted := s.posted ++ [post.req] }.setPost thread none) :=
        { line with }
      cases wake with
      | none => exact hqueued
      | some i =>
          obtain ⟨-, hinside, hasleep⟩ := signals
          obtain rfl := hzero hinside
          refine hqueued.setWorker ?_ ?_
          · show none = (s.workers 0).held
            rw [hasleep]
            rfl
          · show none = (s.workers 0).ran
            rw [hasleep]
            rfl
  | worker inside next =>
      obtain rfl := hzero inside
      exact line.work next
  | wakeup inside asleep =>
      obtain rfl := hzero inside
      exact line.setWorker (by rw [asleep]; rfl) (by rw [asleep]; rfl)
  | loop next => exact line.loop sound next
  | shutdown =>
      unfold TaskManager.shutdown
      split
      · exact { line with }
      · exact line
  | write => exact { line.asyncWrite with }

end InLine

/-- What no step changes: the threads of the pool, and what is written to the eventfd. -/
theorem step_constants {a : TaskAction} (step : s.step a = some s') :
    s'.nthreads = s.nthreads ∧ s'.word = s.word := by
  have hwrite : s.asyncWrite.nthreads = s.nthreads ∧ s.asyncWrite.word = s.word := by
    unfold TaskManager.asyncWrite
    split
    · exact ⟨rfl, rfl⟩
    · split <;> exact ⟨rfl, rfl⟩
  have htake : ∀ (t : TaskManager) (i : Nat), (t.take i).nthreads = t.nthreads ∧
      (t.take i).word = t.word := by
    intro t i
    unfold TaskManager.take
    split <;> exact ⟨rfl, rfl⟩
  obtain ⟨-, hcase⟩ := step_cases step
  cases hcase with
  | startup | wakeup => exact ⟨rfl, rfl⟩
  | postTask _ _ memory => cases memory <;> exact ⟨rfl, rfl⟩
  | @register _ post _ _ next =>
      obtain ⟨req, point⟩ := post
      cases point <;> cases next <;> exact ⟨rfl, rfl⟩
  | @submit _ _ wake => cases wake <;> exact ⟨rfl, rfl⟩
  | worker _ next =>
      cases next with
      | awake => exact htake s _
      | signalled => exact htake { s with idleThreads := s.idleThreads - 1 } _
      | taken | called => exact ⟨rfl, rfl⟩
      | sending => exact hwrite
  | loop next =>
      cases next with
      | unregister =>
          unfold TaskManager.unregister
          split <;> exact ⟨rfl, rfl⟩
      | refused | entered | stopped | turned | woken | pending | clear | moved | done | unregisterBack
      | calledBack | visited => exact ⟨rfl, rfl⟩
  | shutdown =>
      unfold TaskManager.shutdown
      split <;> exact ⟨rfl, rfl⟩
  | write => exact hwrite

theorem exec_constants {actions : List TaskAction} (run : taskMachine.exec s actions = some s') :
    s'.nthreads = s.nthreads ∧ s'.word = s.word :=
  Machine.exec_invariant_of_step (fun t => t.nthreads = s.nthreads ∧ t.word = s.word)
    (fun _ _ _ h hstep => ⟨(step_constants hstep).1.trans h.1, (step_constants hstep).2.trans h.2⟩)
      ⟨rfl, rfl⟩ run

theorem InLine.exec {actions : List TaskAction} (line : s.InLine) (sound : s.Sound)
    (single : s.nthreads = 1)
    (turns : taskMachine.Guarded TakesTurns s actions)
    (run : taskMachine.exec s actions = some s') : s'.InLine := by
  have hall : s'.Sound ∧ s'.nthreads = 1 ∧ s'.InLine :=
    Machine.exec_invariant (fun s => s.Sound ∧ s.nthreads = 1 ∧ s.InLine)
      (fun s a s' h hturns hstep => by
        obtain ⟨hsound, hsingle, hline⟩ := h
        exact ⟨hsound.step hturns hstep, (step_constants hstep).1.trans hsingle,
          hline.step hsound hsingle hstep⟩)
      ⟨sound, single, line⟩ turns run
  exact hall.2.2

end TaskManager

open TaskManager

/-- **Once each, in order.** In every state of every run in which no thread registers a request
while another one does or while the loop thread unregisters one, no request has been freed twice or
used after it was freed, and nothing has been aborted but by a write that the kernel refuses; the
functions of the tasks have been called once at most for each request, the second after the first;
the requests are taken in the order in which they were queued, and with one thread they are called
and called back in it. -/
theorem tasks_once {size : Option Nat} {bRunnig : Bool} {word : Nat} {actions : List TaskAction}
    {s : TaskManager} (run : taskMachine.exec (TaskManager.init size bRunnig word) actions = some s)
    (turns : taskMachine.Guarded TakesTurns (TaskManager.init size bRunnig word) actions) :
    s.heap.misused = false ∧ (word ≠ 2 ^ 64 - 1 → s.aborted = false) ∧ s.calls.Nodup ∧
      (∀ r d, .callback r d ∈ s.calls → ∃ req ∈ s.posted, .callback r d ∈ req.callbackCalls) ∧
      (∀ r task, .afterCallback r task ∈ s.calls →
        ∃ req ∈ s.posted, .afterCallback r task ∈ req.afterCalls ∧
        ∀ call ∈ req.callbackCalls, call ∈ s.calls) ∧
      s.begun <+: s.posted ∧ (initThreads size = 1 → s.called <+: s.posted ∧
        s.finished <+: s.posted) := by
  obtain ⟨hconserved, hscheduled, -, hrunning⟩ := (Sound.init size bRunnig word).exec turns run
  have hcalls : ∀ call, call ∈ s.calls ↔
      (∃ req ∈ s.called, call ∈ req.callbackCalls) ∨ ∃ req ∈ s.finished,
        call ∈ req.afterCalls := fun call => by
    rw [hconserved.calls.mem_iff, List.mem_append, List.mem_flatMap, List.mem_flatMap]
  have hbegun : s.begun <+: s.posted := ⟨s.wq, hconserved.queued.symm⟩
  have hword : s.word = word := (exec_constants run).2
  refine ⟨hconserved.sound, fun h => hrunning (hword ▸ h), hconserved.calls_nodup, fun r d h => ?_,
    fun r task h => ?_, hbegun, fun hone => ?_⟩
  · rcases (hcalls _).mp h with ⟨req, hreq, hcall⟩ | ⟨req, -, hcall⟩
    · exact ⟨req, hconserved.called_subset hreq, hcall⟩
    · obtain ⟨-, task, hafter⟩ := req.afterCalls_spec.2 _ hcall
      cases hafter
  · rcases (hcalls _).mp h with ⟨req, -, hcall⟩ | ⟨req, hreq, hcall⟩
    · obtain ⟨-, d, hcallback⟩ := req.callbackCalls_spec.2 _ hcall
      cases hcallback
    · refine ⟨req, hconserved.finished_subset hreq, hcall, fun call hbefore => ?_⟩
      exact (hcalls _).mpr (Or.inl ⟨req, hconserved.finished_subset_called hreq, hbefore⟩)
  · have hline := (InLine.init size bRunnig word).exec (Sound.init size bRunnig word) hone turns run
    have hfinished : s.finished <+: s.called :=
      ⟨_, by rw [hline.called, List.append_assoc, List.append_assoc]⟩
    have hcalled : s.called <+: s.begun := by
      rw [hline.called, hline.begun]
      cases hworker : s.workers 0 with
      | awake | asleep | signalled | called req | sending => exact List.prefix_rfl
      | taken req =>
          rw [Worker.ran, Option.toList_none, List.append_nil]
          exact List.prefix_append _ _
    exact ⟨hcalled.trans hbegun, hfinished.trans (hcalled.trans hbegun)⟩

/-! ### A run -/

namespace TaskManager

instance (s : TaskManager) (thread : Nat) : Decidable (s.Registering thread) :=
  decidable_of_iff (∃ post ∈ s.posts thread, post.point ≠ .registered) Iff.rfl

/-- `TakesTurns`, and the post is one of the first `n` threads. -/
def TakesTurnsAmong (n : Nat) (s : TaskManager) : TaskAction → Prop
  | .postTask thread _ memory =>
      thread < n ∧ (memory = false ∨ (∀ t < n, ¬ s.Registering t) ∧ s.point ≠ .unlinking)
  | .loop => s.point ≠ .workDone ∨ s.batch = [] ∨ ∀ t < n, ¬ s.Registering t
  | _ => True

instance (n : Nat) (s : TaskManager) : ∀ a, Decidable (TakesTurnsAmong n s a)
  | .postTask thread _ memory => inferInstanceAs (Decidable
      (thread < n ∧ (memory = false ∨ (∀ t < n, ¬ s.Registering t) ∧ s.point ≠ .unlinking)))
  | .loop =>
      inferInstanceAs (Decidable (s.point ≠ .workDone ∨ s.batch = [] ∨ ∀ t < n, ¬ s.Registering t))
  | .startup | .register _ | .submit _ _ | .worker _ | .wakeup _ | .shutdown | .write =>
      inferInstanceAs (Decidable True)

/-- The other threads post nothing. -/
theorem TakesTurnsAmong.step {n : Nat} {a : TaskAction} (idle : ∀ t, n ≤ t → s.posts t = none)
    (among : TakesTurnsAmong n s a)
    (step : s.step a = some s') : ∀ t, n ≤ t → s'.posts t = none := by
  have hset : ∀ (s₁ : TaskManager) {thread : Nat} (post : Option Post),
    (∀ t, n ≤ t → s₁.posts t = none) →
      (thread < n ∨ post = none) → ∀ t, n ≤ t → (s₁.setPost thread post).posts t = none := by
    intro s₁ thread post hidle hthread t ht
    by_cases hsame : t = thread
    · subst hsame
      rcases hthread with hlt | rfl
      · omega
      · exact setPost_self ..
    · exact (setPost_of_ne post hsame).trans (hidle t ht)
  have hwrite : s.asyncWrite.posts = s.posts := by
    unfold TaskManager.asyncWrite
    split
    · rfl
    · split <;> rfl
  obtain ⟨-, hcase⟩ := step_cases step
  cases hcase with
  | startup | wakeup => exact idle
  | postTask _ _ memory =>
      cases memory with
      | false => exact idle
      | true => exact hset _ _ idle (Or.inl among.1)
  | @register thread post _ mine next =>
      have hthread : thread < n := by
        by_contra h
        rw [idle thread (by omega)] at mine
        cases mine
      obtain ⟨req, point⟩ := post
      cases point with
      | prepared | linked =>
          cases next
          exact hset _ _ idle (Or.inl hthread)
      | registered => cases next
  | @submit thread post wake =>
      have hqueued : ∀ t, n ≤ t →
          ({ s with wq := s.wq ++ [post.req], posted := s.posted ++ [post.req] }.setPost thread
            none).posts t = none :=
        hset _ none idle (Or.inr rfl)
      cases wake <;> exact hqueued
  | worker _ next =>
      cases next with
      | awake | signalled =>
          unfold TaskManager.take
          split <;> exact idle
      | taken | called => exact idle
      | sending =>
          show ∀ t, n ≤ t → s.asyncWrite.posts t = none
          rw [hwrite]
          exact idle
  | loop next =>
      cases next with
      | unregister =>
          unfold TaskManager.unregister
          split <;> exact idle
      | refused | entered | stopped | turned | woken | pending | clear | moved | done | unregisterBack
      | calledBack | visited => exact idle
  | shutdown =>
      unfold TaskManager.shutdown
      split <;> exact idle
  | write =>
      show ∀ t, n ≤ t → s.asyncWrite.posts t = none
      rw [hwrite]
      exact idle

theorem TakesTurnsAmong.turns {n : Nat} {a : TaskAction} (idle : ∀ t, n ≤ t → s.posts t = none)
    (among : TakesTurnsAmong n s a) :
    s.TakesTurns a := by
  have hall : (∀ t < n, ¬ s.Registering t) → ∀ t, ¬ s.Registering t := by
    rintro h t ⟨post, hpost, hat⟩
    by_cases ht : t < n
    · exact h t ht ⟨post, hpost, hat⟩
    · rw [idle t (by omega)] at hpost
      cases hpost
  cases a with
  | postTask thread task memory =>
      rintro rfl
      obtain ⟨hidle, hpoint⟩ := among.2.resolve_left Bool.noConfusion
      exact ⟨hall hidle, hpoint⟩
  | loop =>
      intro hpoint hbatch
      exact hall ((among.resolve_left (not_not_intro hpoint)).resolve_left hbatch)
  | startup | register | submit | worker | wakeup | shutdown | write => trivial

theorem takesTurns_of_among {n : Nat} {size : Option Nat} {bRunnig : Bool} {word : Nat}
    {actions : List TaskAction}
    (among : taskMachine.Guarded (TakesTurnsAmong n) (TaskManager.init size bRunnig word) actions) :
    taskMachine.Guarded TakesTurns (TaskManager.init size bRunnig word) actions :=
  among.of_invariant (fun s => ∀ t, n ≤ t → s.posts t = none)
    (fun _ _ _ h hguard hstep => hguard.step h hstep)
    (fun _ _ h hguard => hguard.turns h) fun _ _ => rfl

end TaskManager

/-- Two threads post a task each, to a pool of two threads. The second post begins before the first
task has been called, and its request is in the list when the first one is taken out. -/
def sampleTasks : List TaskAction :=
  [.startup, .loop, .loop, .postTask 0 (some ⟨7, true, true⟩) true, .register 0, .register 0,
    .submit 0 none, .postTask 1 (some ⟨8, true, true⟩) true, .worker 0, .register 1, .worker 0,
    .register 1, .worker 0, .worker 0, .submit 1 none, .worker 1, .loop, .loop, .loop, .loop,
    .worker 1, .loop, .loop, .worker 1, .loop, .worker 1, .loop, .loop, .loop, .loop, .loop, .loop,
    .loop, .loop, .loop, .loop, .loop, .worker 0, .worker 1]

theorem sampleTasks_turns :
    taskMachine.Guarded TakesTurns (TaskManager.init (some 2) false 256) sampleTasks :=
  have hamong : taskMachine.Guarded (TakesTurnsAmong 2) (TaskManager.init (some 2) false 256)
      sampleTasks := by decide
  takesTurns_of_among hamong

theorem sampleTasks_run :
    ∃ s, taskMachine.exec (TaskManager.init (some 2) false 256) sampleTasks = some s ∧
      s.calls = [.callback 0 7, .callback 1 8, .afterCallback 0 ⟨7, true, true⟩,
        .afterCallback 1 ⟨8, true, true⟩] ∧
      s.point = .poll ∧ s.eventfd = 0 ∧ s.owed = 0 ∧ s.nthreads = 2 ∧ s.workers 0 = .asleep ∧
      s.workers 1 = .asleep ∧ ∀ t, s.posts t = none :=
  ⟨_, rfl, rfl, rfl, rfl, rfl, rfl, rfl, rfl,
    fun t => match t with | 0 => rfl | 1 => rfl | _ + 2 => rfl⟩

theorem tasks_once_two :
    ∃ s, taskMachine.exec (TaskManager.init (some 2) false 256) sampleTasks = some s ∧
      s.calls = [.callback 0 7, .callback 1 8, .afterCallback 0 ⟨7, true, true⟩,
        .afterCallback 1 ⟨8, true, true⟩] ∧
      s.heap.misused = false ∧ s.aborted = false ∧ s.calls.Nodup ∧ s.begun <+: s.posted := by
  obtain ⟨s, hrun, hcalls, -⟩ := sampleTasks_run
  obtain ⟨hsound, hrunning, hnodup, -, -, hbegun, -⟩ := tasks_once hrun sampleTasks_turns
  exact ⟨s, hrun, hcalls, hsound, hrunning (by decide), hnodup, hbegun⟩

/-- A thread has read the last request of the list when the loop thread takes that one out and frees
it. -/
example : ∃ s, taskMachine.exec (TaskManager.init (some 2) false 256)
    [.startup, .loop, .loop, .postTask 0 (some ⟨7, true, true⟩) true, .register 0, .register 0,
      .submit 0 none, .worker 0, .worker 0, .worker 0, .worker 0, .loop, .loop, .loop,
      .postTask 1 (some ⟨8, true, true⟩) true, .loop, .loop, .loop, .register 1] = some s ∧
    s.heap.misused = true := ⟨_, rfl, rfl⟩

end AnotherWs
