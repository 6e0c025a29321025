/-
Module: AnotherWs.Proofs.TaskList
Purpose: The list active_reqs of the loop, which no lock protects: as long as no thread registers a
  request while another one does or while the loop thread unregisters one, every statement on it
  goes to live requests, the assertion of uv__req_unregister holds, and the list is that of the live
  requests.
Trusted boundary: none
Main exports: TaskManager.Registering, TaskManager.TakesTurns, TaskManager.Listed
-/
import AnotherWs.Proofs.Tasks

namespace AnotherWs

open Heaps Queues

namespace TaskManager

/-- The thread is between the statements of `uv__req_register`. -/
def Registering (s : TaskManager) (thread : Nat) : Prop :=
  ∃ post, s.posts thread = some post ∧ post.point ≠ .registered

/-- No thread registers a request while another one does, or while the loop thread unregisters one. -/
def TakesTurns (s : TaskManager) : TaskAction → Prop
  | .postTask _ _ memory => memory = true → (∀ t, ¬ s.Registering t) ∧ s.point ≠ .unlinking
  | .loop => s.point = .workDone → s.batch ≠ [] → ∀ t, ¬ s.Registering t
  | _ => True

/-- The ring is the list of these requests, but for what the one thread that is at it has done to it. -/
inductive Shaped (s : TaskManager) (l : List Nat) : Prop
  | whole (idle : ∀ t, ¬ s.Registering t) (point : s.point ≠ .unlinking) (holds : s.activeReqs.Holds l)
  | prepared {thread : Nat} {req : UvWork} {base : Queue Nat}
      (post : s.posts thread = some ⟨req, .prepared⟩)
      (only : ∀ t, s.Registering t → t = thread) (point : s.point ≠ .unlinking) (holds : base.Holds l)
      (ring : s.activeReqs = base.prepare req.request)
  | linked {thread : Nat} {req : UvWork} {base : Queue Nat}
      (post : s.posts thread = some ⟨req, .linked⟩)
      (only : ∀ t, s.Registering t → t = thread) (point : s.point ≠ .unlinking) (holds : base.Holds l)
      (ring : s.activeReqs = (base.prepare req.request).link req.request)
  | unlinking {req : UvWork} {rest : List UvWork} {base : Queue Nat} (idle : ∀ t, ¬ s.Registering t)
      (point : s.point = .unlinking) (batch : s.batch = req :: rest) (holds : base.Holds l)
      (mem : req.request ∈ l) (ring : s.activeReqs = base.skip req.request)

/-- A live request that is not being registered, and that the loop thread has not just taken out. -/
structure Member (s : TaskManager) (r : Nat) : Prop where
  live : s.heap.live r = true
  registered : ∀ {t post}, s.posts t = some post → post.point ≠ .registered → post.req.request ≠ r
  inside : ∀ {req rest}, s.point = .unlinked → s.batch = req :: rest → req.request ≠ r

/-- The list is that of the members. -/
def Listed (s : TaskManager) : Prop := ∃ l, s.Shaped l ∧ ∀ r, r ∈ l ↔ s.Member r

variable {s s' : TaskManager} {l : List Nat}

/-! ### Steps that leave the list alone -/

theorem Shaped.congr (shaped : s.Shaped l) (posts : s'.posts = s.posts)
    (ring : s'.activeReqs = s.activeReqs)
    (point : s.point ≠ .unlinking ∧ s'.point ≠ .unlinking ∨ s'.point = s.point ∧ s'.batch = s.batch) :
    s'.Shaped l := by
  have hregistering : ∀ t, s'.Registering t ↔ s.Registering t := fun t => by
    rw [Registering, posts]; rfl
  have hpoint : s.point ≠ .unlinking → s'.point ≠ .unlinking := by
    rcases point with ⟨-, h⟩ | ⟨h, -⟩
    · exact fun _ => h
    · exact fun hs => h ▸ hs
  cases shaped with
  | whole idle point holds =>
      exact .whole (fun t h => idle t ((hregistering t).mp h)) (hpoint point) (ring ▸ holds)
  | prepared post only point holds eq =>
      exact .prepared (posts ▸ post) (fun t h => only t ((hregistering t).mp h))
        (hpoint point) holds (ring ▸ eq)
  | linked post only point holds eq =>
      exact .linked (posts ▸ post) (fun t h => only t ((hregistering t).mp h)) (hpoint point) holds
        (ring ▸ eq)
  | unlinking idle at_ batch holds mem eq =>
      rcases point with ⟨h, -⟩ | ⟨hsame, hbatch⟩
      · exact absurd at_ h
      · exact .unlinking (fun t h => idle t ((hregistering t).mp h)) (hsame ▸ at_)
          (hbatch ▸ batch) holds mem
          (ring ▸ eq)

theorem Member.congr {r : Nat} (posts : s'.posts = s.posts) (live : s'.heap.live r = s.heap.live r)
    (point : s.point ≠ .unlinked ∧ s'.point ≠ .unlinked ∨ s'.point = s.point ∧ s'.batch = s.batch) :
    s'.Member r ↔ s.Member r := by
  rcases point with ⟨hs, hs'⟩ | ⟨hpoint, hbatch⟩
  · refine ⟨fun h => ⟨live ▸ h.live, fun hpost => h.registered (posts ▸ hpost), fun h _ => absurd h hs⟩,
      fun h => ⟨live.trans h.live, fun hpost => h.registered (posts ▸ hpost), fun h _ => absurd h hs'⟩⟩
  · refine ⟨fun h => ⟨live ▸ h.live, fun hpost => h.registered (posts ▸ hpost),
        fun hs hb => h.inside (hpoint.trans hs) (hbatch.trans hb)⟩,
      fun h => ⟨live.trans h.live, fun hpost => h.registered (posts ▸ hpost),
        fun hs hb => h.inside (hpoint.symm.trans hs) (hbatch.symm.trans hb)⟩⟩

theorem Listed.keep (listed : s.Listed) (posts : s'.posts = s.posts)
    (ring : s'.activeReqs = s.activeReqs) (live : s'.heap.live = s.heap.live)
    (point : (s.point ≠ .unlinking ∧ s.point ≠ .unlinked) ∧ s'.point ≠ .unlinking ∧
      s'.point ≠ .unlinked ∨
      s'.point = s.point ∧ s'.batch = s.batch) : s'.Listed := by
  obtain ⟨l, hshaped, hmembers⟩ := listed
  refine ⟨l, hshaped.congr posts ring (point.imp_left fun h => ⟨h.1.1, h.2.1⟩), fun r => ?_⟩
  rw [hmembers, Member.congr posts (congrFun live r) (point.imp_left fun h => ⟨h.1.2, h.2.2⟩)]

theorem Listed.init (size : Option Nat) (bRunnig : Bool) (word : Nat) :
    (TaskManager.init size bRunnig word).Listed := by
  refine ⟨[], .whole (fun t h => ?_) LoopPoint.noConfusion .empty,
    fun r => ⟨fun h => (by cases h), fun h => ?_⟩⟩
  · obtain ⟨post, hpost, -⟩ := h
    cases hpost
  · cases h.live

/-! ### Registration -/

@[simp] theorem touch_live (heap : Heap Nat) (node : Option Nat) :
    (touch heap node).live = heap.live := by
  cases node <;> rfl

theorem setPost_self (thread : Nat) (post : Option Post) :
    (s.setPost thread post).posts thread = post :=
  Function.update_self ..

theorem setPost_of_ne {thread t : Nat} (post : Option Post) (other : t ≠ thread) :
    (s.setPost thread post).posts t = s.posts t := Function.update_of_ne other ..

theorem setPost_cases {thread t : Nat} {post : Option Post} {p : Post}
    (h : (s.setPost thread post).posts t = some p) :
    t = thread ∧ post = some p ∨ t ≠ thread ∧ s.posts t = some p := by
  by_cases ht : t = thread
  · subst ht
    rw [setPost_self] at h
    exact Or.inl ⟨rfl, h⟩
  · rw [setPost_of_ne post ht] at h
    exact Or.inr ⟨ht, h⟩

/-- A thread that is at the list is the only one. -/
theorem Shaped.of_idle (shaped : s.Shaped l) (idle : ∀ t, ¬ s.Registering t)
    (point : s.point ≠ .unlinking) :
    s.activeReqs.Holds l := by
  cases shaped with
  | whole _ _ holds => exact holds
  | prepared post => exact absurd ⟨_, post, PostPoint.noConfusion⟩ (idle _)
  | linked post => exact absurd ⟨_, post, PostPoint.noConfusion⟩ (idle _)
  | unlinking _ at_ => exact absurd at_ point

theorem Listed.postTask (listed : s.Listed) (conserved : s.Conserved) {thread : Nat}
    {task : Option CTask} {memory : Bool} (turns : s.TakesTurns (.postTask thread task memory)) :
    (s.postTask thread task memory).Listed := by
  cases memory with
  | false => exact listed
  | true =>
      obtain ⟨hidle, hpoint⟩ := turns rfl
      obtain ⟨l, hshaped, hmembers⟩ := listed
      have hposts : ∀ {t post}, (s.postTask thread task true).posts t = some post →
          t = thread ∧ some ⟨⟨s.requests, task⟩, .prepared⟩ = some post ∨
            t ≠ thread ∧ s.posts t = some post :=
        fun h => setPost_cases h
      have hmine : (s.postTask thread task true).posts thread = some ⟨⟨s.requests, task⟩, .prepared⟩ :=
        Function.update_self ..
      refine ⟨l, .prepared hmine (fun t h => ?_) hpoint (hshaped.of_idle hidle hpoint) rfl, fun r => ?_⟩
      · obtain ⟨post, hpost, hat⟩ := h
        rcases hposts hpost with ⟨ht, -⟩ | ⟨-, hold⟩
        · exact ht
        · exact absurd ⟨post, hold, hat⟩ (hidle t)
      · rw [hmembers]
        have hlive : (s.postTask thread task true).heap.live r = (s.heap.alloc s.requests).live r := rfl
        constructor
        · intro h
          have hlt := conserved.live_lt h.live
          refine ⟨?_, fun hpost hat => ?_, h.inside⟩
          · rw [hlive, Heap.live_alloc_of_ne _ (Nat.ne_of_lt hlt)]
            exact h.live
          · rcases hposts hpost with ⟨-, hnew⟩ | ⟨-, hold⟩
            · cases hnew
              exact Nat.ne_of_gt hlt
            · exact h.registered hold hat
        · intro h
          have hne : r ≠ s.requests := fun hr => h.registered hmine PostPoint.noConfusion hr.symm
          refine ⟨?_, fun {t post} hpost hat => absurd ⟨post, hpost, hat⟩ (hidle t), h.inside⟩
          rw [← Heap.live_alloc_of_ne s.heap hne]
          exact h.live

/-- A posting thread moves, and is not registering, before or after. -/
theorem Listed.setPost_registered (listed : s.Listed) {thread : Nat} (before : ¬ s.Registering thread)
    {posts : Nat → Option Post} (others : ∀ t, t ≠ thread → posts t = s.posts t)
    (after : ∀ post, posts thread = some post → post.point = .registered) :
    Listed { s with posts := posts } := by
  obtain ⟨l, hshaped, hmembers⟩ := listed
  have hregistering : ∀ t, Registering { s with posts := posts } t ↔ s.Registering t := by
    intro t
    by_cases ht : t = thread
    · subst ht
      exact iff_of_false (fun ⟨post, hpost, hat⟩ => hat (after post hpost)) before
    · show (∃ post, posts t = some post ∧ post.point ≠ .registered) ↔ _
      rw [others t ht]
      rfl
  have hother : ∀ {t post}, s.posts t = some post → post.point ≠ .registered → posts t = some post := by
    intro t post hpost hat
    rw [others t fun ht => before (ht ▸ ⟨post, hpost, hat⟩)]
    exact hpost
  refine ⟨l, ?_, fun r => ?_⟩
  · cases hshaped with
    | whole idle point holds => exact .whole (fun t h => idle t ((hregistering t).mp h)) point holds
    | prepared post only point holds eq =>
        exact .prepared (hother post PostPoint.noConfusion)
          (fun t h => only t ((hregistering t).mp h)) point holds eq
    | linked post only point holds eq =>
        exact .linked (hother post PostPoint.noConfusion)
          (fun t h => only t ((hregistering t).mp h)) point holds eq
    | unlinking idle point batch holds mem eq =>
        exact .unlinking (fun t h => idle t ((hregistering t).mp h)) point batch holds mem eq
  · rw [hmembers]
    refine ⟨fun h => ⟨h.live, fun {t post} hpost hat => ?_, h.inside⟩,
      fun h => ⟨h.live, fun hpost hat => h.registered (hother hpost hat) hat, h.inside⟩⟩
    have ht : t ≠ thread := fun ht => hat (after post (ht ▸ hpost))
    exact h.registered ((others t ht).symm.trans hpost) hat

/-- The one thread that is registering. -/
theorem Shaped.of_registering (shaped : s.Shaped l) {thread : Nat} {post : Post}
    (mine : s.posts thread = some post) (at_ : post.point ≠ .registered) :
    (∀ t, s.Registering t → t = thread) ∧ s.point ≠ .unlinking ∧ ∃ base : Queue Nat, base.Holds l ∧
      (post.point = .prepared → s.activeReqs = base.prepare post.req.request) ∧
      (post.point = .linked → s.activeReqs =
        (base.prepare post.req.request).link post.req.request) := by
  cases shaped with
  | whole idle | unlinking idle => exact absurd ⟨post, mine, at_⟩ (idle thread)
  | prepared theirs only point holds ring =>
      obtain rfl := only thread ⟨post, mine, at_⟩
      rw [mine, Option.some.injEq] at theirs
      subst theirs
      exact ⟨only, point, _, holds, fun _ => ring, fun h => (by cases h)⟩
  | linked theirs only point holds ring =>
      obtain rfl := only thread ⟨post, mine, at_⟩
      rw [mine, Option.some.injEq] at theirs
      subst theirs
      exact ⟨only, point, _, holds, fun h => (by cases h), fun _ => ring⟩

theorem Conserved.live_of_posting (conserved : s.Conserved) {thread : Nat} {req : UvWork}
    (posting : s.Posting thread req) : s.heap.live req.request = true :=
  (conserved.live _).mpr (Or.inr ⟨thread, req, posting, rfl⟩)

/-- The last request is made to point to the new one: it is in the list, so it is live. -/
theorem Listed.link (listed : s.Listed) (conserved : s.Conserved) {thread : Nat} {req : UvWork}
    (mine : s.posts thread = some ⟨req, .prepared⟩)
    (step : s.register thread ⟨req, .prepared⟩ = some s') : s'.Conserved ∧ s'.Listed := by
  have hposting : s.Posting thread req := ⟨_, mine, rfl⟩
  have hlive := conserved.live_of_posting hposting
  obtain ⟨l, hshaped, hmembers⟩ := listed
  cases step
  obtain ⟨honly, hpoint, base, hholds, hring, -⟩ :=
    hshaped.of_registering mine PostPoint.noConfusion
  have hring := hring rfl
  have hprev : s.activeReqs.prev (some req.request) = base.prev none := by
    rw [hring]
    exact Function.update_self ..
  constructor
  · -- the predecessor is in the list
    have htouch := (conserved.use hlive).touch (s.activeReqs.prev (some req.request)) fun r hr =>
      ((hmembers r).mp (hholds.last_mem (hprev ▸ hr))).live
    have hlinked : Conserved { s with
        heap := touch (s.heap.use req.request) (s.activeReqs.prev (some req.request))
        activeReqs := s.activeReqs.link req.request } := { htouch with }
    exact hlinked.setPost hposting _
  · refine ⟨l, .linked (setPost_self ..) (fun t h => ?_) hpoint hholds
      (congrArg (Queue.link · req.request) hring),
      fun r => ?_⟩
    · obtain ⟨p, hp, hat⟩ := h
      rcases setPost_cases hp with ⟨ht, -⟩ | ⟨-, hold⟩
      · exact ht
      · exact honly t ⟨p, hold, hat⟩
    · rw [hmembers]
      constructor
      · intro h
        refine ⟨by simpa [setPost] using h.live, fun hp hat => ?_, h.inside⟩
        rcases setPost_cases hp with ⟨-, hnew⟩ | ⟨-, hold⟩
        · cases hnew
          show req.request ≠ r
          exact h.registered mine PostPoint.noConfusion
        · exact h.registered hold hat
      · intro h
        refine ⟨by simpa [setPost] using h.live, fun {t p} hp hat => ?_, h.inside⟩
        obtain rfl := honly t ⟨p, hp, hat⟩
        rw [mine, Option.some.injEq] at hp
        subst hp
        show req.request ≠ r
        exact h.registered (setPost_self t (some ⟨req, .linked⟩)) PostPoint.noConfusion

/-- The list is closed behind the new request, which is in it then. -/
theorem Listed.close (listed : s.Listed) (conserved : s.Conserved) {thread : Nat} {req : UvWork}
    (mine : s.posts thread = some ⟨req, .linked⟩)
    (step : s.register thread ⟨req, .linked⟩ = some s') : s'.Conserved ∧ s'.Listed := by
  have hposting : s.Posting thread req := ⟨_, mine, rfl⟩
  have hlive := conserved.live_of_posting hposting
  obtain ⟨l, hshaped, hmembers⟩ := listed
  cases step
  obtain ⟨honly, hpoint, base, hholds, -, hring⟩ :=
    hshaped.of_registering mine PostPoint.noConfusion
  have hring := hring rfl
  have hfresh : req.request ∉ l := fun h =>
    ((hmembers _).mp h).registered mine PostPoint.noConfusion rfl
  have hidle : ∀ {t p}, (s.setPost thread (some ⟨req, .registered⟩)).posts t = some p →
      p.point = .registered := by
    intro t p hp
    by_contra hat
    rcases setPost_cases hp with ⟨-, hnew⟩ | ⟨ht, hold⟩
    · cases hnew
      exact hat rfl
    · exact ht (honly t ⟨p, hold, hat⟩)
  constructor
  · have hclosed : Conserved { s with activeReqs := s.activeReqs.close req.request } :=
      { conserved with }
    exact hclosed.setPost hposting _
  · refine ⟨l ++ [req.request], .whole (fun t h => ?_) hpoint ?_, fun r => ?_⟩
    · obtain ⟨p, hp, hat⟩ := h
      exact hat (hidle hp)
    · show (s.activeReqs.close req.request).Holds (l ++ [req.request])
      rw [hring]
      exact hholds.insert hfresh
    · rw [List.mem_append, List.mem_singleton, hmembers]
      constructor
      · rintro (h | rfl)
        · exact ⟨h.live, fun hp hat => absurd (hidle hp) hat, h.inside⟩
        · refine ⟨hlive, fun hp hat => absurd (hidle hp) hat, fun {other rest} _ hbatch hsame => ?_⟩
          have hposted : other ∈ s.posted := by
            refine (conserved.live_of_elsewhere ?_).1
            rw [show s.batch = other :: rest from hbatch, List.count_cons_self]
            omega
          exact (conserved.posting hposting).2 other hposted hsame
      · intro h
        by_cases hr : r = req.request
        · exact Or.inr hr
        · refine Or.inl ⟨h.live, fun {t p} hp hat => ?_, h.inside⟩
          obtain rfl := honly t ⟨p, hp, hat⟩
          rw [mine, Option.some.injEq] at hp
          subst hp
          exact Ne.symm hr

/-- **Registration.** The statement goes to live requests, and the last one puts the request into
the list. -/
theorem Listed.register (listed : s.Listed) (conserved : s.Conserved) {thread : Nat} {post : Post}
    (mine : s.posts thread = some post) (step : s.register thread post = some s') :
    s'.Conserved ∧ s'.Listed := by
  obtain ⟨req, point⟩ := post
  cases point with
  | prepared => exact listed.link conserved mine step
  | linked => exact listed.close conserved mine step
  | registered => cases step

/-! ### The loop thread -/

/-- The head of a batch is in the list, unless it has just been taken out. -/
theorem Listed.member_head (conserved : s.Conserved) {req : UvWork} {rest : List UvWork}
    (batch : s.batch = req :: rest) (point : s.point ≠ .unlinked) : s.Member req.request := by
  have hpos : 0 < s.batch.count req + s.loopWq.count req + s.inHands Worker.held req := by
    rw [batch, List.count_cons_self]
    omega
  obtain ⟨hmem, -, hlive⟩ := conserved.live_of_elsewhere hpos
  refine ⟨hlive, fun {t post} hpost _ => ?_, fun h => absurd h point⟩
  exact fun hsame => (conserved.posting ⟨post, hpost, rfl⟩).2 req hmem hsame.symm

/-- **Taking out.** The assertion holds, and the first statement goes to live requests. -/
theorem Listed.unregister (listed : s.Listed) (conserved : s.Conserved) (idle : ∀ t, ¬ s.Registering t)
    {req : UvWork} {rest : List UvWork} (batch : s.batch = req :: rest) (point : s.point = .workDone) :
    s.unregister req = { s with
        heap := touch (s.heap.use req.request) (s.activeReqs.prev (some req.request))
        activeReqs := s.activeReqs.skip req.request
        point := .unlinking } ∧
      (s.unregister req).Conserved ∧ (s.unregister req).Listed := by
  have hmember := Listed.member_head conserved batch (by rw [point]; exact LoopPoint.noConfusion)
  obtain ⟨l, hshaped, hmembers⟩ := listed
  have hholds := hshaped.of_idle idle (by rw [point]; exact LoopPoint.noConfusion)
  have hin : req.request ∈ l := (hmembers _).mpr hmember
  have hhead : s.activeReqs.next none ≠ none := fun h => by
    rw [hholds.next_head.mp h] at hin
    cases hin
  refine ⟨if_neg hhead, ?_⟩
  rw [TaskManager.unregister, if_neg hhead]
  have htouch := (conserved.use hmember.live).touch (s.activeReqs.prev (some req.request)) fun r hr =>
    ((hmembers r).mp ((hholds.neighbours hin).2 r hr).1).live
  refine ⟨{ htouch with }, l, .unlinking idle rfl batch hholds hin rfl, fun r => ?_⟩
  rw [hmembers]
  apply Iff.symm
  apply Member.congr
  · rfl
  · simp
  · left
    rw [point]
    exact ⟨LoopPoint.noConfusion, LoopPoint.noConfusion⟩

/-- The second statement goes to live requests, and the request is out of the list. -/
theorem Listed.unregisterBack (listed : s.Listed) (conserved : s.Conserved) {req : UvWork}
    {rest : List UvWork} (batch : s.batch = req :: rest) (point : s.point = .unlinking) :
    (s.unregisterBack req).Conserved ∧ (s.unregisterBack req).Listed := by
  have hmember := Listed.member_head conserved batch (by rw [point]; exact LoopPoint.noConfusion)
  obtain ⟨l, hshaped, hmembers⟩ := listed
  cases hshaped with
  | whole _ other | prepared _ _ other | linked _ _ other => exact absurd point other
  | @unlinking req' rest' base idle _ batch' holds mem ring =>
      rw [batch, List.cons.injEq] at batch'
      obtain ⟨rfl, rfl⟩ := batch'
      have hapart : some req.request ≠ base.prev (some req.request) := fun h =>
        ((holds.neighbours mem).2 _ h.symm).2 rfl
      have hnext : s.activeReqs.next (some req.request) = base.next (some req.request) := by
        rw [ring]
        exact Function.update_of_ne hapart _ _
      have htouch := (conserved.use hmember.live).touch
        (s.activeReqs.next (some req.request)) fun r hr =>
        ((hmembers r).mp ((holds.neighbours mem).1 r (hnext ▸ hr)).1).live
      refine ⟨{ htouch with }, l.erase req.request, .whole idle LoopPoint.noConfusion ?_, fun r => ?_⟩
      · show (s.activeReqs.skipBack req.request).Holds (l.erase req.request)
        rw [ring]
        exact holds.remove mem
      · rw [holds.nodup.mem_erase_iff, hmembers]
        constructor
        · rintro ⟨hr, h⟩
          refine ⟨by simpa [TaskManager.unregisterBack] using h.live, h.registered,
            fun {other rest'} _ hbatch => ?_⟩
          rw [show s.batch = other :: rest' from hbatch, List.cons.injEq] at batch
          rw [batch.1]
          exact Ne.symm hr
        · intro h
          refine ⟨Ne.symm (h.inside rfl batch), by
            simpa [TaskManager.unregisterBack] using h.live, h.registered,
            fun hpoint => ?_⟩
          rw [point] at hpoint
          cases hpoint

/-- The request that is out of the list is freed. -/
theorem Listed.afterTaskCallback (listed : s.Listed) {req : UvWork} {rest : List UvWork}
    (batch : s.batch = req :: rest) (point : s.point = .unlinked) :
    ({ s with batch := rest, point := .workDone }.afterTaskCallback req).Listed := by
  obtain ⟨l, hshaped, hmembers⟩ := listed
  refine ⟨l, hshaped.congr rfl rfl (Or.inl
    ⟨by rw [point]; exact LoopPoint.noConfusion, LoopPoint.noConfusion⟩),
    fun r => ?_⟩
  rw [hmembers]
  have hlive : ({ s with batch := rest, point := .workDone }.afterTaskCallback req).heap.live r =
      ((s.heap.use req.request).free req.request).live r := rfl
  constructor
  · intro h
    refine ⟨?_, h.registered, fun hpoint => (by cases hpoint)⟩
    rw [hlive, Heap.live_free_of_ne _ (h.inside point batch).symm]
    exact h.live
  · intro h
    have hne : r ≠ req.request := by
      rintro rfl
      have hdead := h.live
      rw [hlive, Heap.live_free_self] at hdead
      cases hdead
    refine ⟨?_, h.registered, fun {other rest'} _ hbatch => ?_⟩
    · rw [← Heap.live_use s.heap, ← Heap.live_free_of_ne (s.heap.use req.request) hne]
      exact h.live
    · rw [batch, List.cons.injEq] at hbatch
      rw [← hbatch.1]
      exact hne.symm

end TaskManager

end AnotherWs
