/-
Module: AnotherWs.Proofs.SendMemory
Purpose: Who has to free each block of the send path, in every state of every run, and which steps lose
  blocks.
Trusted boundary: none
Main exports: Owner, SendMemory.owns, SendMemory.Accounted, SendMemory.leaks, SendMemory.step_accounted
-/
import AnotherWs.Core.SendMemory
import AnotherWs.Proofs.Asyncs

namespace AnotherWs

open Heaps

/-! ### Owners -/

/-- The blocks of a context that nobody has begun to send. -/
def SendDataContext.blocks (ctx : SendDataContext) : List Block :=
  [.ctx ctx.call ctx.part, .newdata ctx.call ctx.part]

/-- The blocks of a thread in a send call. -/
def Draft.blocks (d : Draft) (c : SendCall) : List Block :=
  (if d.frame then [.frame c.call] else []) ++ if d.copied then [.newdata c.call c.i] else []

namespace CallbackPoint

/-- The handle and the context of the callback. -/
def target : CallbackPoint → Option (Nat × SendDataContext)
  | .idle => none
  | .loaded id ctx | .requested id ctx _ | .failed id ctx | .sent id ctx | .freed id ctx =>
      some (id, ctx)

/-- The blocks that the callback has still to free or to hand on. -/
def blocks : CallbackPoint → List Block
  | .idle | .freed _ _ => []
  | .loaded _ ctx | .failed _ ctx => ctx.blocks
  | .requested _ ctx request => .req request :: ctx.blocks
  | .sent _ ctx => [.ctx ctx.call ctx.part]

end CallbackPoint

/-- The blocks that `after_write` frees. -/
def WriteRequest.blocks (w : WriteRequest) : List Block :=
  [.req w.request, .newdata w.ctx.call w.ctx.part]

/-- A thread, a handle, the callback on the loop thread, or libuv for a write request. -/
inductive Owner where
  | sender (thread : Nat)
  | handle (id : Nat)
  | loop
  | libuv (request : Nat)
deriving DecidableEq

namespace SendMemory

variable (s : SendMemory)

/-- Who frees a block. The context that the callback is about is behind its handle until the
callback ends, and it is the callback that frees it. -/
def owns : Owner → Block → Prop
  | .sender t, b => ∃ c, s.senders t = some c ∧ b ∈ (s.drafts t).blocks c
  | .handle id, b =>
      ∃ ctx, (s.pool.asyncs id).data = some ctx ∧ s.point.target ≠ some (id, ctx) ∧ b ∈ ctx.blocks
  | .loop, b => b ∈ s.point.blocks
  | .libuv n, b => ∃ w ∈ s.writes, w.request = n ∧ b ∈ w.blocks

end SendMemory

/-! ### Names that have been used -/

/-- How many parts of a call have been copied. -/
def SendCall.copies (c : SendCall) (d : Draft) : Nat := if d.copied then c.i + 1 else c.count

namespace SendMemory

variable (s : SendMemory)

/-- The part of the call has been reached: a call that is not over has got so far. -/
def Reached (bound : Draft → SendCall → Nat) (call part : Nat) : Prop :=
  call < s.calls ∧ ∀ t c, s.senders t = some c → c.call = call → part < bound (s.drafts t) c

/-- A block that may have been allocated by now. -/
def Known : Block → Prop
  | .frame call => call < s.calls
  | .newdata call part => s.Reached (fun d c => c.copies d) call part
  | .ctx call part => s.Reached (fun _ c => c.count) call part
  | .req request => request < s.requests

variable {s} {s' : SendMemory}

/-- A later state: every send call is new or has got further. -/
structure Later (s s' : SendMemory) : Prop where
  calls : s.calls ≤ s'.calls
  requests : s.requests ≤ s'.requests
  senders : ∀ t c', s'.senders t = some c' → s.calls ≤ c'.call ∨ ∃ c, s.senders t = some c ∧
    c.call = c'.call ∧ c.count ≤ c'.count ∧ c.copies (s.drafts t) ≤ c'.copies (s'.drafts t)

theorem Later.reached (bound : Draft → SendCall → Nat) (later : s.Later s') {call part : Nat}
    (grows : ∀ t c c', c.count ≤ c'.count → c.copies (s.drafts t) ≤ c'.copies (s'.drafts t) →
      bound (s.drafts t) c ≤ bound (s'.drafts t) c')
    (reached : s.Reached bound call part) : s'.Reached bound call part := by
  refine ⟨Nat.lt_of_lt_of_le reached.1 later.calls, fun t c' hc' hcall => ?_⟩
  rcases later.senders t c' hc' with hnew | ⟨c, hc, hsame, hcount, hcopies⟩
  · have hlt := reached.1
    omega
  · exact Nat.lt_of_lt_of_le (reached.2 t c hc (hsame.trans hcall)) (grows t c c' hcount hcopies)

/-- What may have been allocated, may have been allocated later. -/
theorem Later.known (later : s.Later s') {b : Block} (known : s.Known b) : s'.Known b := by
  cases b with
  | frame call => exact Nat.lt_of_lt_of_le known later.calls
  | newdata call part => exact Later.reached (fun d c => c.copies d) later (fun _ _ _ _ h => h) known
  | ctx call part => exact Later.reached (fun _ c => c.count) later (fun _ _ _ h _ => h) known
  | req request => exact Nat.lt_of_lt_of_le known later.requests

/-- The send calls have not moved. -/
theorem Later.of_same (calls : s'.calls = s.calls) (requests : s.requests ≤ s'.requests)
    (senders : s'.senders = s.senders) (drafts : s'.drafts = s.drafts) : s.Later s' where
  calls := Nat.le_of_eq calls.symm
  requests := requests
  senders := by
    intro t c' hc'
    rw [senders] at hc'
    exact Or.inr ⟨c', hc', rfl, Nat.le_refl _, by rw [drafts]⟩

/-! ### Losses -/

variable (s) in
/-- The callback loses blocks: `uv_write` does not take the request, or the pointer that is set to
`NULL` is no longer its own. -/
def leaksAt : CallbackPoint → Prop
  | .requested _ ctx _ => s.connected ctx.peer = true ∧ s.closing ctx.peer = true
  | .freed id ctx => ∃ newer ∈ (s.pool.asyncs id).data, newer ≠ ctx
  | .idle | .loaded _ _ | .failed _ _ | .sent _ _ => False

variable (s) in
/-- The step loses blocks: a split message that is refused keeps its frame, a context is stored over
another one that the callback is not about, or the callback loses some. -/
def leaks : MemoryAction → Prop
  | .copy thread memory => ∃ c ∈ s.senders thread,
      s.Refuses c memory ∧ (s.drafts thread).frame = true ∧ (s.drafts thread).split = true
  | .fill thread => ∃ c ∈ s.senders thread, ∃ old ∈ (s.pool.asyncs (c.async c.i)).data,
      s.point.target ≠ some (c.async c.i, old)
  | .resume _ => s.leaksAt s.point
  | .call _ _ _ | .notify _ | .visit _ | .afterWrite _ | .close _ | .afterClose _ => False

/-- What is lost stays lost, and more is lost exactly by a leak. -/
def Loses (lost lost' : Block → Prop) (leak : Prop) : Prop :=
  (∀ b, lost b → lost' b) ∧ (leak ↔ ∃ b, lost' b ∧ ¬ lost b)

theorem Loses.nothing {lost : Block → Prop} {leak : Prop} (safe : ¬ leak) : Loses lost lost leak :=
  ⟨fun _ h => h, fun h => absurd h safe, fun ⟨_, h, h'⟩ => absurd h h'⟩

theorem Loses.some {lost : Block → Prop} (blocks : Block → Prop) {leak : Prop} (leaks : leak)
    {b : Block}
    (gone : blocks b) (kept : ¬ lost b) : Loses lost (fun b => lost b ∨ blocks b) leak :=
  ⟨fun _ h => Or.inl h, fun _ => ⟨b, Or.inr gone, kept⟩, fun _ => leaks⟩

/-! ### The invariant -/

/-- Send calls in progress are apart, and a part that is copied is not yet stored. -/
structure CallsApart (s : SendMemory) : Prop where
  call_lt : ∀ {t c}, s.senders t = some c → c.call < s.calls
  distinct : ∀ {t t' c c'}, s.senders t = some c → s.senders t' = some c' → c.call = c'.call → t = t'
  copied : ∀ {t c}, s.senders t = some c → (s.drafts t).copied = true →
    c.filled = false ∧ c.part c.i ≠ []

/-- Every live block has one owner, or is lost. -/
structure Accounted (s : SendMemory) (lost : Block → Prop) : Prop where
  ledger : s.heap.Ledger s.owns lost
  known : ∀ b, s.heap.live b = true → s.Known b
  target : ∀ {id ctx}, s.point.target = some (id, ctx) → s.Known (.ctx ctx.call ctx.part)
  nodup : ∀ {w w'}, w ∈ s.writes → w' ∈ s.writes → w.request = w'.request → w = w'
  apart : s.CallsApart

variable {lost lost' : Block → Prop}

/-- What a step to a later state has to show. -/
theorem Accounted.of_later (accounted : s.Accounted lost) (later : s.Later s')
    (ledger : s'.heap.Ledger s'.owns lost')
    (known : ∀ b, s'.heap.live b = true → s.heap.live b = true ∨ s'.Known b)
    (target : ∀ {id ctx}, s'.point.target = some (id, ctx) →
      s.point.target = some (id, ctx) ∨ s.heap.live (.ctx ctx.call ctx.part) = true)
    (nodup : ∀ {w w'}, w ∈ s'.writes → w' ∈ s'.writes → w.request = w'.request → w = w')
    (apart : s'.CallsApart) : s'.Accounted lost' where
  ledger := ledger
  known := fun b hb => (known b hb).elim (fun h => later.known (accounted.known b h)) id
  target := fun h => (target h).elim (fun h => later.known (accounted.target h))
    fun h => later.known (accounted.known _ h)
  nodup := nodup
  apart := apart

/-- A block of a new name is not live. -/
theorem Accounted.fresh (accounted : s.Accounted lost) {b : Block} (unknown : ¬ s.Known b) :
    s.heap.live b = false := by
  rw [← Bool.not_eq_true]
  exact fun live => unknown (accounted.known b live)

/-- A step of a thread leaves the callback and the writes as they are. -/
theorem Accounted.of_thread (accounted : s.Accounted lost) (later : s.Later s') (apart : s'.CallsApart)
    (point : s'.point = s.point) (writes : s'.writes = s.writes)
    (ledger : s'.heap.Ledger s'.owns lost')
    (known : ∀ b, s'.heap.live b = true → s.heap.live b = true ∨ s'.Known b) : s'.Accounted lost' :=
  accounted.of_later later ledger known (fun h => Or.inl (point ▸ h))
    (by rw [writes]; exact accounted.nodup) apart

/-- A step of the loop thread leaves the threads as they are. -/
theorem Accounted.of_loop (accounted : s.Accounted lost) (calls : s'.calls = s.calls)
    (requests : s.requests ≤ s'.requests) (senders : s'.senders = s.senders)
    (drafts : s'.drafts = s.drafts) (ledger : s'.heap.Ledger s'.owns lost')
    (known : ∀ b, s'.heap.live b = true → s.heap.live b = true ∨ s'.Known b)
    (target : ∀ {id ctx}, s'.point.target = some (id, ctx) →
      s.point.target = some (id, ctx) ∨ s.heap.live (.ctx ctx.call ctx.part) = true)
    (nodup : ∀ {w w'}, w ∈ s'.writes → w' ∈ s'.writes → w.request = w'.request → w = w') :
    s'.Accounted lost' := by
  refine accounted.of_later (.of_same calls requests senders drafts) ledger known target nodup ?_
  constructor
  · rw [senders, calls]
    exact accounted.apart.call_lt
  · rw [senders]
    exact accounted.apart.distinct
  · rw [senders, drafts]
    exact accounted.apart.copied

/-! ### Steps of a thread -/

end SendMemory

theorem Request.acquire_asyncs (req : Request) (pool : CAsyncs) :
    (req.acquire pool).2.asyncs = pool.asyncs := by
  unfold Request.acquire acquireOneUvAsync acquireManyUvAsync
  grind

/-- A call gets handles, or none and turns the queue at most. -/
theorem SendSystem.call_cases (s : SendSystem) (thread : Nat) (req : Request) :
    (∃ pool', pool'.asyncs = s.pool.asyncs ∧ s.call thread req = { s with pool := pool' }) ∨
      ∃ pool' c, pool'.asyncs = s.pool.asyncs ∧ c.call = s.calls ∧ c.i = 0 ∧ c.filled = false ∧
        s.call thread req = { s with pool := pool', calls := s.calls + 1 }.setSender thread
          (some c) := by
  have hasyncs := req.acquire_asyncs s.pool
  unfold SendSystem.call
  split
  · split
    · rename_i pool' hacquire
      rw [hacquire] at hasyncs
      exact Or.inl ⟨pool', hasyncs, rfl⟩
    · rename_i pool' hacquire
      rw [hacquire] at hasyncs
      exact Or.inl ⟨pool', hasyncs, rfl⟩
    · rename_i ids parts pool' _ hacquire
      rw [hacquire] at hasyncs
      exact Or.inr ⟨pool', _, hasyncs, rfl, rfl, rfl, rfl⟩
  · exact Or.inl ⟨s.pool, rfl, rfl⟩

namespace SendMemory

variable {s s' : SendMemory} {lost lost' : Block → Prop}

/-- A step of one thread. -/
structure ThreadStep (s s' : SendMemory) (thread : Nat) (sender : Option SendCall) : Prop where
  self : s'.senders thread = sender
  senders : ∀ t, t ≠ thread → s'.senders t = s.senders t
  drafts : ∀ t, t ≠ thread → s'.drafts t = s.drafts t
  calls : s.calls ≤ s'.calls
  requests : s'.requests = s.requests
  point : s'.point = s.point
  writes : s'.writes = s.writes

namespace ThreadStep

variable {thread : Nat} {sender : Option SendCall} {c c' : SendCall}

/-- An owner that is neither this thread nor a handle that has changed. -/
theorem owns (step : ThreadStep s s' thread sender) {o : Owner}
    (data : ∀ id, o = .handle id → (s'.pool.asyncs id).data = (s.pool.asyncs id).data)
    (other : o ≠ .sender thread) (b : Block) : s'.owns o b ↔ s.owns o b := by
  cases o with
  | sender t =>
      have hne : t ≠ thread := fun h => other (by rw [h])
      simp only [SendMemory.owns, step.senders t hne, step.drafts t hne]
  | handle id => simp only [SendMemory.owns, data id rfl, step.point]
  | loop => simp only [SendMemory.owns, step.point]
  | libuv n => simp only [SendMemory.owns, step.writes]

/-- The call of the thread is over. -/
theorem ended (step : ThreadStep s s' thread none) (accounted : s.Accounted lost)
    (ledger : s'.heap.Ledger s'.owns lost')
    (known : ∀ b, s'.heap.live b = true → s.heap.live b = true) : s'.Accounted lost' := by
  have hsenders : ∀ {t c}, s'.senders t = some c → t ≠ thread ∧ s.senders t = some c := by
    intro t c hc
    by_cases ht : t = thread
    · rw [ht, step.self] at hc
      cases hc
    · exact ⟨ht, step.senders t ht ▸ hc⟩
  refine accounted.of_thread ⟨step.calls, Nat.le_of_eq step.requests.symm, fun t c hc => ?_⟩
    ⟨fun hc => ?_, fun hc hc' => ?_, fun hc => ?_⟩ step.point step.writes ledger
    fun b hb => Or.inl (known b hb)
  · obtain ⟨ht, hc⟩ := hsenders hc
    exact Or.inr ⟨c, hc, rfl, Nat.le_refl _, by rw [step.drafts t ht]⟩
  · exact Nat.lt_of_lt_of_le (accounted.apart.call_lt (hsenders hc).2) step.calls
  · exact accounted.apart.distinct (hsenders hc).2 (hsenders hc').2
  · obtain ⟨ht, hc⟩ := hsenders hc
    rw [step.drafts _ ht]
    exact accounted.apart.copied hc

/-- The call of the thread is there, or goes on. -/
theorem goes_on (step : ThreadStep s s' thread (some c')) (accounted : s.Accounted lost)
    (known_call : c'.call < s'.calls)
    (from_ : s.calls ≤ c'.call ∨ ∃ c, s.senders thread = some c ∧ c.call = c'.call ∧
      c.count ≤ c'.count ∧
      c.copies (s.drafts thread) ≤ c'.copies (s'.drafts thread))
    (copied : (s'.drafts thread).copied = true → c'.filled = false ∧ c'.part c'.i ≠ [])
    (ledger : s'.heap.Ledger s'.owns lost')
    (known : ∀ b, s'.heap.live b = true → s.heap.live b = true ∨ s'.Known b) : s'.Accounted lost' := by
  have hother : ∀ {t c}, t ≠ thread → s'.senders t = some c → c.call ≠ c'.call := by
    intro t c ht hc hsame
    rw [step.senders t ht] at hc
    rcases from_ with hnew | ⟨before, hbefore, hcall, -⟩
    · have hlt := accounted.apart.call_lt hc
      omega
    · exact ht (accounted.apart.distinct hc hbefore (hsame.trans hcall.symm))
  refine accounted.of_thread ⟨step.calls, Nat.le_of_eq step.requests.symm, fun t c hc => ?_⟩
    ⟨fun {t c} hc => ?_, fun {t t' c d} hc hd hsame => ?_, fun {t c} hc => ?_⟩ step.point step.writes
    ledger known
  · by_cases ht : t = thread
    · rw [ht, step.self] at hc
      cases hc
      exact ht ▸ from_
    · rw [step.senders t ht] at hc
      exact Or.inr ⟨c, hc, rfl, Nat.le_refl _, by rw [step.drafts t ht]⟩
  · by_cases ht : t = thread
    · rw [ht, step.self] at hc
      cases hc
      exact known_call
    · rw [step.senders t ht] at hc
      exact Nat.lt_of_lt_of_le (accounted.apart.call_lt hc) step.calls
  · by_cases ht : t = thread
    · by_cases ht' : t' = thread
      · rw [ht, ht']
      · rw [ht, step.self] at hc
        cases hc
        exact absurd hsame.symm (hother ht' hd)
    · by_cases ht' : t' = thread
      · rw [ht', step.self] at hd
        cases hd
        exact absurd hsame (hother ht hc)
      · rw [step.senders t ht] at hc
        rw [step.senders t' ht'] at hd
        exact accounted.apart.distinct hc hd hsame
  · by_cases ht : t = thread
    · rw [ht, step.self] at hc
      cases hc
      exact ht ▸ copied
    · rw [step.senders t ht] at hc
      rw [step.drafts t ht]
      exact accounted.apart.copied hc

end ThreadStep

section Threads

variable {thread : Nat} {c : SendCall}

/-- What a thread owns. -/
theorem owns_sender (sending : s.senders thread = some c) (b : Block) :
    s.owns (.sender thread) b ↔ b ∈ (s.drafts thread).blocks c := by
  simp [owns, sending]

theorem owns_sender_idle (idle : s.senders thread = none) (b : Block) :
    ¬ s.owns (.sender thread) b := by
  simp [owns, idle]

theorem mem_blocks {d : Draft} {b : Block} :
    b ∈ d.blocks c ↔ d.frame = true ∧ b = .frame c.call ∨ d.copied = true ∧
      b = .newdata c.call c.i := by
  unfold Draft.blocks
  cases d.frame <;> cases d.copied <;> simp

/-- A call gets handles, or none. -/
theorem call_cases (idle : s.senders thread = none) (req : Request) (message : Bool) :
    (∃ pool', pool'.asyncs = s.pool.asyncs ∧ s.call thread req message = { s with pool := pool' }) ∨
      ∃ pool' c, pool'.asyncs = s.pool.asyncs ∧ c.call = s.calls ∧ c.count = 0 ∧
        s.call thread req message =
          { s with
            pool := pool'
            calls := s.calls + 1
            senders := Function.update s.senders thread (some c)
            heap := if message then s.heap.alloc (.frame c.call) else s.heap
            drafts := Function.update s.drafts thread
              ⟨message, req.splitDataLenFunction.isSome, false⟩ } := by
  rcases s.toSendSystem.call_cases thread req with ⟨pool', hasyncs, hcall⟩ |
    ⟨pool', c, hasyncs, hcallId, hi, hfilled, hcall⟩
  · refine Or.inl ⟨pool', hasyncs, ?_⟩
    simp only [call, hcall, idle]
  · refine Or.inr ⟨pool', c, hasyncs, hcallId, by rw [SendCall.count_of_unfilled hfilled, hi], ?_⟩
    simp only [call, hcall, SendSystem.setSender_senders, if_pos, setDraft]
    rfl

/-- A new call owns its frame. -/
theorem call_accounted (accounted : s.Accounted lost) (idle : s.senders thread = none) (req : Request)
    (message : Bool) : (s.call thread req message).Accounted lost := by
  rcases call_cases idle req message with ⟨pool', hasyncs, hcall⟩ |
    ⟨pool', c, hasyncs, hcallId, hcount, hcall⟩
  · rw [hcall]
    have hthread : ThreadStep s { s with pool := pool' } thread none :=
      ⟨idle, fun _ _ => rfl, fun _ _ => rfl, Nat.le_refl _, rfl, rfl, rfl⟩
    have howns : ∀ o b, owns { s with pool := pool' } o b ↔ s.owns o b := by
      intro o b
      by_cases ho : o = .sender thread
      · rw [ho]
        exact Iff.rfl
      · exact hthread.owns (by simp [hasyncs]) ho b
    exact hthread.ended accounted (accounted.ledger.congr howns) fun b hb => hb
  · rw [hcall]
    generalize hheap : (if message then s.heap.alloc (.frame c.call) else s.heap) = heap
    have hthread : ThreadStep s
        { s with
          pool := pool'
          calls := s.calls + 1
          senders := Function.update s.senders thread (some c)
          heap := heap
          drafts := Function.update s.drafts thread
            ⟨message, req.splitDataLenFunction.isSome, false⟩ } thread (some c) :=
      ⟨Function.update_self .., fun _ h => Function.update_of_ne h .., fun _ h =>
        Function.update_of_ne h ..,
        Nat.le_succ _, rfl, rfl, rfl⟩
    refine hthread.goes_on accounted ?_ (Or.inl (Nat.le_of_eq hcallId.symm)) ?_ ?_ ?_
    · show c.call < s.calls + 1
      omega
    · intro h
      simp at h
    · have howns : ∀ o b, owns
          { s with
            pool := pool'
            calls := s.calls + 1
            senders := Function.update s.senders thread (some c)
            heap := heap
            drafts := Function.update s.drafts thread
              ⟨message, req.splitDataLenFunction.isSome, false⟩ } o b ↔
          s.owns o b ∨ o = .sender thread ∧ message = true ∧ b = .frame c.call := by
        intro o b
        by_cases ho : o = .sender thread
        · rw [ho, owns_sender hthread.self, mem_blocks]
          simp [owns_sender_idle idle]
        · rw [hthread.owns (by simp [hasyncs]) ho]
          simp [ho]
      have hfresh := accounted.fresh (b := .frame c.call) (Nat.not_lt.mpr (Nat.le_of_eq hcallId.symm))
      cases message with
      | true =>
          obtain rfl : s.heap.alloc (.frame c.call) = heap := hheap
          exact (accounted.ledger.alloc hfresh (.sender thread)).congr (by simpa using howns)
      | false =>
          obtain rfl : s.heap = heap := hheap
          exact accounted.ledger.congr (by simpa using howns)
    · intro b hb
      cases message with
      | true =>
          obtain rfl : s.heap.alloc (.frame c.call) = heap := hheap
          rcases s.heap.live_of_alloc hb with hlive | rfl
          · exact Or.inl hlive
          · exact Or.inr (show c.call < s.calls + 1 by omega)
      | false =>
          obtain rfl : s.heap = heap := hheap
          exact Or.inl hb

/-- A call that is refused frees its frame, or loses it. -/
theorem refuse_accounted (accounted : s.Accounted lost) (sending : s.senders thread = some c)
    (pending : (s.drafts thread).copied = false) :
    ∃ lost', (s.refuse thread c).Accounted lost' ∧
      Loses lost lost' ((s.drafts thread).frame = true ∧ (s.drafts thread).split = true) := by
  have hself : (s.refuse thread c).senders thread = none := Function.update_self ..
  have hthread : ThreadStep s (s.refuse thread c) thread none :=
    ⟨hself, fun _ h => Function.update_of_ne h .., fun _ _ => rfl, Nat.le_refl _, rfl, rfl, rfl⟩
  have hmine : ∀ b, s.owns (.sender thread) b ↔ (s.drafts thread).frame = true ∧ b = .frame c.call := by
    intro b
    rw [owns_sender sending, mem_blocks, pending]
    simp
  have howns : ∀ o b, (s.refuse thread c).owns o b ↔
      s.owns o b ∧ ¬ ((s.drafts thread).frame = true ∧ b = .frame c.call) := by
    intro o b
    rw [← hmine]
    by_cases ho : o = .sender thread
    · simp [ho, owns_sender_idle hself]
    · rw [hthread.owns (fun _ _ => rfl) ho]
      exact ⟨fun h => ⟨h, fun h' => ho (accounted.ledger.unique h h')⟩, fun h => h.1⟩
  cases hframe : (s.drafts thread).frame with
  | false =>
      have hheap : (s.refuse thread c).heap = s.heap := by simp [refuse, hframe]
      refine ⟨lost, hthread.ended accounted ?_ fun b hb => hheap ▸ hb, .nothing (by simp)⟩
      rw [hheap]
      exact accounted.ledger.congr (by simpa [hframe] using howns)
  | true =>
      have hframeMine : s.owns (.sender thread) (.frame c.call) := (hmine _).mpr ⟨hframe, rfl⟩
      cases hsplit : (s.drafts thread).split with
      | false =>
          have hheap : (s.refuse thread c).heap = s.heap.free (.frame c.call) := by
            simp [refuse, hframe, hsplit]
          refine ⟨lost, hthread.ended accounted ?_ fun b hb => s.heap.live_of_free (hheap ▸ hb),
            .nothing (by simp)⟩
          rw [hheap]
          exact (accounted.ledger.free hframeMine).congr (by simpa [hframe] using howns)
      | true =>
          have hheap : (s.refuse thread c).heap = s.heap := by simp [refuse, hframe, hsplit]
          have hledger := accounted.ledger.lose (fun b => b = .frame c.call)
            fun b hb => hb ▸ hframeMine
          refine ⟨_, hthread.ended accounted ?_ fun b hb => hheap ▸ hb,
            .some (fun b => b = .frame c.call) ⟨rfl, rfl⟩ rfl (accounted.ledger.apart hframeMine)⟩
          rw [hheap]
          exact hledger.congr (by simpa [hframe] using howns)

/-- A part that is copied has its `newdata`. -/
theorem copy_accounted (accounted : s.Accounted lost) (sending : s.senders thread = some c)
    (unfilled : c.filled = false) (pending : (s.drafts thread).copied = false) (memory : Bool) :
    ∃ lost', (s.copy thread c memory).Accounted lost' ∧ Loses lost lost'
      (s.leaks (.copy thread memory)) := by
  have hleaks : s.leaks (.copy thread memory) ↔
      s.Refuses c memory ∧ (s.drafts thread).frame = true ∧ (s.drafts thread).split = true := by
    simp [leaks, sending]
  rw [hleaks]
  by_cases hrefuses : s.Refuses c memory
  · obtain ⟨lost', haccounted, hloses⟩ := refuse_accounted accounted sending pending
    rw [copy, if_pos hrefuses]
    exact ⟨lost', haccounted, by simpa [hrefuses] using hloses⟩
  · refine ⟨lost, ?_, .nothing fun h => hrefuses h.1⟩
    rw [copy, if_neg hrefuses]
    generalize hheap : (if (s.drafts thread).frame then s.heap.use (.frame c.call) else s.heap) = heap
    have hledger : heap.Ledger s.owns lost ∧ heap.live = s.heap.live := by
      cases hframe : (s.drafts thread).frame with
      | false =>
          obtain rfl : s.heap = heap := by simpa [hframe] using hheap
          exact ⟨accounted.ledger, rfl⟩
      | true =>
          obtain rfl : s.heap.use (.frame c.call) = heap := by simpa [hframe] using hheap
          have hmine : s.owns (.sender thread) (.frame c.call) := by
            rw [owns_sender sending, mem_blocks]
            exact Or.inl ⟨hframe, rfl⟩
          exact ⟨accounted.ledger.use hmine, rfl⟩
    obtain ⟨hledger, hlive⟩ := hledger
    have hcopies : c.copies (s.drafts thread) = c.i := by
      rw [SendCall.copies, pending, SendCall.count_of_unfilled unfilled]
      rfl
    have hfresh : heap.live (.newdata c.call c.i) = false := by
      rw [hlive]
      refine accounted.fresh fun hknown => ?_
      have hlt : c.i < c.copies (s.drafts thread) := hknown.2 thread c sending rfl
      omega
    have hthread : ThreadStep s ({ s with heap := heap.alloc (.newdata c.call c.i) }.setDraft thread
        { s.drafts thread with copied := true }) thread (some c) :=
      ⟨sending, fun _ _ => rfl, fun _ h => Function.update_of_ne h .., Nat.le_refl _, rfl, rfl, rfl⟩
    have hdraft : ({ s with heap := heap.alloc (.newdata c.call c.i) }.setDraft thread
        { s.drafts thread with copied := true }).drafts thread =
          { s.drafts thread with copied := true } :=
      Function.update_self ..
    refine hthread.goes_on accounted (accounted.apart.call_lt sending) ?_ ?_ ?_ ?_
    · refine Or.inr ⟨c, sending, rfl, Nat.le_refl _, ?_⟩
      rw [hcopies, hdraft]
      exact Nat.le_succ _
    · exact fun _ => ⟨unfilled, fun h => hrefuses (Or.inl h)⟩
    · refine (hledger.alloc hfresh (.sender thread)).congr fun o b => ?_
      by_cases ho : o = .sender thread
      · rw [ho, owns_sender hthread.self, owns_sender sending, mem_blocks, mem_blocks, hdraft, pending]
        simp
      · rw [hthread.owns (fun _ _ => rfl) ho]
        simp [ho]
    · intro b hb
      rcases heap.live_of_alloc hb with hb | rfl
      · exact Or.inl (hlive ▸ hb)
      · refine Or.inr ⟨accounted.apart.call_lt sending, fun t c' hc' hcall => ?_⟩
        obtain rfl := accounted.apart.distinct hc' sending hcall
        rw [hthread.self] at hc'
        cases hc'
        rw [hdraft]
        exact Nat.lt_succ_self _

theorem context_blocks (j : Nat) (b : Block) :
    b ∈ (c.context j).blocks ↔ b = .ctx c.call j ∨ b = .newdata c.call j := by
  simp [SendDataContext.blocks, SendCall.context]

/-- A context that is stored takes its `newdata` with it. What the handle had is lost, unless the
callback is about it. -/
theorem fill_accounted (accounted : s.Accounted lost) (sending : s.senders thread = some c)
    (copied : (s.drafts thread).copied = true) :
    ∃ lost', (s.fill thread c).Accounted lost' ∧ Loses lost lost' (s.leaks (.fill thread)) := by
  obtain ⟨hunfilled, hnonempty⟩ := accounted.apart.copied sending copied
  have hself : (s.fill thread c).senders thread = some { c with filled := true } := by
    simp [fill, setDraft, SendSystem.fill, hnonempty]
  have hothers : ∀ t, t ≠ thread → (s.fill thread c).senders t = s.senders t := fun t ht => by
    simp [fill, setDraft, SendSystem.fill, hnonempty, ht]
  have hdata : ∀ id, ((s.fill thread c).pool.asyncs id).data =
      if id = c.async c.i then some (c.context c.i) else (s.pool.asyncs id).data := fun id => by
    simp only [fill, setDraft, SendSystem.fill, if_neg hnonempty, SendSystem.setSender_pool,
      SendSystem.setAsync_asyncs]
    split <;> rfl
  have hcalls : (s.fill thread c).calls = s.calls := by
    simp [fill, setDraft, SendSystem.fill, hnonempty]
  have hdraft : (s.fill thread c).drafts thread = { s.drafts thread with copied := false } :=
    Function.update_self ..
  have hthread : ThreadStep s (s.fill thread c) thread (some { c with filled := true }) :=
    ⟨hself, hothers, fun _ h => Function.update_of_ne h .., Nat.le_of_eq hcalls.symm, rfl, rfl, rfl⟩
  have hcount : c.count = c.i := SendCall.count_of_unfilled hunfilled
  have hunknown : ¬ s.Known (.ctx c.call c.i) := fun hknown => by
    have hlt : c.i < c.count := hknown.2 thread c sending rfl
    omega
  have hmine : ∀ b, s.owns (.sender thread) b ↔
      (s.drafts thread).frame = true ∧ b = .frame c.call ∨ b = .newdata c.call c.i := by
    intro b
    rw [owns_sender sending, mem_blocks, copied]
    simp
  have hnewdata := (hmine _).mpr (Or.inr rfl)
  -- what the handle has had is lost, the context is allocated, and `newdata` goes with it
  have hledger := ((accounted.ledger.lose (s.owns (.handle (c.async c.i))) fun b hb => hb).alloc
    (accounted.fresh hunknown) (.handle (c.async c.i))).move (fun b => b = .newdata c.call c.i)
    (o := .sender thread) (fun b hb => Or.inl ⟨hb ▸ hnewdata, fun h => by
      cases accounted.ledger.unique h (hb ▸ hnewdata)⟩) (.handle (c.async c.i))
  have hlt : c.call < s.calls := accounted.apart.call_lt sending
  refine ⟨_, hthread.goes_on accounted (hcalls ▸ hlt) ?_ ?_ (hledger.congr fun o b => ?_) ?_, ?_⟩
  · refine Or.inr ⟨c, sending, rfl, ?_, ?_⟩
    · rw [hcount]
      exact Nat.le_succ _
    · rw [SendCall.copies, if_pos copied, hdraft]
      exact Nat.le_refl _
  · intro h
    rw [hdraft] at h
    cases h
  · by_cases ho : o = .sender thread
    · rw [ho, owns_sender hself, mem_blocks, hdraft]
      have hapart : (s.drafts thread).frame = true ∧ b = .frame c.call →
          ¬ s.owns (.handle (c.async c.i)) b := fun hb h => by
        cases accounted.ledger.unique h ((hmine b).mpr (Or.inl hb))
      simp only [hmine]
      grind
    · by_cases hid : o = .handle (c.async c.i)
      · rw [hid]
        have htarget : (s.fill thread c).point.target ≠ some (c.async c.i, c.context c.i) := fun h =>
          hunknown (accounted.target h)
        simp only [owns, hdata, if_pos, Option.some.injEq, exists_eq_left', context_blocks]
        grind
      · have hsame : ∀ id, o = .handle id →
            ((s.fill thread c).pool.asyncs id).data = (s.pool.asyncs id).data := by
          intro id hhandle
          rw [hdata, if_neg]
          rintro rfl
          exact hid hhandle
        rw [hthread.owns hsame ho]
        have hfirst : s.owns o b → ¬ s.owns (.handle (c.async c.i)) b := fun h h' =>
          hid (accounted.ledger.unique h h')
        have hsecond : s.owns o b → b ≠ .newdata c.call c.i := fun h hb =>
          ho (accounted.ledger.unique h (hb ▸ hnewdata))
        grind
  · intro b hb
    rcases s.heap.live_of_alloc hb with hb | rfl
    · exact Or.inl hb
    · refine Or.inr ⟨hcalls ▸ hlt, fun t c' hc' hcall => ?_⟩
      by_cases ht : t = thread
      · rw [ht, hself] at hc'
        cases hc'
        exact Nat.lt_succ_self _
      · rw [hothers t ht] at hc'
        exact absurd (accounted.apart.distinct hc' sending hcall) ht
  · constructor
    · exact fun b hb => Or.inl hb
    · have hleaks : s.leaks (.fill thread) ↔ ∃ old, (s.pool.asyncs (c.async c.i)).data = some old ∧
          s.point.target ≠ some (c.async c.i, old) := by simp [leaks, sending]
      rw [hleaks]
      constructor
      · rintro ⟨old, hold, htarget⟩
        have howned : s.owns (.handle (c.async c.i)) (.ctx old.call old.part) :=
          ⟨old, hold, htarget, List.mem_cons_self⟩
        exact ⟨_, Or.inr howned, accounted.ledger.apart howned⟩
      · rintro ⟨b, hb | ⟨old, hold, htarget, -⟩, hkept⟩
        · exact absurd hb hkept
        · exact ⟨old, hold, htarget⟩

/-- The last part frees the frame. -/
theorem notify_accounted (accounted : s.Accounted lost) (sending : s.senders thread = some c)
    (filled : c.filled = true) : (s.notify thread c).Accounted lost := by
  have hcopied : (s.drafts thread).copied = false := by
    rw [← Bool.not_eq_true]
    intro h
    rw [(accounted.apart.copied sending h).1] at filled
    cases filled
  have hmine : ∀ b, s.owns (.sender thread) b ↔ (s.drafts thread).frame = true ∧ b = .frame c.call := by
    intro b
    rw [owns_sender sending, mem_blocks, hcopied]
    simp
  have hdata : ∀ id, ((s.notify thread c).pool.asyncs id).data = (s.pool.asyncs id).data := by
    intro id
    have hsame := @SendSystem.setAsync_data s.toSendSystem
      { s.pool.asyncs (c.async c.i) with pending := true } (c.async c.i) rfl id
    unfold notify SendSystem.notify
    dsimp only
    split <;> exact hsame
  by_cases hmore : c.i + 1 < c.asyncResult.length
  · have hself : (s.notify thread c).senders thread =
        some { c with i := c.i + 1, filled := false } := by
      simp [notify, SendSystem.notify, hmore]
    have hcalls : (s.notify thread c).calls = s.calls := by simp [notify, SendSystem.notify, hmore]
    have hthread : ThreadStep s (s.notify thread c) thread
      (some { c with i := c.i + 1, filled := false }) :=
      ⟨hself, fun t ht => by simp [notify, SendSystem.notify, hmore, ht], fun _ _ => rfl,
        Nat.le_of_eq hcalls.symm, rfl, rfl, rfl⟩
    have hheap : (s.notify thread c).heap = s.heap := if_pos hmore
    refine hthread.goes_on accounted (hcalls ▸ accounted.apart.call_lt sending :) ?_ ?_ ?_ ?_
    · have hcount : c.count = c.i + 1 := SendCall.count_of_filled filled
      have hdraft : (s.notify thread c).drafts thread = s.drafts thread := rfl
      refine Or.inr ⟨c, sending, rfl, Nat.le_of_eq hcount, ?_⟩
      rw [SendCall.copies, SendCall.copies, hdraft, hcopied]
      exact Nat.le_of_eq hcount
    · intro h
      rw [show (s.notify thread c).drafts thread = s.drafts thread from rfl, hcopied] at h
      cases h
    · rw [hheap]
      refine accounted.ledger.congr fun o b => ?_
      by_cases ho : o = .sender thread
      · rw [ho, hmine, owns_sender hself, mem_blocks]
        simp [show (s.notify thread c).drafts thread = s.drafts thread from rfl, hcopied]
      · exact hthread.owns (fun id _ => hdata id) ho b
    · rw [hheap]
      exact fun _ => Or.inl
  · have hself : (s.notify thread c).senders thread = none := by
      simp [notify, SendSystem.notify, hmore]
    have hcalls : (s.notify thread c).calls = s.calls := by simp [notify, SendSystem.notify, hmore]
    have hthread : ThreadStep s (s.notify thread c) thread none :=
      ⟨hself, fun t ht => by simp [notify, SendSystem.notify, hmore, ht], fun _ _ => rfl,
        Nat.le_of_eq hcalls.symm, rfl, rfl, rfl⟩
    have howns : ∀ o b, (s.notify thread c).owns o b ↔
        s.owns o b ∧ ¬ ((s.drafts thread).frame = true ∧ b = .frame c.call) := by
      intro o b
      rw [← hmine]
      by_cases ho : o = .sender thread
      · simp [ho, owns_sender_idle hself]
      · rw [hthread.owns (fun id _ => hdata id) ho]
        exact ⟨fun h => ⟨h, fun h' => ho (accounted.ledger.unique h h')⟩, fun h => h.1⟩
    cases hframe : (s.drafts thread).frame with
    | false =>
        have hheap : (s.notify thread c).heap = s.heap := by simp [notify, hmore, hframe]
        refine hthread.ended accounted ?_ fun b hb => hheap ▸ hb
        rw [hheap]
        exact accounted.ledger.congr (by simpa [hframe] using howns)
    | true =>
        have hheap : (s.notify thread c).heap = s.heap.free (.frame c.call) := by
          simp [notify, hmore, hframe]
        refine hthread.ended accounted ?_ fun b hb => s.heap.live_of_free (hheap ▸ hb)
        rw [hheap]
        exact (accounted.ledger.free ((hmine _).mpr ⟨hframe, rfl⟩)).congr
          (by simpa [hframe] using howns)

end Threads

/-! ### Steps of the loop thread -/

section Loop

variable {id : Nat} {ctx : SendDataContext}

theorem mem_context_blocks {b : Block} :
    b ∈ ctx.blocks ↔ b = .ctx ctx.call ctx.part ∨ b = .newdata ctx.call ctx.part := by
  simp [SendDataContext.blocks]

/-- Nothing that the blocks depend on has changed. -/
theorem Accounted.of_same (accounted : s.Accounted lost) (senders : s'.senders = s.senders)
    (drafts : s'.drafts = s.drafts) (calls : s'.calls = s.calls) (requests : s'.requests = s.requests)
    (writes : s'.writes = s.writes) (heap : s'.heap = s.heap) (point : s'.point = s.point)
    (data : ∀ id, (s'.pool.asyncs id).data = (s.pool.asyncs id).data) : s'.Accounted lost := by
  refine accounted.of_loop calls (Nat.le_of_eq requests.symm) senders drafts ?_
    (fun b hb => Or.inl (heap ▸ hb)) (fun h => Or.inl (point ▸ h))
      (by rw [writes]; exact accounted.nodup)
  rw [heap]
  refine accounted.ledger.congr fun o b => ?_
  cases o with
  | sender t => simp only [owns, senders, drafts]
  | handle id => simp only [owns, data, point]
  | loop => simp only [owns, point]
  | libuv n => simp only [owns, writes]

/-- The loop thread takes a context over from its handle. -/
theorem visit_accounted (accounted : s.Accounted lost) (idle : s.point = .idle) (id : Nat) :
    (s.visit id).Accounted lost := by
  cases hpending : (s.pool.asyncs id).pending with
  | false =>
      have hvisit : s.visit id = { s with cursor := s.next id } := by simp [visit, hpending]
      rw [hvisit]
      exact accounted.of_same rfl rfl rfl rfl rfl rfl rfl fun _ => rfl
  | true =>
      cases hdata : (s.pool.asyncs id).data with
      | none =>
          have hvisit : s.visit id = { s with
              toSendSystem := { s.toSendSystem with cursor := s.next id }.setAsync id
                ⟨none, false⟩ } := by
            simp only [visit, hpending, hdata, if_true]
          rw [hvisit]
          exact accounted.of_same rfl rfl rfl rfl rfl rfl rfl fun other =>
            SendSystem.setAsync_data _ hdata.symm other
      | some ctx =>
          have hvisit : s.visit id = { s with
              toSendSystem := s.toSendSystem.setAsync id ⟨some ctx, false⟩
              point := .loaded id ctx } := by
            simp only [visit, hpending, hdata, if_true]
          rw [hvisit]
          have hsame : ∀ other,
              ((s.toSendSystem.setAsync id ⟨some ctx, false⟩).pool.asyncs other).data =
                (s.pool.asyncs other).data := SendSystem.setAsync_data _ hdata.symm
          have hmine : ∀ b, b ∈ ctx.blocks → s.owns (.handle id) b := fun b hb =>
            ⟨ctx, hdata, by simp [idle, CallbackPoint.target], hb⟩
          have hlive := accounted.ledger.live (hmine (.ctx ctx.call ctx.part) List.mem_cons_self)
          refine accounted.of_loop rfl (Nat.le_refl _) rfl rfl
            (accounted.ledger.moves (fun b => b ∈ ctx.blocks) hmine (Owner.noConfusion : _ ≠ Owner.loop)
              (fun b => ?_) (fun b => ?_) fun o ho ho' b => ?_)
            (fun b hb => Or.inl hb) (fun h => by cases h; exact Or.inr hlive) accounted.nodup
          · simp [owns, hdata, idle, CallbackPoint.target]
          · simp [owns, idle, CallbackPoint.blocks]
          · cases o with
            | sender t | libuv n => rfl
            | handle other =>
                have hne : other ≠ id := fun h => ho (h ▸ rfl)
                simp [owns, idle, CallbackPoint.target, hne, hne.symm]
            | loop => exact absurd rfl ho'

/-- A statement of the callback: it stays with its handle and its context. -/
structure CallbackStep (s s' : SendMemory) : Prop where
  senders : s'.senders = s.senders
  drafts : s'.drafts = s.drafts
  calls : s'.calls = s.calls
  requests : s.requests ≤ s'.requests
  data : ∀ id, (s'.pool.asyncs id).data = (s.pool.asyncs id).data
  target : s'.point.target = s.point.target

namespace CallbackStep

/-- An owner that is neither the callback nor libuv. -/
theorem owns (step : CallbackStep s s') {o : Owner} (other : o ≠ .loop)
    (writes : ∀ n, o = .libuv n → s'.writes = s.writes) (b : Block) : s'.owns o b ↔ s.owns o b := by
  cases o with
  | sender t => simp only [SendMemory.owns, step.senders, step.drafts]
  | handle id => simp only [SendMemory.owns, step.data, step.target]
  | loop => exact absurd rfl other
  | libuv n => simp only [SendMemory.owns, writes n rfl]

theorem accounted (step : CallbackStep s s') (accounted : s.Accounted lost)
    (ledger : s'.heap.Ledger s'.owns lost')
    (known : ∀ b, s'.heap.live b = true → s.heap.live b = true ∨ s'.Known b)
    (nodup : ∀ {w w'}, w ∈ s'.writes → w' ∈ s'.writes → w.request = w'.request → w = w') :
    s'.Accounted lost' :=
  accounted.of_loop step.calls step.requests step.senders step.drafts ledger known
    (fun h => Or.inl (step.target ▸ h)) nodup

end CallbackStep

theorem owns_loop (b : Block) : s.owns .loop b ↔ b ∈ s.point.blocks := Iff.rfl

/-- A request is allocated for a connection that is there. -/
theorem request_accounted (accounted : s.Accounted lost) (at_ : s.point = .loaded id ctx)
    (memory : Bool) : (s.request id ctx memory).Accounted lost := by
  have hctx : s.owns .loop (.ctx ctx.call ctx.part) := by
    rw [owns_loop, at_]
    exact List.mem_cons_self
  have huse := accounted.ledger.use hctx
  by_cases hgoes : s.connected ctx.peer = true ∧ memory = true
  · rw [request, if_pos hgoes]
    have hstep : CallbackStep s { s with
        reached := s.reached ++ [ctx]
        heap := (s.heap.use (.ctx ctx.call ctx.part)).alloc (.req s.requests)
        requests := s.requests + 1
        point := .requested id ctx s.requests } :=
      ⟨rfl, rfl, rfl, Nat.le_succ _, fun _ => rfl, by rw [at_]; rfl⟩
    have hfresh : s.heap.live (.req s.requests) = false :=
      accounted.fresh fun h => absurd h (Nat.lt_irrefl s.requests)
    refine hstep.accounted accounted ((huse.alloc hfresh .loop).congr fun o b => ?_) (fun b hb => ?_)
      accounted.nodup
    · by_cases ho : o = .loop
      · simp [ho, owns_loop, at_, CallbackPoint.blocks, or_comm]
      · rw [hstep.owns ho fun _ _ => rfl]
        simp [ho]
    · rcases Heap.live_of_alloc _ hb with hb | rfl
      · exact Or.inl hb
      · exact Or.inr (Nat.lt_succ_self s.requests)
  · rw [request, if_neg hgoes]
    have hstep : CallbackStep s { s with
        reached := s.reached ++ [ctx]
        heap := s.heap.use (.ctx ctx.call ctx.part)
        point := .failed id ctx } := ⟨rfl, rfl, rfl, Nat.le_refl _, fun _ => rfl, by rw [at_]; rfl⟩
    refine hstep.accounted accounted (huse.congr fun o b => ?_) (fun b hb => Or.inl hb) accounted.nodup
    by_cases ho : o = .loop
    · simp [ho, owns_loop, at_, CallbackPoint.blocks]
    · exact hstep.owns ho (fun _ _ => rfl) b

theorem owns_libuv (n : Nat) (b : Block) :
    s.owns (.libuv n) b ↔ ∃ w ∈ s.writes, w.request = n ∧ b ∈ w.blocks := Iff.rfl

/-- libuv takes the request and the data over, or they are lost with a stream that is closing. -/
theorem write_accounted (accounted : s.Accounted lost) {n : Nat} (at_ : s.point = .requested id ctx n) :
    ∃ lost', (s.write id ctx n).Accounted lost' ∧
      Loses lost lost' (s.connected ctx.peer = true ∧ s.closing ctx.peer = true) := by
  have hmine : ∀ b, b = .req n ∨ b = .newdata ctx.call ctx.part → s.owns .loop b := by
    rintro b (rfl | rfl) <;> simp [owns_loop, at_, CallbackPoint.blocks, mem_context_blocks]
  have hloop : ∀ b, b ∈ (CallbackPoint.sent id ctx).blocks ↔
      s.owns .loop b ∧ ¬ (b = .req n ∨ b = .newdata ctx.call ctx.part) := by
    intro b
    simp only [owns_loop, at_, CallbackPoint.blocks, mem_context_blocks, List.mem_cons,
      List.not_mem_nil]
    grind
  cases hconnected : s.connected ctx.peer with
  | false =>
      refine ⟨lost, ?_, .nothing (by simp)⟩
      rw [write, hconnected, if_neg Bool.false_ne_true]
      have hstep : CallbackStep s { s with heap := s.heap.free (.req n), point := .failed id ctx } :=
        ⟨rfl, rfl, rfl, Nat.le_refl _, fun _ => rfl, by rw [at_]; rfl⟩
      refine hstep.accounted accounted
        (accounted.ledger.frees (hmine _ (Or.inl rfl)) (fun b => ?_) fun o ho b =>
          hstep.owns ho (fun _ _ => rfl) b)
        (fun b hb => Or.inl (s.heap.live_of_free hb)) accounted.nodup
      simp only [owns_loop, at_, CallbackPoint.blocks, mem_context_blocks, List.mem_cons]
      grind
  | true =>
      rw [write, hconnected, if_pos rfl]
      have huse := accounted.ledger.use (hmine _ (Or.inr rfl))
      cases hclosing : s.closing ctx.peer with
      | true =>
          have hstep : CallbackStep s { s with
              heap := s.heap.use (.newdata ctx.call ctx.part)
              wire := Function.update s.wire ctx.peer (s.wire ctx.peer ++ ctx.data.take ctx.len)
              point := .sent id ctx } := ⟨rfl, rfl, rfl, Nat.le_refl _, fun _ => rfl, by rw [at_]; rfl⟩
          rw [if_pos rfl]
          refine ⟨_, hstep.accounted accounted (huse.loses _ hmine hloop fun o ho b =>
            hstep.owns ho (fun _ _ => rfl) b) (fun b hb => Or.inl hb) accounted.nodup, ?_⟩
          exact .some _ ⟨rfl, rfl⟩ (Or.inl rfl) (accounted.ledger.apart (hmine _ (Or.inl rfl)))
      | false =>
          have hstep : CallbackStep s { s with
              heap := s.heap.use (.newdata ctx.call ctx.part)
              wire := Function.update s.wire ctx.peer (s.wire ctx.peer ++ ctx.data.take ctx.len)
              writes := s.writes ++ [⟨n, ctx⟩]
              point := .sent id ctx } := ⟨rfl, rfl, rfl, Nat.le_refl _, fun _ => rfl, by rw [at_]; rfl⟩
          rw [if_neg Bool.false_ne_true]
          have hnew : ∀ w ∈ s.writes, w.request ≠ n := by
            rintro w hw rfl
            have howned : s.owns (.libuv w.request) (.req w.request) := ⟨w, hw, rfl, List.mem_cons_self⟩
            cases accounted.ledger.unique howned (hmine _ (Or.inl rfl))
          refine ⟨lost, hstep.accounted accounted
            (huse.moves _ hmine (Owner.noConfusion : _ ≠ Owner.libuv n)
            hloop (fun b => ?_) fun o ho ho' b => ?_) (fun b hb => Or.inl hb) ?_, .nothing (by simp)⟩
          · simp only [owns_libuv, List.mem_append, List.mem_singleton]
            constructor
            · rintro ⟨w, hw | rfl, hrequest, hb⟩
              · exact Or.inl ⟨w, hw, hrequest, hb⟩
              · exact Or.inr (by simpa [WriteRequest.blocks] using hb)
            · rintro (⟨w, hw, hrequest, hb⟩ | hb)
              · exact ⟨w, Or.inl hw, hrequest, hb⟩
              · exact ⟨⟨n, ctx⟩, Or.inr rfl, rfl, by simpa [WriteRequest.blocks] using hb⟩
          · cases o with
            | sender t | handle other => exact hstep.owns ho (fun _ h => by cases h) b
            | loop => exact absurd rfl ho
            | libuv m =>
                have hne : n ≠ m := fun h => ho' (h ▸ rfl)
                simp only [owns_libuv, List.mem_append, List.mem_singleton]
                constructor
                · rintro ⟨w, hw | rfl, hrequest, hb⟩
                  · exact ⟨w, hw, hrequest, hb⟩
                  · exact absurd hrequest hne
                · rintro ⟨w, hw, hrequest, hb⟩
                  exact ⟨w, Or.inl hw, hrequest, hb⟩
          · intro w w' hw hw' hsame
            simp only [List.mem_append, List.mem_singleton] at hw hw'
            rcases hw with hw | rfl <;> rcases hw' with hw' | rfl
            · exact accounted.nodup hw hw' hsame
            · exact absurd hsame (hnew w hw)
            · exact absurd hsame.symm (hnew w' hw')
            · rfl

/-- What could not be sent is freed. -/
theorem freeData_accounted (accounted : s.Accounted lost) (at_ : s.point = .failed id ctx) :
    (s.freeData id ctx).Accounted lost := by
  have hctx : s.owns .loop (.ctx ctx.call ctx.part) := by simp [owns_loop, at_, CallbackPoint.blocks,
    mem_context_blocks]
  have hdata : s.owns .loop (.newdata ctx.call ctx.part) := by
    simp [owns_loop, at_, CallbackPoint.blocks,
    mem_context_blocks]
  have hstep : CallbackStep s (s.freeData id ctx) :=
    ⟨rfl, rfl, rfl, Nat.le_refl _, fun _ => rfl, by rw [at_]; rfl⟩
  refine hstep.accounted accounted ((accounted.ledger.use hctx).frees hdata (fun b => ?_)
    fun o ho b => hstep.owns ho (fun _ _ => rfl) b) (fun b hb => Or.inl (Heap.live_of_free _ hb))
    accounted.nodup
  simp only [owns_loop, freeData, at_, CallbackPoint.blocks, mem_context_blocks, List.mem_singleton]
  grind

/-- The context is freed. -/
theorem freeContext_accounted (accounted : s.Accounted lost) (at_ : s.point = .sent id ctx) :
    (s.freeContext id ctx).Accounted lost := by
  have hctx : s.owns .loop (.ctx ctx.call ctx.part) := by simp [owns_loop, at_, CallbackPoint.blocks]
  have hstep : CallbackStep s (s.freeContext id ctx) :=
    ⟨rfl, rfl, rfl, Nat.le_refl _, fun _ => rfl, by rw [at_]; rfl⟩
  refine hstep.accounted accounted (accounted.ledger.frees hctx (fun b => ?_)
    fun o ho b => hstep.owns ho (fun _ _ => rfl) b) (fun b hb => Or.inl (Heap.live_of_free _ hb))
    accounted.nodup
  simp [owns_loop, freeContext, at_, CallbackPoint.blocks]

/-- The pointer of the handle is set to `NULL`. What another thread has stored since is lost. -/
theorem release_accounted (accounted : s.Accounted lost) (at_ : s.point = .freed id ctx) :
    ∃ lost', (s.release id).Accounted lost' ∧
      Loses lost lost' (∃ newer ∈ (s.pool.asyncs id).data, newer ≠ ctx) := by
  have hledger : s.heap.Ledger (s.release id).owns fun b => lost b ∨ s.owns (.handle id) b := by
    refine accounted.ledger.loses (s.owns (.handle id)) (fun b hb => hb) (fun b => ?_) fun o ho b => ?_
    · simp [owns, release]
    · cases o with
      | sender t | libuv n => rfl
      | handle other =>
          have hne : other ≠ id := fun h => ho (h ▸ rfl)
          simp [owns, release, at_, CallbackPoint.target, hne, hne.symm]
      | loop => simp [owns, release, at_, CallbackPoint.blocks]
  refine ⟨_, accounted.of_loop rfl (Nat.le_refl _) rfl rfl hledger (fun b hb => Or.inl hb)
    (fun h => by cases h) accounted.nodup, fun b hb => Or.inl hb, ?_⟩
  constructor
  · rintro ⟨newer, hnewer, hne⟩
    have howned : s.owns (.handle id) (.ctx newer.call newer.part) := by
      refine ⟨newer, hnewer, ?_, List.mem_cons_self⟩
      simpa [at_, CallbackPoint.target] using hne.symm
    exact ⟨_, Or.inr howned, accounted.ledger.apart howned⟩
  · rintro ⟨b, hb | ⟨newer, hnewer, htarget, -⟩, hkept⟩
    · exact absurd hb hkept
    · refine ⟨newer, hnewer, ?_⟩
      rintro rfl
      exact htarget (by rw [at_]; rfl)

/-- `after_write` frees what libuv has had. -/
theorem afterWrite_accounted (accounted : s.Accounted lost) {w : WriteRequest} (taken : w ∈ s.writes) :
    (s.afterWrite w).Accounted lost := by
  have hmine : ∀ b, b ∈ w.blocks → s.owns (.libuv w.request) b := fun b hb => ⟨w, taken, rfl, hb⟩
  have hreq := hmine (.req w.request) (by simp [WriteRequest.blocks])
  have hdata := hmine (.newdata w.ctx.call w.ctx.part) (by simp [WriteRequest.blocks])
  have hledger := ((accounted.ledger.use hreq).free hdata).free ⟨hreq, Block.noConfusion⟩
  have howns : ∀ o b, (s.afterWrite w).owns o b ↔ s.owns o b ∧ b ∉ w.blocks := by
    intro o b
    by_cases ho : o = .libuv w.request
    · rw [ho]
      simp only [owns_libuv, afterWrite, List.mem_filter, decide_eq_true_eq]
      constructor
      · rintro ⟨w', ⟨-, hne⟩, hrequest, -⟩
        exact absurd hrequest hne
      · rintro ⟨⟨w', hw', hrequest, hb⟩, hnot⟩
        rw [accounted.nodup hw' taken hrequest] at hb
        exact absurd hb hnot
    · have hsame : (s.afterWrite w).owns o b ↔ s.owns o b := by
        cases o with
        | sender t | handle id | loop => rfl
        | libuv n =>
            simp only [owns_libuv, afterWrite, List.mem_filter, decide_eq_true_eq]
            constructor
            · rintro ⟨w', ⟨hw', -⟩, hrequest, hb⟩
              exact ⟨w', hw', hrequest, hb⟩
            · rintro ⟨w', hw', rfl, hb⟩
              exact ⟨w', ⟨hw', fun h => ho (h ▸ rfl)⟩, rfl, hb⟩
      rw [hsame]
      exact ⟨fun h => ⟨h, accounted.ledger.not_of_other hmine ho h⟩, And.left⟩
  refine accounted.of_loop rfl (Nat.le_refl _) rfl rfl (hledger.congr fun o b => ?_)
    (fun b hb => Or.inl (Heap.live_of_free _ (Heap.live_of_free _ hb))) Or.inl ?_
  · rw [howns]
    simp only [WriteRequest.blocks, List.mem_cons, List.not_mem_nil]
    grind
  · intro v v' hv hv' hsame
    exact accounted.nodup (List.mem_of_mem_filter hv) (List.mem_of_mem_filter hv') hsame

end Loop

/-! ### Every step -/

/-- **Ownership.** Every step keeps the account: no block is misused, every live block keeps one
owner or is lost, and blocks are lost exactly by the steps that leak. -/
theorem step_accounted (accounted : s.Accounted lost) {a : MemoryAction} (step : s.step a = some s') :
    ∃ lost', s'.Accounted lost' ∧ Loses lost lost' (s.leaks a) := by
  cases a with
  | call thread req message =>
      simp only [SendMemory.step] at step
      split at step
      · cases step
        exact ⟨lost, call_accounted accounted ‹_› req message, .nothing id⟩
      · cases step
  | copy thread memory =>
      simp only [SendMemory.step] at step
      split at step
      · split at step
        · cases step
        · rename_i c hsending hready
          cases step
          simp only [not_or, Bool.not_eq_true] at hready
          exact copy_accounted accounted hsending hready.1 hready.2 memory
      · cases step
  | fill thread =>
      simp only [SendMemory.step] at step
      split at step
      · split at step
        · cases step
          exact fill_accounted accounted ‹_› ‹_›
        · cases step
      · cases step
  | notify thread =>
      simp only [SendMemory.step] at step
      split at step
      · split at step
        · cases step
          exact ⟨lost, notify_accounted accounted ‹_› ‹_›, .nothing id⟩
        · cases step
      · cases step
  | visit id =>
      simp only [SendMemory.step] at step
      split at step
      · rename_i hready
        cases step
        exact ⟨lost, visit_accounted accounted hready.1 id, .nothing fun h => h⟩
      · cases step
  | resume memory =>
      cases hpoint : s.point with
      | idle => simp [SendMemory.step, resume, hpoint] at step
      | loaded id ctx =>
          simp only [SendMemory.step, resume, hpoint, Option.some.injEq] at step
          subst step
          exact ⟨lost, request_accounted accounted hpoint memory,
            .nothing (by simp [leaks, leaksAt, hpoint])⟩
      | requested id ctx n =>
          simp only [SendMemory.step, resume, hpoint, Option.some.injEq] at step
          subst step
          obtain ⟨lost', haccounted, hloses⟩ := write_accounted accounted hpoint
          exact ⟨lost', haccounted, by simpa [leaks, leaksAt, hpoint] using hloses⟩
      | failed id ctx =>
          simp only [SendMemory.step, resume, hpoint, Option.some.injEq] at step
          subst step
          exact ⟨lost, freeData_accounted accounted hpoint, .nothing (by simp [leaks, leaksAt, hpoint])⟩
      | sent id ctx =>
          simp only [SendMemory.step, resume, hpoint, Option.some.injEq] at step
          subst step
          exact ⟨lost, freeContext_accounted accounted hpoint,
            .nothing (by simp [leaks, leaksAt, hpoint])⟩
      | freed id ctx =>
          simp only [SendMemory.step, resume, hpoint, Option.some.injEq] at step
          subst step
          obtain ⟨lost', haccounted, hloses⟩ := release_accounted accounted hpoint
          exact ⟨lost', haccounted, by simpa [leaks, leaksAt, hpoint] using hloses⟩
  | afterWrite peer =>
      simp only [SendMemory.step] at step
      split at step
      · obtain ⟨w, hw, rfl⟩ := Option.map_eq_some_iff.mp step
        exact ⟨lost, afterWrite_accounted accounted (List.mem_of_find?_eq_some hw), .nothing id⟩
      · cases step
  | close peer =>
      simp only [SendMemory.step] at step
      split at step
      · cases step
        exact ⟨lost, accounted.of_same rfl rfl rfl rfl rfl rfl rfl fun _ => rfl, .nothing id⟩
      · cases step
  | afterClose peer =>
      simp only [SendMemory.step] at step
      split at step
      · cases step
        exact ⟨lost, accounted.of_same rfl rfl rfl rfl rfl rfl rfl fun _ => rfl, .nothing id⟩
      · cases step

end SendMemory

end AnotherWs
