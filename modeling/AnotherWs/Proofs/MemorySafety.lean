/-
Module: AnotherWs.Proofs.MemorySafety
Purpose: What holds of the memory of the send path in every run: nothing is freed twice or used
  after it was freed, and what is never freed comes from four kinds of steps.
Trusted boundary: none
Main exports: SendMemory.Quiet, memory_safe, memory_leaks_iff
-/
import AnotherWs.Proofs.SendMemory

namespace AnotherWs

open Heaps Machines

namespace SendMemory

variable {s s' : SendMemory} {lost : Block → Prop}

/-- A step that loses nothing. -/
def Careful (s : SendMemory) (a : MemoryAction) : Prop := ¬ s.leaks a

instance decidableLeaksAt (s : SendMemory) : ∀ point, Decidable (s.leaksAt point)
  | .requested _ ctx _ =>
      inferInstanceAs (Decidable (s.connected ctx.peer = true ∧ s.closing ctx.peer = true))
  | .freed id ctx => inferInstanceAs (Decidable (∃ newer ∈ (s.pool.asyncs id).data, newer ≠ ctx))
  | .idle | .loaded _ _ | .failed _ _ | .sent _ _ => instDecidableFalse

instance decidableCareful (s : SendMemory) : ∀ a, Decidable (s.Careful a)
  | .copy thread memory => inferInstanceAs (Decidable (¬ ∃ c ∈ s.senders thread,
      s.Refuses c memory ∧ (s.drafts thread).frame = true ∧ (s.drafts thread).split = true))
  | .fill thread => inferInstanceAs (Decidable (¬ ∃ c ∈ s.senders thread,
      ∃ old ∈ (s.pool.asyncs (c.async c.i)).data, s.point.target ≠ some (c.async c.i, old)))
  | .resume _ => inferInstanceAs (Decidable (¬ s.leaksAt s.point))
  | .call _ _ _ | .notify _ | .visit _ | .afterWrite _ | .close _ | .afterClose _ =>
      inferInstanceAs (Decidable (¬ False))

/-- No thread is in a send call, no handle has a context, and libuv has called everything back. -/
structure Quiet (s : SendMemory) : Prop where
  senders : ∀ t, s.senders t = none
  handles : ∀ id, (s.pool.asyncs id).data = none
  point : s.point = .idle
  writes : s.writes = []

theorem Quiet.owns (quiet : s.Quiet) (o : Owner) (b : Block) : ¬ s.owns o b := by
  cases o with
  | sender t => simp [SendMemory.owns, quiet.senders]
  | handle id => simp [SendMemory.owns, quiet.handles]
  | loop => simp [SendMemory.owns, quiet.point, CallbackPoint.blocks]
  | libuv n => simp [SendMemory.owns, quiet.writes]

theorem quiet_init (size : Nat) (connected : Nat → Bool) : (SendMemory.init size connected).Quiet :=
  ⟨fun _ => rfl, fun _ => rfl, rfl, rfl⟩

theorem accounted_init (size : Nat) (connected : Nat → Bool) :
    (SendMemory.init size connected).Accounted fun _ => False where
  ledger :=
    { sound := rfl
      live_iff := by
        intro b
        constructor
        · intro h
          cases h
        · rintro (h | ⟨o, ho⟩)
          · exact h.elim
          · exact absurd ho ((quiet_init size connected).owns o b)
      unique := fun ho => absurd ho ((quiet_init size connected).owns _ _)
      apart := fun _ h => h }
  known := fun b hb => by cases hb
  target := fun h => by cases h
  nodup := fun hw => by cases hw
  apart :=
    { call_lt := fun h => by cases h
      distinct := fun h => by cases h
      copied := fun h => by cases h }

/-- **The account of a run.** What was lost stays lost, and nothing more is lost exactly by a
careful run. -/
theorem run_accounted (accounted : s.Accounted lost) {actions : List MemoryAction}
    (run : memoryMachine.exec s actions = some s') :
    ∃ lost', s'.Accounted lost' ∧ (∀ b, lost b → lost' b) ∧
      (memoryMachine.Guarded Careful s actions ↔ ∀ b, lost' b → lost b) := by
  induction actions generalizing s lost with
  | nil =>
      cases run
      exact ⟨lost, accounted, fun _ h => h, fun _ _ h => h, fun _ => trivial⟩
  | cons a rest ih =>
      obtain ⟨mid, hstep, hrest⟩ := Machine.exec_cons.mp run
      obtain ⟨lostMid, hmid, hkeeps, hleaks⟩ := step_accounted accounted hstep
      obtain ⟨lost', haccounted, hkeeps', hcareful⟩ := ih hmid hrest
      refine ⟨lost', haccounted, fun b hb => hkeeps' b (hkeeps b hb), ?_⟩
      rw [Machine.Guarded.cons_iff hstep, hcareful, Careful, hleaks, not_exists]
      constructor
      · rintro ⟨hnone, hsame⟩ b hb
        by_contra hnot
        exact hnone b ⟨hsame b hb, hnot⟩
      · intro hsame
        exact ⟨fun b hb => hb.2 (hsame b (hkeeps' b hb.1)), fun b hb => hkeeps b (hsame b hb)⟩

end SendMemory

open SendMemory

/-- **Memory safety.** In no run of any number of threads is a block freed twice, or used after it
was freed. -/
theorem memory_safe {size : Nat} {connected : Nat → Bool} {actions : List MemoryAction} {s : SendMemory}
    (run : memoryMachine.exec (SendMemory.init size connected) actions = some s) :
    s.heap.misused = false := by
  obtain ⟨lost, haccounted, -⟩ := run_accounted (accounted_init size connected) run
  exact haccounted.ledger.sound

/-- **Leaks.** In every state of every run, each live block is one that a thread, a handle, the
callback or libuv will still free, exactly if no step of the run has been one of the four that lose
blocks; and when nothing is going on, everything has been freed exactly if none has. -/
theorem memory_leaks_iff {size : Nat} {connected : Nat → Bool} {actions : List MemoryAction}
    {s : SendMemory} (run : memoryMachine.exec (SendMemory.init size connected) actions = some s) :
    ((∀ b, s.heap.live b = true → ∃ o, s.owns o b) ↔
        memoryMachine.Guarded Careful (SendMemory.init size connected) actions) ∧
      (s.Quiet → ((∀ b, s.heap.live b = false) ↔
        memoryMachine.Guarded Careful (SendMemory.init size connected) actions)) := by
  obtain ⟨lost, haccounted, -, hcareful⟩ := run_accounted (accounted_init size connected) run
  have hledger := haccounted.ledger
  have howned : (∀ b, s.heap.live b = true → ∃ o, s.owns o b) ↔ ∀ b, ¬ lost b := by
    constructor
    · intro h b hb
      obtain ⟨o, ho⟩ := h b (hledger.live_of_lost hb)
      exact hledger.apart ho hb
    · intro h b hb
      exact ((hledger.live_iff b).mp hb).resolve_left (h b)
  refine ⟨howned.trans hcareful.symm, fun quiet => Iff.trans ?_ (howned.trans hcareful.symm)⟩
  constructor
  · intro h b hb
    rw [h b] at hb
    cases hb
  · intro h b
    rw [← Bool.not_eq_true]
    intro hb
    obtain ⟨o, ho⟩ := h b hb
    exact quiet.owns o b ho

/-! ### A message through its memory -/

/-- One thread sends a message over one handle. -/
def sampleSend : List MemoryAction :=
  [.call 0 ⟨0, [0x81, 0x01, 0x61], none⟩ true, .copy 0 true, .fill 0, .notify 0, .visit 0, .resume true,
    .resume true, .resume true, .resume true, .afterWrite 0]

theorem sampleSend_run : ∃ s, memoryMachine.exec (SendMemory.init 1 fun _ => true) sampleSend = some s ∧
    s.Quiet ∧ s.wire 0 = [0x81, 0x01, 0x61] := by
  refine ⟨_, rfl, ⟨fun t => ?_, fun id => ?_, rfl, rfl⟩, rfl⟩
  · cases t <;> rfl
  · cases id <;> rfl

theorem sampleSend_careful :
    memoryMachine.Guarded Careful (SendMemory.init 1 fun _ => true) sampleSend := by decide

theorem memory_safe_sample :
    ∃ s, memoryMachine.exec (SendMemory.init 1 fun _ => true) sampleSend = some s ∧
      s.heap.misused = false := by
  obtain ⟨s, hrun, -⟩ := sampleSend_run
  exact ⟨s, hrun, memory_safe hrun⟩

theorem memory_leaks_iff_sample :
    ∃ s, memoryMachine.exec (SendMemory.init 1 fun _ => true) sampleSend = some s ∧ s.Quiet ∧
      ∀ b, s.heap.live b = false := by
  obtain ⟨s, hrun, hquiet, -⟩ := sampleSend_run
  exact ⟨s, hrun, hquiet, ((memory_leaks_iff hrun).2 hquiet).mpr sampleSend_careful⟩

end AnotherWs
