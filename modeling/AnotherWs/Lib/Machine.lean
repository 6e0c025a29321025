/-
Module: AnotherWs.Lib.Machine
Purpose: Machines whose steps are actions of several parties. A run is a list of actions in the order in
which they happen; a guard says of an action what must hold in the state before it.
Trusted boundary: none
Main exports:
  Machine, Machine.exec, Machine.Guarded, Machine.exec_invariant, Machine.exec_history,
  Machine.exists_run_of_progress, Machine.exec_measure, Machine.exec_simulates
-/
import Mathlib.Data.List.Basic

namespace Machines

/-- A step function over actions. `none` is an action that is not possible in the state. -/
structure Machine (σ α : Type*) where
  step : σ → α → Option σ

namespace Machine

variable {σ α : Type*} (M : Machine σ α)

/-- The state after a run. -/
def exec : σ → List α → Option σ
  | s, [] => some s
  | s, a :: rest => (M.step s a).bind fun s' => exec s' rest

/-- Every action of the run meets the guard in the state before it. -/
def Guarded (guard : σ → α → Prop) : σ → List α → Prop
  | _, [] => True
  | s, a :: rest => guard s a ∧ ∀ s', M.step s a = some s' → Guarded guard s' rest

variable {M}

@[simp] theorem exec_nil (s : σ) : M.exec s [] = some s := rfl

theorem exec_cons {s s' : σ} {a : α} {rest : List α} :
    M.exec s (a :: rest) = some s' ↔
      ∃ mid, M.step s a = some mid ∧ M.exec mid rest = some s' := by
  rw [exec]
  exact Option.bind_eq_some_iff

theorem exec_singleton (s : σ) (a : α) : M.exec s [a] = M.step s a := Option.bind_fun_some _

/-- A run in two parts. -/
theorem exec_append {s mid s' : σ} {front rest : List α} (first : M.exec s front = some mid)
    (second : M.exec mid rest = some s') : M.exec s (front ++ rest) = some s' := by
  induction front generalizing s with
  | nil =>
      cases first
      exact second
  | cons a front ih =>
      obtain ⟨next, hstep, hfront⟩ := exec_cons.mp first
      exact exec_cons.mpr ⟨next, hstep, ih hfront⟩

/-- Runs of a machine with decidable guards can be tested. -/
instance Guarded.decidable {guard : σ → α → Prop} [∀ s a, Decidable (guard s a)] :
    ∀ s actions, Decidable (M.Guarded guard s actions)
  | _, [] => .isTrue trivial
  | s, a :: rest =>
      match hstep : M.step s a with
      | none => decidable_of_iff (guard s a)
          ⟨fun h => ⟨h, fun s' h' => by rw [hstep] at h'; cases h'⟩, fun h => h.1⟩
      | some s' =>
          have : Decidable (M.Guarded guard s' rest) := Guarded.decidable s' rest
          decidable_of_iff (guard s a ∧ M.Guarded guard s' rest)
            ⟨fun h => ⟨h.1, fun mid hmid => by
              rw [hstep, Option.some.injEq] at hmid
              exact hmid ▸ h.2⟩, fun h => ⟨h.1, h.2 s' hstep⟩⟩

theorem Guarded.mono {guard weaker : σ → α → Prop} (h : ∀ s a, guard s a → weaker s a) {s : σ}
    {actions : List α} (guarded : M.Guarded guard s actions) : M.Guarded weaker s actions := by
  induction actions generalizing s with
  | nil => trivial
  | cons a rest ih => exact ⟨h s a guarded.1, fun s' hstep => ih (guarded.2 s' hstep)⟩

/-- A guard that follows from another one where an invariant of the run holds. -/
theorem Guarded.of_invariant (invariant : σ → Prop) {guard other : σ → α → Prop}
    (preserved : ∀ s a s', invariant s → guard s a → M.step s a = some s' → invariant s')
    (implied : ∀ s a, invariant s → guard s a → other s a) {s : σ} {actions : List α}
    (initial : invariant s) (guarded : M.Guarded guard s actions) : M.Guarded other s actions := by
  induction actions generalizing s with
  | nil => trivial
  | cons a rest ih =>
      exact ⟨implied s a initial guarded.1, fun s' hstep =>
        ih (preserved s a s' initial guarded.1 hstep) (guarded.2 s' hstep)⟩

/-- A guard on a run whose first step is known. -/
theorem Guarded.cons_iff {guard : σ → α → Prop} {s mid : σ} {a : α} {rest : List α}
    (step : M.step s a = some mid) :
    M.Guarded guard s (a :: rest) ↔ guard s a ∧ M.Guarded guard mid rest := by
  rw [Guarded]
  apply and_congr_right
  intro _
  constructor
  · intro h
    exact h mid step
  · intro h s' hstep
    rw [step, Option.some.injEq] at hstep
    exact hstep ▸ h

/-- A guard on a run in two parts. -/
theorem Guarded.append {guard : σ → α → Prop} {s mid : σ} {front rest : List α}
    (first : M.Guarded guard s front) (run : M.exec s front = some mid)
    (second : M.Guarded guard mid rest) : M.Guarded guard s (front ++ rest) := by
  induction front generalizing s with
  | nil =>
      cases run
      exact second
  | cons a front ih =>
      obtain ⟨next, hstep, hfront⟩ := exec_cons.mp run
      exact (Guarded.cons_iff hstep).mpr ⟨first.1, ih (first.2 next hstep) hfront⟩

/-- A guard that no action of the list can miss is met by every run of it. -/
theorem Guarded.of_forall {guard : σ → α → Prop} {actions : List α}
    (h : ∀ a ∈ actions, ∀ s, guard s a) (s : σ) : M.Guarded guard s actions := by
  induction actions generalizing s with
  | nil => trivial
  | cons a rest ih =>
      exact ⟨h a List.mem_cons_self s, fun s' _ =>
        ih (fun b hb => h b (List.mem_cons_of_mem _ hb)) s'⟩

theorem Guarded.and {guard other : σ → α → Prop} {s : σ} {actions : List α}
    (first : M.Guarded guard s actions) (second : M.Guarded other s actions) :
    M.Guarded (fun s a => guard s a ∧ other s a) s actions := by
  induction actions generalizing s with
  | nil => trivial
  | cons a rest ih =>
      exact ⟨⟨first.1, second.1⟩, fun s' hstep => ih (first.2 s' hstep) (second.2 s' hstep)⟩

/-- **Invariants.** What every guarded step preserves, every guarded run preserves. -/
theorem exec_invariant (invariant : σ → Prop) {guard : σ → α → Prop}
    (preserved : ∀ s a s', invariant s → guard s a → M.step s a = some s' → invariant s')
    {s s' : σ} {actions : List α} (initial : invariant s) (guarded : M.Guarded guard s actions)
    (run : M.exec s actions = some s') : invariant s' := by
  induction actions generalizing s with
  | nil =>
      cases run
      exact initial
  | cons a rest ih =>
      obtain ⟨mid, hstep, hrest⟩ := exec_cons.mp run
      exact ih (preserved s a mid initial guarded.1 hstep) (guarded.2 mid hstep) hrest

/-- An invariant that needs no guard. -/
theorem exec_invariant_of_step (invariant : σ → Prop)
    (preserved : ∀ s a s', invariant s → M.step s a = some s' → invariant s')
    {s s' : σ} {actions : List α} (initial : invariant s) (run : M.exec s actions = some s') :
    invariant s' := by
  have free : M.Guarded (fun _ _ => True) s actions := .of_forall (fun _ _ _ => trivial) s
  exact exec_invariant invariant (fun s a s' h _ => preserved s a s' h) initial free run

/-- **Histories.** An invariant of the state and of the actions that have led to it. -/
theorem exec_history (invariant : List α → σ → Prop) {guard : σ → α → Prop}
    (preserved : ∀ past s a s', invariant past s → guard s a → M.step s a = some s' →
      invariant (past ++ [a]) s')
    {s s' : σ} {actions : List α} (initial : invariant [] s) (guarded : M.Guarded guard s actions)
    (run : M.exec s actions = some s') : invariant actions s' := by
  have hfrom : ∀ past, invariant past s → invariant (past ++ actions) s' := by
    clear initial
    induction actions generalizing s with
    | nil =>
        intro past h
        cases run
        rwa [List.append_nil]
    | cons a rest ih =>
        intro past h
        obtain ⟨mid, hstep, hrest⟩ := exec_cons.mp run
        have hmid := ih (guarded.2 mid hstep) hrest (past ++ [a])
          (preserved past s a mid h guarded.1 hstep)
        rwa [List.append_assoc] at hmid
  exact hfrom [] initial

/-- **Progress.** Where an allowed step brings a measure down whenever it is not zero, some allowed
run brings it to zero. -/
theorem exists_run_of_progress (invariant : σ → Prop) {guard : σ → α → Prop} (measure : σ → Nat)
    (progress : ∀ s, invariant s → 0 < measure s →
      ∃ a s', guard s a ∧ M.step s a = some s' ∧ invariant s' ∧ measure s' < measure s)
    {s : σ} (initial : invariant s) :
    ∃ actions s', M.exec s actions = some s' ∧ M.Guarded guard s actions ∧ invariant s' ∧
      measure s' = 0 := by
  induction hn : measure s using Nat.strongRecOn generalizing s with
  | ind n ih =>
      by_cases hzero : measure s = 0
      · exact ⟨[], s, rfl, trivial, initial, hzero⟩
      · obtain ⟨a, mid, hguard, hstep, hmid, hless⟩ := progress s initial (by omega)
        obtain ⟨actions, s', hrun, hguarded, hlast, hmeasure⟩ := ih _ (hn ▸ hless) hmid rfl
        exact ⟨a :: actions, s', exec_cons.mpr ⟨mid, hstep, hrun⟩,
          (Guarded.cons_iff hstep).mpr ⟨hguard, hguarded⟩, hlast, hmeasure⟩

/-- **Bounded runs.** Where every allowed step brings a measure down, a run is no longer than the
measure. -/
theorem exec_measure (invariant : σ → Prop) {guard : σ → α → Prop} (measure : σ → Nat)
    (lowers : ∀ s a s', invariant s → guard s a → M.step s a = some s' →
      invariant s' ∧ measure s' < measure s)
    {s s' : σ} {actions : List α} (initial : invariant s) (guarded : M.Guarded guard s actions)
    (run : M.exec s actions = some s') :
    invariant s' ∧ actions.length + measure s' ≤ measure s := by
  refine exec_history (fun past t => invariant t ∧ past.length + measure t ≤ measure s) ?_
    ⟨initial, by simp⟩ guarded run
  intro past t a t' ⟨hinv, hle⟩ hguard hstep
  obtain ⟨hinv', hless⟩ := lowers t a t' hinv hguard hstep
  refine ⟨hinv', ?_⟩
  rw [List.length_append, List.length_singleton]
  omega

/-- **Simulation.** Where another machine follows every allowed step with an allowed run of its own,
it follows every allowed run. -/
theorem exec_simulates {τ β : Type*} {N : Machine τ β} (relation : σ → τ → Prop) {guard : σ → α → Prop}
    {guard' : τ → β → Prop}
    (follows : ∀ s a s' t, relation s t → guard s a → M.step s a = some s' →
      ∃ steps t', N.Guarded guard' t steps ∧ N.exec t steps = some t' ∧ relation s' t')
    {s s' : σ} {t : τ} {actions : List α} (initial : relation s t) (guarded : M.Guarded guard s actions)
    (run : M.exec s actions = some s') :
    ∃ steps t', N.Guarded guard' t steps ∧ N.exec t steps = some t' ∧ relation s' t' := by
  induction actions generalizing s t with
  | nil =>
      cases run
      exact ⟨[], t, trivial, rfl, initial⟩
  | cons a rest ih =>
      obtain ⟨mid, hstep, hrest⟩ := exec_cons.mp run
      obtain ⟨front, next, hguarded, hfront, hnext⟩ := follows s a mid t initial guarded.1 hstep
      obtain ⟨back, t', hguarded', hback, hlast⟩ := ih hnext (guarded.2 mid hstep) hrest
      exact ⟨front ++ back, t', hguarded.append hfront hguarded', exec_append hfront hback, hlast⟩

/-- Every action of a run has met its guard in some state. -/
theorem Guarded.exists_of_mem {guard : σ → α → Prop} {s s' : σ} {actions : List α}
    (guarded : M.Guarded guard s actions) (run : M.exec s actions = some s') {a : α}
    (h : a ∈ actions) : ∃ before, guard before a := by
  induction actions generalizing s with
  | nil => exact absurd h List.not_mem_nil
  | cons b rest ih =>
      obtain ⟨mid, hstep, hrest⟩ := exec_cons.mp run
      rcases List.mem_cons.mp h with rfl | h
      · exact ⟨s, guarded.1⟩
      · exact ih (guarded.2 mid hstep) hrest h

end Machine

end Machines
