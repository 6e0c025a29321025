/-
Module: AnotherWs.Lib.Queue
Purpose: Circular lists in both directions whose nodes carry the pointers, with a head that is no
  node. A node is inserted at the tail by three statements and removed by two; in between the ring
  is no list. Where nothing comes in between, they do to the list of the nodes what they are for.
Trusted boundary: none
Main exports: Queue, Queue.Chain, Queue.Holds, Holds.insert, Holds.remove, Holds.neighbours
-/
import Mathlib.Data.List.Nodup
import Mathlib.Logic.Function.Basic

namespace Queues

/-- The two pointers of every node. `none` is the head. -/
structure Queue (α : Type) where
  next : Option α → Option α
  prev : Option α → Option α

namespace Queue

variable {α : Type}

/-- A head that points to itself. -/
def empty : Queue α := ⟨fun _ => none, fun _ => none⟩

/-! ### The statements -/

section Statements

variable [DecidableEq α] (r : Queue α) (q : α)

def setNext (a b : Option α) : Queue α := { r with next := Function.update r.next a b }

def setPrev (a b : Option α) : Queue α := { r with prev := Function.update r.prev a b }

/-- A node gets pointers to the head and to the last node. -/
def prepare : Queue α := (r.setNext (some q) none).setPrev (some q) (r.prev none)

/-- The node in front of it gets a pointer to it. -/
def link : Queue α := r.setNext (r.prev (some q)) (some q)

/-- The head gets a pointer to it. -/
def close : Queue α := r.setPrev none (some q)

/-- The node in front of a node gets a pointer past it. -/
def skip : Queue α := r.setNext (r.prev (some q)) (r.next (some q))

/-- The node behind a node gets a pointer past it. -/
def skipBack : Queue α := r.setPrev (r.next (some q)) (r.prev (some q))

end Statements

/-! ### Chains -/

/-- The pointers lead from `a` through the nodes to `b`, and back. -/
def Chain (r : Queue α) : Option α → List α → Option α → Prop
  | a, [], b => r.next a = b ∧ r.prev b = a
  | a, x :: l, b => r.next a = some x ∧ r.prev (some x) = a ∧ Chain r (some x) l b

namespace Chain

variable {r r' : Queue α} {a b : Option α} {l l' : List α} {q : α}

theorem append_cons : r.Chain a (l ++ q :: l') b ↔ r.Chain a l (some q) ∧ r.Chain (some q) l' b := by
  induction l generalizing a with
  | nil => simp [Chain, and_assoc]
  | cons x l ih => simp [Chain, ih, and_assoc]

/-- A chain only looks forward from its nodes and its begin, and back from its nodes and its end. -/
theorem congr (chain : r.Chain a l b) (next_begin : r'.next a = r.next a)
    (next : ∀ x ∈ l, r'.next (some x) = r.next (some x))
    (prev : ∀ x ∈ l, r'.prev (some x) = r.prev (some x))
    (prev_end : r'.prev b = r.prev b) : r'.Chain a l b := by
  induction l generalizing a with
  | nil => exact ⟨next_begin.trans chain.1, prev_end.trans chain.2⟩
  | cons x l ih =>
      obtain ⟨hnext, hprev, hrest⟩ := chain
      refine ⟨next_begin.trans hnext, (prev x List.mem_cons_self).trans hprev, ?_⟩
      exact ih hrest (next x List.mem_cons_self) (fun y hy => next y (List.mem_cons_of_mem _ hy))
        fun y hy => prev y (List.mem_cons_of_mem _ hy)

/-- What is in front of the end is the begin or a node. -/
theorem prev_end (chain : r.Chain a l b) : r.prev b = a ∨ ∃ x ∈ l, r.prev b = some x := by
  induction l generalizing a with
  | nil => exact Or.inl chain.2
  | cons x l ih =>
      obtain ⟨-, -, hrest⟩ := chain
      rcases ih hrest with hx | ⟨y, hy, hprev⟩
      · exact Or.inr ⟨x, List.mem_cons_self, hx⟩
      · exact Or.inr ⟨y, List.mem_cons_of_mem _ hy, hprev⟩

/-- What is behind the begin is the end or a node. -/
theorem next_begin (chain : r.Chain a l b) : r.next a = b ∨ ∃ x ∈ l, r.next a = some x := by
  cases l with
  | nil => exact Or.inl chain.1
  | cons x l => exact Or.inr ⟨x, List.mem_cons_self, chain.1⟩

variable [DecidableEq α]

/-- The chain gets another end. -/
theorem retarget (chain : r.Chain a l b) (c : Option α) (nodup : l.Nodup)
    (begin_apart : ∀ x ∈ l, a ≠ some x)
    (end_apart : ∀ x ∈ l, c ≠ some x) :
    ((r.setNext (r.prev b) c).setPrev c (r.prev b)).Chain a l c := by
  rcases List.eq_nil_or_concat l with rfl | ⟨front, x, rfl⟩
  · obtain ⟨-, hprev⟩ := chain
    rw [hprev]
    exact ⟨Function.update_self .., Function.update_self ..⟩
  · rw [List.concat_eq_append] at chain nodup begin_apart end_apart ⊢
    obtain ⟨hfront, -, hprev⟩ := append_cons.mp chain
    have hx : ∀ y ∈ front, y ≠ x := fun y hy h => by
      rw [List.nodup_append] at nodup
      exact nodup.2.2 y hy x List.mem_cons_self h
    have hlast : a ≠ some x := begin_apart x (List.mem_append_right _ List.mem_cons_self)
    have hend : c ≠ some x := end_apart x (List.mem_append_right _ List.mem_cons_self)
    rw [hprev]
    refine append_cons.mpr ⟨hfront.congr ?_ (fun y hy => ?_) (fun y hy => ?_) ?_, ?_, ?_⟩
    · exact Function.update_of_ne hlast _ _
    · exact Function.update_of_ne (fun h => hx y hy (Option.some.inj h)) _ _
    · exact Function.update_of_ne (fun h => end_apart y (List.mem_append_left _ hy) h.symm) _ _
    · exact Function.update_of_ne hend.symm _ _
    · exact Function.update_self ..
    · exact Function.update_self ..

end Chain

/-! ### Lists -/

/-- The ring is the list of these nodes. -/
structure Holds (r : Queue α) (l : List α) : Prop where
  nodup : l.Nodup
  chain : r.Chain none l none

namespace Holds

variable {r : Queue α} {l : List α} {q : α}

theorem empty : (Queue.empty : Queue α).Holds [] := ⟨List.nodup_nil, rfl, rfl⟩

/-- The head points to itself where there is no node. -/
theorem next_head (holds : r.Holds l) : r.next none = none ↔ l = [] := by
  cases l with
  | nil => simp [holds.chain.1]
  | cons x l => simp [holds.chain.1]

/-- The last node is a node. -/
theorem last_mem (holds : r.Holds l) {x : α} (last : r.prev none = some x) : x ∈ l := by
  rcases holds.chain.prev_end with hnone | ⟨y, hy, hprev⟩
  · rw [last] at hnone
    cases hnone
  · rw [last, Option.some.injEq] at hprev
    exact hprev ▸ hy

/-- Both pointers of a node lead to other nodes or to the head. -/
theorem neighbours (holds : r.Holds l) (mem : q ∈ l) :
    (∀ x, r.next (some q) = some x → x ∈ l ∧ x ≠ q) ∧ ∀ x, r.prev (some q) = some x →
      x ∈ l ∧ x ≠ q := by
  obtain ⟨front, back, rfl⟩ := List.append_of_mem mem
  obtain ⟨hfront, hback⟩ := Chain.append_cons.mp holds.chain
  have hnodup := holds.nodup
  rw [List.nodup_middle, List.nodup_cons] at hnodup
  constructor
  · intro x hx
    rcases hback.next_begin with hnone | ⟨y, hy, hnext⟩
    · rw [hx] at hnone
      cases hnone
    · rw [hx, Option.some.injEq] at hnext
      subst hnext
      refine ⟨List.mem_append_right _ (List.mem_cons_of_mem _ hy), ?_⟩
      rintro rfl
      exact hnodup.1 (List.mem_append_right _ hy)
  · intro x hx
    rcases hfront.prev_end with hnone | ⟨y, hy, hprev⟩
    · rw [hx] at hnone
      cases hnone
    · rw [hx, Option.some.injEq] at hprev
      subst hprev
      refine ⟨List.mem_append_left _ hy, ?_⟩
      rintro rfl
      exact hnodup.1 (List.mem_append_left _ hy)

variable [DecidableEq α]

/-- **Insertion.** The three statements put a new node at the tail. -/
theorem insert (holds : r.Holds l) (fresh : q ∉ l) :
    (((r.prepare q).link q).close q).Holds (l ++ [q]) := by
  have hq : ∀ x ∈ l, some q ≠ some x := fun x hx h => fresh (Option.some.inj h ▸ hx)
  have hretarget := holds.chain.retarget (some q) holds.nodup (fun _ _ h => (by cases h)) hq
  have hlast : r.prev none ≠ some q := fun h => fresh (holds.last_mem h)
  have hprepared : (r.prepare q).prev (some q) = r.prev none := Function.update_self ..
  refine ⟨?_, Chain.append_cons.mpr ⟨hretarget.congr ?_ (fun x hx => ?_) (fun x hx => ?_) ?_, ?_, ?_⟩⟩
  · rw [List.nodup_append]
    exact ⟨holds.nodup, List.nodup_singleton q, by
      rintro x hx y hy rfl
      exact fresh (List.mem_singleton.mp hy ▸ hx)⟩
  all_goals
    simp only [close, link, setNext, setPrev, hprepared]
    simp only [prepare, setNext, setPrev, Function.update_apply]
    grind

/-- **Removal.** The two statements take a node out. -/
theorem remove (holds : r.Holds l) (mem : q ∈ l) : ((r.skip q).skipBack q).Holds (l.erase q) := by
  obtain ⟨front, back, rfl⟩ := List.append_of_mem mem
  obtain ⟨hfront, hback⟩ := Chain.append_cons.mp holds.chain
  have hnodup := holds.nodup
  rw [List.nodup_middle, List.nodup_cons] at hnodup
  obtain ⟨hfresh, hnodup⟩ := hnodup
  have herase : (front ++ q :: back).erase q = front ++ back := by
    rw [List.erase_append_right _ fun h => hfresh (List.mem_append_left _ h), List.erase_cons_head]
  have hprev : r.prev (some q) ≠ some q := fun h => ((holds.neighbours mem).2 q h).2 rfl
  have hring : (r.skip q).skipBack q =
      (r.setNext (r.prev (some q)) (r.next (some q))).setPrev (r.next (some q)) (r.prev (some q)) := by
    have hkept : (r.skip q).next (some q) = r.next (some q) := Function.update_of_ne hprev.symm _ _
    rw [skipBack, hkept]
    rfl
  rw [herase, hring]
  refine ⟨hnodup, ?_⟩
  have hbegin : ∀ x ∈ front, (none : Option α) ≠ some x := fun x _ h => by cases h
  cases back with
  | nil =>
      rw [hback.1, List.append_nil]
      exact hfront.retarget none (List.nodup_append.mp hnodup).1 hbegin hbegin
  | cons y back =>
      obtain ⟨hnext, -, hrest⟩ := hback
      rw [List.nodup_middle, List.nodup_cons] at hnodup
      have hy : ∀ x ∈ front, some y ≠ some x := fun x hx h =>
        hnodup.1 (Option.some.inj h ▸ List.mem_append_left _ hx)
      have hretarget := hfront.retarget (some y) (List.nodup_append.mp hnodup.2).1 hbegin hy
      rw [hnext]
      -- the rest of the chain is behind both pointers
      have hlast : ∀ x, x = y ∨ x ∈ back → r.prev (some q) ≠ some x := by
        intro x hx h
        rcases hfront.prev_end with hnone | ⟨z, hz, hz'⟩
        · rw [h] at hnone
          cases hnone
        · rw [h, Option.some.injEq] at hz'
          subst hz'
          rcases hx with rfl | hx
          · exact hy x hz rfl
          · rw [List.nodup_append] at hnodup
            exact hnodup.2.2.2 x hz x hx rfl
      refine Chain.append_cons.mpr ⟨hretarget, hrest.congr ?_ (fun x hx => ?_) (fun x hx => ?_) ?_⟩
      · exact Function.update_of_ne (hlast y (Or.inl rfl)).symm _ _
      · exact Function.update_of_ne (hlast x (Or.inr hx)).symm _ _
      · refine Function.update_of_ne (fun h => hnodup.1 ?_) _ _
        exact Option.some.inj h ▸ List.mem_append_right _ hx
      · exact Function.update_of_ne (Option.some_ne_none y).symm (r.prev (some q)) r.prev

end Holds

end Queue

end Queues
