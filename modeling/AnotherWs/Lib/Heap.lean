/-
Module: AnotherWs.Lib.Heap
Purpose: Blocks of memory that are allocated, read and freed, and a ledger of who has to free each
  live block. Every block has one owner or is lost, so a ledger that is kept says at once that
  nothing is freed twice or read after it was freed, and what is left over when nobody owns anything.
Trusted boundary: an allocation gives a block of a name that has not been used
Main exports: Heap, Heap.Ledger, Ledger.alloc, Ledger.free, Ledger.use, Ledger.move, Ledger.lose
-/
import Mathlib.Logic.Function.Basic

namespace Heaps

/-- Which blocks are live. `misused` says that a block was read or freed while it was not live, or
handed out while it was. -/
structure Heap (β : Type) where
  live : β → Bool
  misused : Bool

namespace Heap

variable {β ο : Type} [DecidableEq β]

omit [DecidableEq β] in
/-- A heap without blocks. -/
def empty : Heap β := ⟨fun _ => false, false⟩

def alloc (h : Heap β) (b : β) : Heap β := ⟨Function.update h.live b true, h.misused || h.live b⟩

def free (h : Heap β) (b : β) : Heap β := ⟨Function.update h.live b false, h.misused || !h.live b⟩

omit [DecidableEq β] in
/-- Reading or writing a block. -/
def use (h : Heap β) (b : β) : Heap β := { h with misused := h.misused || !h.live b }

section Live

variable (h : Heap β) {b b' : β}

@[simp] theorem live_alloc_self : (h.alloc b).live b = true := Function.update_self ..

theorem live_alloc_of_ne (different : b' ≠ b) : (h.alloc b).live b' = h.live b' :=
  Function.update_of_ne different ..

@[simp] theorem live_free_self : (h.free b).live b = false := Function.update_self ..

theorem live_free_of_ne (different : b' ≠ b) : (h.free b).live b' = h.live b' :=
  Function.update_of_ne different ..

/-- What is live behind an allocation was live, or is what was allocated. -/
theorem live_of_alloc (live : (h.alloc b).live b' = true) : h.live b' = true ∨ b' = b := by
  by_cases hb : b' = b
  · exact Or.inr hb
  · rw [live_alloc_of_ne h hb] at live
    exact Or.inl live

/-- What is live behind a free was live. -/
theorem live_of_free (live : (h.free b).live b' = true) : h.live b' = true := by
  by_cases hb : b' = b
  · rw [hb, live_free_self] at live
    cases live
  · rwa [live_free_of_ne h hb] at live

omit [DecidableEq β] in
@[simp] theorem live_use : (h.use b).live = h.live := rfl

end Live

/-- Nothing was misused, the live blocks are those that are owned and those that are lost, and no
block is either twice. -/
structure Ledger (h : Heap β) (owns : ο → β → Prop) (lost : β → Prop) : Prop where
  sound : h.misused = false
  live_iff : ∀ b, h.live b = true ↔ lost b ∨ ∃ o, owns o b
  unique : ∀ {o o' b}, owns o b → owns o' b → o = o'
  apart : ∀ {o b}, owns o b → ¬ lost b

namespace Ledger

variable {h : Heap β} {owns owns' : ο → β → Prop} {lost : β → Prop} {o : ο} {b : β}

omit [DecidableEq β]

theorem live (ledger : h.Ledger owns lost) (mine : owns o b) : h.live b = true :=
  (ledger.live_iff b).mpr (Or.inr ⟨o, mine⟩)

theorem live_of_lost (ledger : h.Ledger owns lost) (gone : lost b) : h.live b = true :=
  (ledger.live_iff b).mpr (Or.inl gone)

/-- Blocks of one owner are not those of another. -/
theorem not_of_other (ledger : h.Ledger owns lost) {blocks : β → Prop} (mine : ∀ b, blocks b → owns o b)
    {x : ο} (other : x ≠ o) (theirs : owns x b) : ¬ blocks b :=
  fun hb => other (ledger.unique theirs (mine b hb))

theorem congr (ledger : h.Ledger owns lost) (same : ∀ o b, owns' o b ↔ owns o b) :
    h.Ledger owns' lost := by
  have hsame : owns' = owns := funext fun o => funext fun b => propext (same o b)
  exact hsame ▸ ledger

/-- A block that somebody owns may be read. -/
theorem use (ledger : h.Ledger owns lost) (mine : owns o b) : (h.use b).Ledger owns lost where
  sound := by rw [Heap.use, ledger.sound, ledger.live mine]; rfl
  live_iff := ledger.live_iff
  unique := ledger.unique
  apart := ledger.apart

/-- Blocks go from one owner to another. -/
theorem move (ledger : h.Ledger owns lost) (blocks : β → Prop) (mine : ∀ b, blocks b → owns o b)
    (o' : ο) :
    h.Ledger (fun x b => owns x b ∧ ¬ blocks b ∨ x = o' ∧ blocks b) lost where
  sound := ledger.sound
  live_iff := by
    intro b
    rw [ledger.live_iff]
    apply or_congr_right
    by_cases hb : blocks b
    · exact ⟨fun _ => ⟨o', Or.inr ⟨rfl, hb⟩⟩, fun _ => ⟨o, mine b hb⟩⟩
    · constructor
      · rintro ⟨x, hx⟩
        exact ⟨x, Or.inl ⟨hx, hb⟩⟩
      · rintro ⟨x, hx | hx⟩
        · exact ⟨x, hx.1⟩
        · exact absurd hx.2 hb
  unique := by
    rintro x x' b (hx | hx) (hx' | hx')
    · exact ledger.unique hx.1 hx'.1
    · exact absurd hx'.2 hx.2
    · exact absurd hx.2 hx'.2
    · rw [hx.1, hx'.1]
  apart := by
    rintro x b (hx | hx)
    · exact ledger.apart hx.1
    · exact ledger.apart (mine b hx.2)

/-- Blocks that nobody will free any more are lost. -/
theorem lose (ledger : h.Ledger owns lost) (blocks : β → Prop) (mine : ∀ b, blocks b → owns o b) :
    h.Ledger (fun x b => owns x b ∧ ¬ blocks b) (fun b => lost b ∨ blocks b) where
  sound := ledger.sound
  live_iff := by
    intro b
    rw [ledger.live_iff, or_assoc]
    apply or_congr_right
    by_cases hb : blocks b
    · exact ⟨fun _ => Or.inl hb, fun _ => ⟨o, mine b hb⟩⟩
    · constructor
      · rintro ⟨x, hx⟩
        exact Or.inr ⟨x, hx, hb⟩
      · rintro (hx | ⟨x, hx⟩)
        · exact absurd hx hb
        · exact ⟨x, hx.1⟩
  unique := fun hx hx' => ledger.unique hx.1 hx'.1
  apart := by
    rintro x b ⟨hx, hb⟩ (hlost | hblock)
    · exact ledger.apart hx hlost
    · exact hb hblock

/-- What is not live is neither owned nor lost. -/
theorem free_of_not_live (ledger : h.Ledger owns lost) (fresh : h.live b = false) :
    (∀ o, ¬ owns o b) ∧ ¬ lost b := by
  rw [← Bool.not_eq_true, ledger.live_iff, not_or, not_exists] at fresh
  exact ⟨fresh.2, fresh.1⟩

variable [DecidableEq β]

/-- A block that is not live goes to an owner. -/
theorem alloc (ledger : h.Ledger owns lost) (fresh : h.live b = false) (o : ο) :
    (h.alloc b).Ledger (fun x b' => owns x b' ∨ x = o ∧ b' = b) lost where
  sound := by rw [Heap.alloc, ledger.sound, fresh]; rfl
  live_iff := by
    intro b'
    by_cases hb : b' = b
    · rw [hb, live_alloc_self h]
      exact ⟨fun _ => Or.inr ⟨o, Or.inr ⟨rfl, rfl⟩⟩, fun _ => rfl⟩
    · rw [live_alloc_of_ne h hb, ledger.live_iff]
      apply or_congr_right
      apply exists_congr
      intro x
      constructor
      · exact Or.inl
      · rintro (hx | hx)
        · exact hx
        · exact absurd hx.2 hb
  unique := by
    obtain ⟨hnobody, -⟩ := ledger.free_of_not_live fresh
    rintro x x' b' (hx | hx) (hx' | hx')
    · exact ledger.unique hx hx'
    · exact absurd (hx'.2 ▸ hx) (hnobody x)
    · exact absurd (hx.2 ▸ hx') (hnobody x')
    · rw [hx.1, hx'.1]
  apart := by
    rintro x b' (hx | hx) hlost
    · exact ledger.apart hx hlost
    · exact (ledger.free_of_not_live fresh).2 (hx.2 ▸ hlost)

/-- A block that somebody owns may be freed. -/
theorem free (ledger : h.Ledger owns lost) (mine : owns o b) :
    (h.free b).Ledger (fun x b' => owns x b' ∧ b' ≠ b) lost where
  sound := by rw [Heap.free, ledger.sound, ledger.live mine]; rfl
  live_iff := by
    intro b'
    by_cases hb : b' = b
    · rw [hb, live_free_self h]
      constructor
      · intro h
        cases h
      · rintro (hlost | ⟨x, hx⟩)
        · exact absurd hlost (ledger.apart mine)
        · exact absurd rfl hx.2
    · rw [live_free_of_ne h hb, ledger.live_iff]
      apply or_congr_right
      exact exists_congr fun x => ⟨fun hx => ⟨hx, hb⟩, fun hx => hx.1⟩
  unique := fun hx hx' => ledger.unique hx.1 hx'.1
  apart := fun hx => ledger.apart hx.1

omit [DecidableEq β] in
/-- A move, when the owners after it are known one by one. -/
theorem moves (ledger : h.Ledger owns lost) (blocks : β → Prop) (mine : ∀ b, blocks b → owns o b)
    {o' : ο} (different : o ≠ o') (source : ∀ b, owns' o b ↔ owns o b ∧ ¬ blocks b)
    (target : ∀ b, owns' o' b ↔ owns o' b ∨ blocks b)
    (others : ∀ x, x ≠ o → x ≠ o' → ∀ b, owns' x b ↔ owns x b) : h.Ledger owns' lost := by
  refine (ledger.move blocks mine o').congr fun x b => ?_
  have hother := fun h => ledger.not_of_other (x := x) (b := b) mine h
  by_cases ho : x = o
  · subst ho
    rw [source]
    simp [different]
  · by_cases ho' : x = o'
    · subst ho'
      rw [target]
      have hnot := hother ho
      by_cases hb : blocks b <;> simp [hb]
    · rw [others x ho ho']
      have hnot := hother ho
      exact ⟨fun h => Or.inl ⟨h, hnot h⟩, fun h => h.elim And.left fun h => absurd h.1 ho'⟩

omit [DecidableEq β] in
/-- A loss, when the owners after it are known one by one. -/
theorem loses (ledger : h.Ledger owns lost) (blocks : β → Prop) (mine : ∀ b, blocks b → owns o b)
    (source : ∀ b, owns' o b ↔ owns o b ∧ ¬ blocks b)
    (others : ∀ x, x ≠ o → ∀ b, owns' x b ↔ owns x b) :
    h.Ledger owns' (fun b => lost b ∨ blocks b) := by
  refine (ledger.lose blocks mine).congr fun x b => ?_
  by_cases ho : x = o
  · rw [ho, source]
  · rw [others x ho]
    exact ⟨fun h => ⟨h, ledger.not_of_other mine ho h⟩, And.left⟩

/-- A free, when the owners after it are known one by one. -/
theorem frees (ledger : h.Ledger owns lost) (mine : owns o b)
    (source : ∀ b', owns' o b' ↔ owns o b' ∧ b' ≠ b)
    (others : ∀ x, x ≠ o → ∀ b', owns' x b' ↔ owns x b') : (h.free b).Ledger owns' lost := by
  refine (ledger.free mine).congr fun x b' => ?_
  by_cases ho : x = o
  · rw [ho, source]
  · rw [others x ho]
    exact ⟨fun h => ⟨h, fun hb => ho (ledger.unique h (hb ▸ mine))⟩, And.left⟩

end Ledger

end Heap

end Heaps
