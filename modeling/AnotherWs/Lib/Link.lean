/-
Module: AnotherWs.Lib.Link
Purpose: Two parties that write to each other over channels, first in, first out. A contract says what a
  party keeps true of its state, of what it has read and of what it has written, as long as it reads the
  front of something that it may rely on. Two contracts that promise what the other one relies on
  hold in every run of the link.
  A party that holds back what it writes keeps the contract of one that writes at once.
Trusted boundary: none
Main exports: Party, Channel, Link, LinkAction, linkMachine, Contract, Link.Agree, Link.agree_of_run,
  Buffering, Buffering.contract, Buffering.promises
-/
import AnotherWs.Lib.Machine

namespace Machines

/-- A party: what it does with the elements that reach it, and what it does by itself. Both may
write. How a read comes about, besides its elements, is a `ρ`. -/
structure Party (σ ρ α ε : Type) where
  receive : σ → ρ → List ε → Option (σ × List ε)
  act : σ → α → Option (σ × List ε)

/-- One direction of a link: what has been read, and what is on the way. -/
structure Channel (ε : Type) where
  delivered : List ε
  pending : List ε
deriving DecidableEq

namespace Channel

variable {ε : Type} (c : Channel ε)

def empty : Channel ε := ⟨[], []⟩

/-- Everything that has gone into the channel. -/
def written : List ε := c.delivered ++ c.pending

def write (out : List ε) : Channel ε := { c with pending := c.pending ++ out }

/-- The next `n` elements are read. -/
def read (n : Nat) : Channel ε := ⟨c.delivered ++ c.pending.take n, c.pending.drop n⟩

@[simp] theorem written_write (out : List ε) : (c.write out).written = c.written ++ out :=
  (List.append_assoc _ _ _).symm

/-- Reading loses nothing. -/
@[simp] theorem written_read (n : Nat) : (c.read n).written = c.written := by
  rw [written, read, List.append_assoc, List.take_append_drop, written]

@[simp] theorem delivered_write (out : List ε) : (c.write out).delivered = c.delivered := rfl

@[simp] theorem delivered_read (n : Nat) :
    (c.read n).delivered = c.delivered ++ c.pending.take n := rfl

@[simp] theorem pending_write (out : List ε) : (c.write out).pending = c.pending ++ out := rfl

@[simp] theorem pending_read (n : Nat) : (c.read n).pending = c.pending.drop n := rfl

/-- What has been read, what is read next and what stays on the way. -/
theorem written_split (n : Nat) :
    c.delivered ++ c.pending.take n ++ c.pending.drop n = c.written := by
  rw [List.append_assoc, List.take_append_drop, written]

end Channel

/-- Two parties and the channels between them. -/
structure Link (σ τ ε : Type) where
  left : σ
  right : τ
  toRight : Channel ε
  toLeft : Channel ε

/-- A party reads so many elements, or acts by itself. -/
inductive LinkAction (ρ α π β : Type) where
  | leftReads (n : Nat) (r : ρ)
  | rightReads (n : Nat) (r : π)
  | leftActs (a : α)
  | rightActs (b : β)

namespace Link

variable {σ ρ α τ π β ε : Type}

/-- The left party has stepped. -/
def setLeft (s : Link σ τ ε) (out : σ × List ε) : Link σ τ ε :=
  { s with left := out.1, toRight := s.toRight.write out.2 }

/-- The right party has stepped. -/
def setRight (s : Link σ τ ε) (out : τ × List ε) : Link σ τ ε :=
  { s with right := out.1, toLeft := s.toLeft.write out.2 }

/-- One step. A read takes at least one element, and no more than are on the way. -/
def step (P : Party σ ρ α ε) (Q : Party τ π β ε) (s : Link σ τ ε) :
    LinkAction ρ α π β → Option (Link σ τ ε)
  | .leftReads n r =>
      if 0 < n ∧ n ≤ s.toLeft.pending.length then
        (P.receive s.left r (s.toLeft.pending.take n)).map fun out =>
          { s.setLeft out with toLeft := s.toLeft.read n }
      else none
  | .rightReads n r =>
      if 0 < n ∧ n ≤ s.toRight.pending.length then
        (Q.receive s.right r (s.toRight.pending.take n)).map fun out =>
          { s.setRight out with toRight := s.toRight.read n }
      else none
  | .leftActs a => (P.act s.left a).map s.setLeft
  | .rightActs b => (Q.act s.right b).map s.setRight

end Link

/-- Two parties over a link as a machine. -/
def linkMachine {σ ρ α τ π β ε : Type} (P : Party σ ρ α ε) (Q : Party τ π β ε) :
    Machine (Link σ τ ε) (LinkAction ρ α π β) := ⟨Link.step P Q⟩

/-! ### Contracts -/

/-- What holds of a party at every time, between its state, what it has read and what it has
written. It may rely on what its peer writes, and on its reads and acts to come at the right time. -/
structure Contract {σ ρ α ε : Type} (P : Party σ ρ α ε) where
  holds : σ → List ε → List ε → Prop
  relies : List ε → Prop
  mayRead : σ → ρ → List ε → Prop
  mayAct : σ → α → Prop
  receive : ∀ {s s' : σ} {r : ρ} {x y chunk rest out : List ε}, holds s x y →
    relies (x ++ chunk ++ rest) → chunk ≠ [] → mayRead s r chunk →
    P.receive s r chunk = some (s', out) → holds s' (x ++ chunk) (y ++ out)
  act : ∀ {s s' : σ} {x y out : List ε} {a : α}, holds s x y → mayAct s a →
    P.act s a = some (s', out) → holds s' x (y ++ out)

namespace Link

variable {σ ρ α τ π β ε : Type} {P : Party σ ρ α ε} {Q : Party τ π β ε}

/-- Reads and acts come at the time that the contracts rely on. -/
def InTime (p : Contract P) (q : Contract Q) (s : Link σ τ ε) :
    LinkAction ρ α π β → Prop
  | .leftReads n r => p.mayRead s.left r (s.toLeft.pending.take n)
  | .rightReads n r => q.mayRead s.right r (s.toRight.pending.take n)
  | .leftActs a => p.mayAct s.left a
  | .rightActs b => q.mayAct s.right b

/-- Both contracts hold. -/
structure Agree (p : Contract P) (q : Contract Q) (s : Link σ τ ε) : Prop where
  left : p.holds s.left s.toLeft.delivered s.toRight.written
  right : q.holds s.right s.toRight.delivered s.toLeft.written

/-- What is read next is not nothing. -/
theorem take_ne_nil {xs : List ε} {n : Nat} (positive : 0 < n) (le : n ≤ xs.length) :
    xs.take n ≠ [] := by
  apply List.ne_nil_of_length_pos
  rw [List.length_take]
  omega

section Rule

variable {p : Contract P} {q : Contract Q}
  (promises : ∀ {t : τ} {x y : List ε}, q.holds t x y → p.relies y)
  (promises' : ∀ {s : σ} {x y : List ε}, p.holds s x y → q.relies y)

include promises promises'

/-- A step of either party keeps both contracts. -/
theorem Agree.step {s s' : Link σ τ ε} {a : LinkAction ρ α π β} (agree : Agree p q s)
    (inTime : InTime p q s a) (step : (linkMachine P Q).step s a = some s') : Agree p q s' := by
  cases a with
  | leftReads n r =>
      simp only [linkMachine, Link.step] at step
      split at step
      · rename_i hn
        obtain ⟨out, hout, rfl⟩ := Option.map_eq_some_iff.mp step
        have hrelies := promises agree.right
        rw [← s.toLeft.written_split n] at hrelies
        have hleft := p.receive agree.left hrelies (take_ne_nil hn.1 hn.2) inTime hout
        constructor
        · simpa [setLeft] using hleft
        · simpa [setLeft] using agree.right
      · cases step
  | rightReads n r =>
      simp only [linkMachine, Link.step] at step
      split at step
      · rename_i hn
        obtain ⟨out, hout, rfl⟩ := Option.map_eq_some_iff.mp step
        have hrelies := promises' agree.left
        rw [← s.toRight.written_split n] at hrelies
        have hright := q.receive agree.right hrelies (take_ne_nil hn.1 hn.2) inTime hout
        constructor
        · simpa [setRight] using agree.left
        · simpa [setRight] using hright
      · cases step
  | leftActs a =>
      obtain ⟨out, hout, rfl⟩ := Option.map_eq_some_iff.mp step
      have hleft := p.act agree.left inTime hout
      constructor
      · simpa [setLeft] using hleft
      · simpa [setLeft] using agree.right
  | rightActs b =>
      obtain ⟨out, hout, rfl⟩ := Option.map_eq_some_iff.mp step
      have hright := q.act agree.right inTime hout
      constructor
      · simpa [setRight] using agree.left
      · simpa [setRight] using hright

/-- **Assume and guarantee.** Two contracts that promise what the other one relies on hold in every
run. -/
theorem agree_of_run {s s' : Link σ τ ε} {actions : List (LinkAction ρ α π β)} (agree : Agree p q s)
    (inTime : (linkMachine P Q).Guarded (InTime p q) s actions)
    (run : (linkMachine P Q).exec s actions = some s') : Agree p q s' :=
  Machine.exec_invariant (Agree p q) (fun _ _ _ h guard step => h.step promises promises' guard step)
    agree inTime run

end Rule

end Link

/-! ### Parties that hold back what they write -/

/-- How a party `B` that holds back some of what it writes follows one that writes at once: it reads
as that one does, and what it does by itself is an act of that one or none. What it writes, and what
it holds back then, is what it held back and what the other one writes. -/
structure Buffering {σ τ ρ α β ε : Type} {P : Party σ ρ α ε} (p : Contract P) (B : Party τ ρ β ε) where
  rel : τ → σ → List ε → Prop
  mayRead : τ → ρ → List ε → Prop
  mayAct : τ → β → Prop
  receive : ∀ {t t' : τ} {s : σ} {r : ρ} {held x y chunk rest out : List ε}, rel t s held →
    p.holds s x (y ++ held) → p.relies (x ++ chunk ++ rest) → chunk ≠ [] → mayRead t r chunk →
    B.receive t r chunk = some (t', out) →
    ∃ s' made held', p.mayRead s r chunk ∧ P.receive s r chunk = some (s', made) ∧ rel t' s' held' ∧
      out ++ held' = held ++ made
  act : ∀ {t t' : τ} {s : σ} {b : β} {held x y out : List ε}, rel t s held →
    p.holds s x (y ++ held) → mayAct t b → B.act t b = some (t', out) →
    ∃ s' made held', (s' = s ∧ made = [] ∨ ∃ a, p.mayAct s a ∧ P.act s a = some (s', made)) ∧
      rel t' s' held' ∧ out ++ held' = held ++ made

namespace Buffering

variable {σ τ ρ α β ε : Type} {P : Party σ ρ α ε} {p : Contract P} {B : Party τ ρ β ε}

/-- What a party that holds back keeps: with what it holds back written, the other contract holds.
It may rely on the front of what the other one relies on. -/
def contract (b : Buffering p B) : Contract B where
  holds := fun t x y => ∃ s held, b.rel t s held ∧ p.holds s x (y ++ held)
  relies := fun y => ∃ more, p.relies (y ++ more)
  mayRead := b.mayRead
  mayAct := b.mayAct
  receive := by
    rintro t t' r x y chunk rest out ⟨s, held, hrel, hholds⟩ ⟨more, hrelies⟩ hchunk hmay hstep
    rw [List.append_assoc] at hrelies
    obtain ⟨s', made, held', hmay', hreceive, hrel', hout⟩ :=
      b.receive hrel hholds hrelies hchunk hmay hstep
    have hnext := p.receive hholds hrelies hchunk hmay' hreceive
    rw [List.append_assoc, ← hout, ← List.append_assoc] at hnext
    exact ⟨s', held', hrel', hnext⟩
  act := by
    rintro t t' x y out a ⟨s, held, hrel, hholds⟩ hmay hstep
    obtain ⟨s', made, held', hact, hrel', hout⟩ := b.act hrel hholds hmay hstep
    refine ⟨s', held', hrel', ?_⟩
    rw [List.append_assoc, hout, ← List.append_assoc]
    rcases hact with ⟨rfl, rfl⟩ | ⟨a', hmay', hact⟩
    · rw [List.append_nil]
      exact hholds
    · exact p.act hholds hmay' hact

/-- What a contract promises, it promises of a party that holds back too. -/
theorem promises {σ' ρ' α' : Type} {Q : Party σ' ρ' α' ε} {q : Contract Q}
    (promise : ∀ {s : σ} {x y : List ε}, p.holds s x y → q.relies y) {τ' β' : Type}
    {C : Party τ' ρ' β' ε}
    {b : Buffering p B} {c : Buffering q C} {t : τ} {x y : List ε} (holds : b.contract.holds t x y) :
    c.contract.relies y := by
  obtain ⟨s, held, -, hholds⟩ := holds
  exact ⟨held, promise hholds⟩

end Buffering

end Machines
