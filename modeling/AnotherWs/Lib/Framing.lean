/-
Module: AnotherWs.Lib.Framing
Purpose: Restartable decoders over a stream that arrives in pieces. A scanner decides how many elements
  the first unit of a stream takes; a decoder buffers a bounded number of elements, hands every
  complete unit to a handler and keeps the rest. The main result is that the pieces do not matter.
Trusted boundary: none
Main exports: Verdict, Scanner, Scanner.units_cancel, Scanner.front_of_units, Halt, Run, Decoder,
  Decoder.run, Decoder.run_append, Decoder.run_units, Decoder.run_split
-/
import Mathlib.Data.List.Basic

namespace Framing

/-- What the elements seen so far say about the first unit of the stream. -/
inductive Verdict where
  /-- A proper prefix of a unit, or nothing at all. -/
  | more
  /-- The first `n` elements begin no unit. -/
  | bad (n : Nat)
  /-- The first `n` elements are a unit. -/
  | unit (n : Nat)
deriving DecidableEq, Repr

/-- The number of elements a verdict rests on. -/
def Verdict.size : Verdict → Option Nat
  | .more => none
  | .bad n | .unit n => some n

/-- A scanner whose verdicts rest on the elements they count and on nothing behind them. -/
structure Scanner (α : Type) where
  scan : List α → Verdict
  size_pos : ∀ {w n}, (scan w).size = some n → 0 < n
  size_le : ∀ {w n}, (scan w).size = some n → n ≤ w.length
  scan_append : ∀ {w n} (x : List α), (scan w).size = some n → scan (w ++ x) = scan w
  scan_take : ∀ {w n}, (scan w).size = some n → scan (w.take n) = scan w

namespace Scanner

variable {α : Type} (S : Scanner α)

@[simp] theorem scan_nil : S.scan [] = .more := by
  cases hscan : S.scan [] with
  | more => rfl
  | bad n | unit n =>
      have hsize : (S.scan []).size = some n := by rw [hscan]; rfl
      have hpos := S.size_pos hsize
      have hle := S.size_le hsize
      simp only [List.length_nil] at hle
      omega

variable {S}

theorem unit_pos {w : List α} {n : Nat} (h : S.scan w = .unit n) : 0 < n :=
  S.size_pos (by rw [h]; rfl)

theorem unit_le {w : List α} {n : Nat} (h : S.scan w = .unit n) : n ≤ w.length :=
  S.size_le (by rw [h]; rfl)

theorem unit_append {w : List α} {n : Nat} (h : S.scan w = .unit n) (x : List α) :
    S.scan (w ++ x) = .unit n := by
  rw [S.scan_append (n := n) x (by rw [h]; rfl), h]

theorem bad_append {w : List α} {n : Nat} (h : S.scan w = .bad n) (x : List α) :
    S.scan (w ++ x) = .bad n := by
  rw [S.scan_append (n := n) x (by rw [h]; rfl), h]

/-- A verdict on a longer stream that was still open on a prefix needs elements beyond the prefix. -/
theorem lt_of_more {p x : List α} {n : Nat} (open_ : S.scan p = .more)
    (settled : (S.scan (p ++ x)).size = some n) : p.length < n := by
  by_contra hle
  rw [Nat.not_lt] at hle
  have htake : S.scan (p.take n) = S.scan (p ++ x) := by
    rw [← S.scan_take settled, List.take_append_of_le_length hle]
  have hsize : (S.scan (p.take n)).size = some n := by rw [htake, settled]
  have hwhole := S.scan_append (p.drop n) hsize
  rw [List.take_append_drop, open_] at hwhole
  rw [← hwhole] at hsize
  cases hsize

/-- A stream that is cut in front of its verdict is open. -/
theorem more_of_lt {w : List α} {n m : Nat} (settled : (S.scan w).size = some n) (lt : m < n) :
    S.scan (w.take m) = .more := by
  cases hsize : (S.scan (w.take m)).size with
  | none =>
      cases hscan : S.scan (w.take m) with
      | more => rfl
      | bad k | unit k =>
          rw [hscan] at hsize
          cases hsize
  | some k =>
      have hle := S.size_le hsize
      have hwhole := S.scan_append (w.drop m) hsize
      rw [List.take_append_drop] at hwhole
      rw [← hwhole, settled, Option.some.injEq] at hsize
      rw [List.length_take] at hle
      omega

/-- Units are a code: what begins with some units and is made of units begins with the same ones. -/
theorem units_cancel {us vs : List (List α)} (units : ∀ u ∈ us, S.scan u = .unit u.length)
    (units' : ∀ v ∈ vs, S.scan v = .unit v.length) {x : List α} (same : us.flatten ++ x = vs.flatten) :
    ∃ ws, vs = us ++ ws ∧ x = ws.flatten := by
  induction us generalizing vs with
  | nil => exact ⟨vs, rfl, same⟩
  | cons u us ih =>
      have hunit := units u List.mem_cons_self
      cases vs with
      | nil =>
          have hpos := unit_pos hunit
          have hlen := congrArg List.length same
          simp only [List.flatten_cons, List.flatten_nil, List.length_append, List.length_nil] at hlen
          omega
      | cons v vs =>
          rw [List.flatten_cons, List.flatten_cons, List.append_assoc] at same
          have hfront := unit_append hunit (us.flatten ++ x)
          rw [same, unit_append (units' v List.mem_cons_self) vs.flatten, Verdict.unit.injEq] at hfront
          obtain ⟨rfl, hrest⟩ := List.append_inj same hfront.symm
          obtain ⟨ws, rfl, hx⟩ := ih (fun w hw => units w (List.mem_cons_of_mem _ hw))
            (fun w hw => units' w (List.mem_cons_of_mem _ hw)) hrest
          exact ⟨ws, rfl, hx⟩

/-- The front of a stream of units is some of them and the beginning of the next one. -/
theorem front_of_units {vs : List (List α)} (units : ∀ v ∈ vs, S.scan v = .unit v.length)
    {w x : List α} (cut : w ++ x = vs.flatten) :
    ∃ us p ws, vs = us ++ ws ∧ w = us.flatten ++ p ∧ S.scan p = .more ∧ p ++ x = ws.flatten := by
  induction vs generalizing w with
  | nil =>
      rw [List.flatten_nil, List.append_eq_nil_iff] at cut
      exact ⟨[], [], [], rfl, cut.1, S.scan_nil, cut.2⟩
  | cons v vs ih =>
      have hunit := units v List.mem_cons_self
      rw [List.flatten_cons] at cut
      rcases List.append_eq_append_iff.mp cut with ⟨more, hv, hx⟩ | ⟨behind, hw, hrest⟩
      · by_cases hmore : more = []
        · -- the cut is behind the first unit
          rw [hmore, List.append_nil] at hv
          rw [hmore, List.nil_append] at hx
          exact ⟨[v], [], vs, rfl, by rw [hv]; simp, S.scan_nil, hx⟩
        · have hlt : w.length < v.length := by
            have := List.length_pos_iff.mpr hmore
            rw [hv, List.length_append]
            omega
          have hopen := more_of_lt (w := v) (n := v.length) (by rw [hunit]; rfl) hlt
          rw [hv, List.take_left] at hopen
          exact ⟨[], w, v :: vs, rfl, rfl, hopen, by rw [List.flatten_cons, cut]⟩
      · obtain ⟨us, p, ws, hvs, hbehind, hopen, hws⟩ :=
          ih (fun u hu => units u (List.mem_cons_of_mem _ hu)) hrest.symm
        refine ⟨v :: us, p, ws, by rw [hvs, List.cons_append], ?_, hopen, hws⟩
        rw [hw, hbehind, List.flatten_cons, List.append_assoc]

end Scanner

/-- Where a run over a finite stream comes to rest. -/
inductive Halt (α : Type) where
  /-- The buffered elements are a proper prefix of a unit. -/
  | waiting (pending : List α)
  /-- The rest of the stream begins with no unit. -/
  | rejected (rest : List α)
  /-- A unit outgrew the buffer, or the handler gave up. -/
  | failed
deriving DecidableEq

/-- The outcome of a run: what was emitted, the state reached and where it rests. -/
structure Run (α σ ε : Type) where
  events : List ε
  state : σ
  halt : Halt α

/-- Emit before a run. -/
def Run.after {α σ ε : Type} (events : List ε) (r : Run α σ ε) : Run α σ ε :=
  { r with events := events ++ r.events }

@[simp] theorem Run.after_nil {α σ ε : Type} (r : Run α σ ε) : r.after [] = r := rfl

@[simp] theorem Run.after_after {α σ ε : Type} (first second : List ε) (r : Run α σ ε) :
    (r.after second).after first = r.after (first ++ second) := by
  simp [Run.after]

@[simp] theorem Run.after_events {α σ ε : Type} (events : List ε) (r : Run α σ ε) :
    (r.after events).events = events ++ r.events := rfl

@[simp] theorem Run.after_state {α σ ε : Type} (events : List ε) (r : Run α σ ε) :
    (r.after events).state = r.state := rfl

@[simp] theorem Run.after_halt {α σ ε : Type} (events : List ε) (r : Run α σ ε) :
    (r.after events).halt = r.halt := rfl

/-- A decoder: a scanner, the number of elements it can buffer, and what it does with a unit. -/
structure Decoder (α σ ε : Type) where
  scanner : Scanner α
  limit : Nat
  handle : σ → List α → Option (σ × List ε)

namespace Decoder

variable {α σ ε : Type} (D : Decoder α σ ε)

/-- Decode a whole stream. -/
def run (s : σ) (w : List α) : Run α σ ε :=
  match _hscan : D.scanner.scan w with
  | .more => ⟨[], s, if w.length ≤ D.limit then .waiting w else .failed⟩
  | .bad n => ⟨[], s, if n ≤ D.limit then .rejected w else .failed⟩
  | .unit n =>
      if n ≤ D.limit then
        match D.handle s (w.take n) with
        | none => ⟨[], s, .failed⟩
        | some (s', events) => (run s' (w.drop n)).after events
      else ⟨[], s, .failed⟩
termination_by w.length
decreasing_by
  have hpos := Scanner.unit_pos _hscan
  have hle := Scanner.unit_le _hscan
  simp only [List.length_drop]
  omega

variable {D}

theorem run_more {s : σ} {w : List α} (h : D.scanner.scan w = .more) :
    D.run s w = ⟨[], s, if w.length ≤ D.limit then .waiting w else .failed⟩ := by
  rw [run]
  split <;> rename_i hscan <;> rw [h] at hscan <;> cases hscan

theorem run_bad {s : σ} {w : List α} {n : Nat} (h : D.scanner.scan w = .bad n) :
    D.run s w = ⟨[], s, if n ≤ D.limit then .rejected w else .failed⟩ := by
  rw [run]
  split <;> rename_i hscan <;> rw [h] at hscan <;> cases hscan
  rfl

theorem run_unit {s : σ} {w : List α} {n : Nat} (h : D.scanner.scan w = .unit n) :
    D.run s w =
      if n ≤ D.limit then
        match D.handle s (w.take n) with
        | none => ⟨[], s, .failed⟩
        | some (s', events) => (D.run s' (w.drop n)).after events
      else ⟨[], s, .failed⟩ := by
  conv => lhs; rw [run]
  split <;> rename_i hscan <;> rw [h] at hscan <;> cases hscan
  rfl

/-- One complete unit at the front that the handler takes. -/
theorem run_unit_some {s s' : σ} {w : List α} {n : Nat} {events : List ε}
    (h : D.scanner.scan w = .unit n) (fits : n ≤ D.limit)
    (handled : D.handle s (w.take n) = some (s', events)) :
    D.run s w = (D.run s' (w.drop n)).after events := by
  rw [run_unit h, if_pos fits, handled]

/-- A unit followed by the rest of a stream. -/
theorem run_cons {s s' : σ} {u : List α} {events : List ε} (rest : List α)
    (h : D.scanner.scan u = .unit u.length) (fits : u.length ≤ D.limit)
    (handled : D.handle s u = some (s', events)) :
    D.run s (u ++ rest) = (D.run s' rest).after events := by
  have htake : D.handle s ((u ++ rest).take u.length) = some (s', events) := by
    rwa [List.take_left]
  have hrun := run_unit_some (Scanner.unit_append h rest) fits htake
  rwa [List.drop_left] at hrun

@[simp] theorem run_nil (s : σ) : D.run s [] = ⟨[], s, .waiting []⟩ := by
  rw [run_more D.scanner.scan_nil]
  simp

/-- What a run buffers when it waits is an open prefix that fits. -/
theorem waiting_open {s : σ} {w pending : List α} (h : (D.run s w).halt = .waiting pending) :
    D.scanner.scan pending = .more ∧ pending.length ≤ D.limit := by
  induction hlen : w.length using Nat.strongRecOn generalizing s w with
  | ind n ih =>
      subst hlen
      cases hscan : D.scanner.scan w with
      | more =>
          rw [run_more hscan] at h
          simp only at h
          split at h
          · cases h
            exact ⟨hscan, ‹_›⟩
          · cases h
      | bad m =>
          rw [run_bad hscan] at h
          simp only at h
          split at h <;> cases h
      | unit m =>
          have hpos := Scanner.unit_pos hscan
          have hle := Scanner.unit_le hscan
          rw [run_unit hscan] at h
          split at h
          · split at h
            · cases h
            · exact ih _ (by simp only [List.length_drop]; omega) h rfl
          · cases h

/-- What a run rejects begins no unit. -/
theorem rejected_bad {s : σ} {w rest : List α} (h : (D.run s w).halt = .rejected rest) :
    ∃ m, D.scanner.scan rest = .bad m ∧ m ≤ D.limit := by
  induction hlen : w.length using Nat.strongRecOn generalizing s w with
  | ind n ih =>
      subst hlen
      cases hscan : D.scanner.scan w with
      | more =>
          rw [run_more hscan] at h
          simp only at h
          split at h <;> cases h
      | bad m =>
          rw [run_bad hscan] at h
          simp only at h
          split at h
          · cases h
            exact ⟨m, hscan, ‹_›⟩
          · cases h
      | unit m =>
          have hpos := Scanner.unit_pos hscan
          have hle := Scanner.unit_le hscan
          rw [run_unit hscan] at h
          split at h
          · split at h
            · cases h
            · exact ih _ (by simp only [List.length_drop]; omega) h rfl
          · cases h

variable (D)

/-- Go on with a run when more of the stream arrives. -/
def resume (r : Run α σ ε) (x : List α) : Run α σ ε :=
  match r.halt with
  | .waiting pending => (D.run r.state (pending ++ x)).after r.events
  | .rejected rest => { r with halt := .rejected (rest ++ x) }
  | .failed => r

variable {D}

theorem resume_after (events : List ε) (r : Run α σ ε) (x : List α) :
    D.resume (r.after events) x = (D.resume r x).after events := by
  obtain ⟨emitted, state, halt⟩ := r
  cases halt <;> simp [resume, Run.after]

/-- **The pieces do not matter**: decoding a concatenation is decoding its first part and going on
with the second. -/
theorem run_append (s : σ) (a b : List α) : D.run s (a ++ b) = D.resume (D.run s a) b := by
  induction hlen : a.length using Nat.strongRecOn generalizing s a with
  | ind n ih =>
      subst hlen
      cases hscan : D.scanner.scan a with
      | more =>
          rw [run_more hscan]
          by_cases hfits : a.length ≤ D.limit
          · simp [resume, hfits]
          · -- an open prefix that overflowed stays overflowed, whatever the unit turns out to be
            have hbeyond : ∀ m, (D.scanner.scan (a ++ b)).size = some m → ¬ m ≤ D.limit := by
              intro m hm hle
              have := Scanner.lt_of_more hscan hm
              omega
            simp only [resume, if_neg hfits]
            cases hboth : D.scanner.scan (a ++ b) with
            | more =>
                rw [run_more hboth, if_neg (by rw [List.length_append]; omega)]
            | bad m => rw [run_bad hboth, if_neg (hbeyond m (by rw [hboth]; rfl))]
            | unit m => rw [run_unit hboth, if_neg (hbeyond m (by rw [hboth]; rfl))]
      | bad m =>
          rw [run_bad hscan, run_bad (Scanner.bad_append hscan b)]
          by_cases hfits : m ≤ D.limit <;> simp [resume, hfits]
      | unit m =>
          have hpos := Scanner.unit_pos hscan
          have hle := Scanner.unit_le hscan
          rw [run_unit hscan, run_unit (Scanner.unit_append hscan b),
            List.take_append_of_le_length hle, List.drop_append_of_le_length hle]
          by_cases hfits : m ≤ D.limit
          · rw [if_pos hfits, if_pos hfits]
            cases hhandle : D.handle s (a.take m) with
            | none => rfl
            | some next =>
                obtain ⟨s', events⟩ := next
                simp only
                rw [resume_after, ih _ (by simp only [List.length_drop]; omega) s' (a.drop m) rfl]
          · rw [if_neg hfits, if_neg hfits]
            rfl

/-! ### Streams of complete units -/

variable (D)

/-- Hand over units one after the other. -/
def handleAll (s : σ) : List (List α) → Option (σ × List ε)
  | [] => some (s, [])
  | u :: us => do
      let (s, events) ← D.handle s u
      let (s, more) ← handleAll s us
      some (s, events ++ more)

/-- A unit that the decoder can buffer. -/
def IsUnit (u : List α) : Prop := D.scanner.scan u = .unit u.length ∧ u.length ≤ D.limit

variable {D}

/-- The unit at the front of a stream, cut off. -/
theorem isUnit_take {w : List α} {n : Nat} (h : D.scanner.scan w = .unit n) (fits : n ≤ D.limit) :
    D.IsUnit (w.take n) := by
  have hle := Scanner.unit_le h
  have hlen : (w.take n).length = n := by
    rw [List.length_take]
    omega
  refine ⟨?_, by rwa [hlen]⟩
  rw [hlen, D.scanner.scan_take (n := n) (by rw [h]; rfl)]
  exact h

@[simp] theorem handleAll_nil (s : σ) : D.handleAll s [] = some (s, []) := rfl

theorem handleAll_cons {s s' : σ} {u : List α} {us : List (List α)} {events : List ε}
    (h : D.handleAll s (u :: us) = some (s', events)) :
    ∃ mid first more, D.handle s u = some (mid, first) ∧ D.handleAll mid us = some (s', more) ∧
      events = first ++ more := by
  rw [handleAll] at h
  simp only [Option.bind_eq_bind, Option.bind_eq_some_iff, Prod.exists] at h
  obtain ⟨mid, first, hfirst, last, more, hmore, h⟩ := h
  simp only [Option.some.injEq, Prod.mk.injEq] at h
  obtain ⟨rfl, rfl⟩ := h
  exact ⟨mid, first, more, hfirst, hmore, rfl⟩

/-- Complete units in front of a stream are handled one after the other. -/
theorem run_units {s s' : σ} {us : List (List α)} {events : List ε} (rest : List α)
    (units : ∀ u ∈ us, D.IsUnit u) (handled : D.handleAll s us = some (s', events)) :
    D.run s (us.flatten ++ rest) = (D.run s' rest).after events := by
  induction us generalizing s events with
  | nil =>
      cases handled
      simp
  | cons u us ih =>
      obtain ⟨mid, first, more, hfirst, hmore, rfl⟩ := handleAll_cons handled
      obtain ⟨hunit, hfits⟩ := units u (List.mem_cons_self ..)
      rw [List.flatten_cons, List.append_assoc, run_cons _ hunit hfits hfirst,
        ih (fun v hv => units v (List.mem_cons_of_mem _ hv)) hmore, Run.after_after]

/-- A run that does not fail has handled every complete unit in front. -/
theorem run_units_some {s : σ} {us : List (List α)} {rest : List α}
    (units : ∀ u ∈ us, D.scanner.scan u = .unit u.length)
    (survives : (D.run s (us.flatten ++ rest)).halt ≠ .failed) :
    ∃ s' events, D.handleAll s us = some (s', events) ∧ ∀ u ∈ us, D.IsUnit u := by
  induction us generalizing s with
  | nil => exact ⟨s, [], rfl, by simp⟩
  | cons u us ih =>
      have hunit := units u (List.mem_cons_self ..)
      have hscan := Scanner.unit_append hunit (us.flatten ++ rest)
      rw [List.flatten_cons, List.append_assoc, run_unit hscan, List.take_left,
        List.drop_left] at survives
      by_cases hfits : u.length ≤ D.limit
      · rw [if_pos hfits] at survives
        cases hhandle : D.handle s u with
        | none =>
            rw [hhandle] at survives
            exact absurd rfl survives
        | some next =>
            obtain ⟨mid, events⟩ := next
            rw [hhandle] at survives
            obtain ⟨s', more, hall, hunits⟩ :=
              ih (fun v hv => units v (List.mem_cons_of_mem _ hv)) survives
            refine ⟨s', events ++ more, by simp [handleAll, hhandle, hall], ?_⟩
            intro v hv
            rcases List.mem_cons.mp hv with rfl | hv
            · exact ⟨hunit, hfits⟩
            · exact hunits v hv
      · rw [if_neg hfits] at survives
        exact absurd rfl survives

/-- When every unit emits one event, the events of some units stand against the units. -/
theorem handleAll_forall₂ {P : List α → ε → Prop}
    (one : ∀ s u s' events, D.IsUnit u → D.handle s u = some (s', events) →
      ∃ event, events = [event] ∧ P u event)
    {s s' : σ} {us : List (List α)} {events : List ε} (units : ∀ u ∈ us, D.IsUnit u)
    (handled : D.handleAll s us = some (s', events)) : List.Forall₂ P us events := by
  induction us generalizing s events with
  | nil =>
      cases handled
      exact .nil
  | cons u us ih =>
      obtain ⟨mid, first, more, hfirst, hmore, rfl⟩ := handleAll_cons handled
      obtain ⟨event, rfl, hevent⟩ := one s u mid first (units u (List.mem_cons_self ..)) hfirst
      exact .cons hevent (ih (fun v hv => units v (List.mem_cons_of_mem _ hv)) hmore)

/-- Where a run can go no further. -/
inductive Stuck (D : Decoder α σ ε) (s : σ) (rest : List α) : Halt α → Prop where
  | waiting (scan : D.scanner.scan rest = .more) (fits : rest.length ≤ D.limit) :
      Stuck D s rest (.waiting rest)
  | overfull (scan : D.scanner.scan rest = .more) (exceeds : D.limit < rest.length) :
      Stuck D s rest .failed
  | rejected {n : Nat} (scan : D.scanner.scan rest = .bad n) (fits : n ≤ D.limit) :
      Stuck D s rest (.rejected rest)
  | overlongBad {n : Nat} (scan : D.scanner.scan rest = .bad n) (exceeds : D.limit < n) :
      Stuck D s rest .failed
  | overlong {n : Nat} (scan : D.scanner.scan rest = .unit n) (exceeds : D.limit < n) :
      Stuck D s rest .failed
  | refused {n : Nat} (scan : D.scanner.scan rest = .unit n) (fits : n ≤ D.limit)
      (refused : D.handle s (rest.take n) = none) : Stuck D s rest .failed

/-- Every run is the handling of the complete units in front, up to where it is stuck. -/
theorem run_split (s : σ) (w : List α) :
    ∃ us rest, w = us.flatten ++ rest ∧ (∀ u ∈ us, D.IsUnit u) ∧
      D.handleAll s us = some ((D.run s w).state, (D.run s w).events) ∧
      D.Stuck (D.run s w).state rest (D.run s w).halt := by
  induction hlen : w.length using Nat.strongRecOn generalizing s w with
  | ind n ih =>
      subst hlen
      cases hscan : D.scanner.scan w with
      | more =>
          refine ⟨[], w, rfl, by simp, ?_⟩
          rw [run_more hscan]
          refine ⟨rfl, ?_⟩
          by_cases hfits : w.length ≤ D.limit
          · simpa only [if_pos hfits] using .waiting hscan hfits
          · simpa only [if_neg hfits] using .overfull hscan (by omega)
      | bad m =>
          refine ⟨[], w, rfl, by simp, ?_⟩
          rw [run_bad hscan]
          refine ⟨rfl, ?_⟩
          by_cases hfits : m ≤ D.limit
          · simpa only [if_pos hfits] using .rejected hscan hfits
          · simpa only [if_neg hfits] using .overlongBad hscan (by omega)
      | unit m =>
          have hpos := Scanner.unit_pos hscan
          have hle := Scanner.unit_le hscan
          rw [run_unit hscan]
          by_cases hfits : m ≤ D.limit
          · rw [if_pos hfits]
            cases hhandle : D.handle s (w.take m) with
            | none => exact ⟨[], w, rfl, by simp, rfl, .refused hscan hfits hhandle⟩
            | some next =>
                obtain ⟨mid, events⟩ := next
                obtain ⟨us, rest, hw, hunits, hall, hstuck⟩ :=
                  ih _ (by simp only [List.length_drop]; omega) mid (w.drop m) rfl
                have hcut : (w.take m).length = m := by
                  rw [List.length_take]
                  omega
                refine ⟨w.take m :: us, rest, ?_, ?_, ?_, hstuck⟩
                · rw [List.flatten_cons, List.append_assoc, ← hw, List.take_append_drop]
                · intro u hu
                  rcases List.mem_cons.mp hu with rfl | hu
                  · refine ⟨?_, by omega⟩
                    rw [D.scanner.scan_take (n := m) (by rw [hscan]; rfl), hscan, hcut]
                  · exact hunits u hu
                · simp [handleAll, hhandle, hall]
          · rw [if_neg hfits]
            exact ⟨[], w, rfl, by simp, rfl, .overlong hscan (by omega)⟩

/-- A rejection needs no more than the elements its verdict rests on. -/
theorem rejected_prefix {s : σ} {w rest : List α} (h : (D.run s w).halt = .rejected rest) :
    ∃ front n, w = front ++ rest ∧ D.scanner.scan rest = .bad n ∧
      D.run s (front ++ rest.take n) =
        ⟨(D.run s w).events, (D.run s w).state, .rejected (rest.take n)⟩ := by
  obtain ⟨us, tail, hw, hunits, hall, hstuck⟩ := D.run_split s w
  rw [h] at hstuck
  cases hstuck with
  | rejected scan fits =>
      rename_i n
      refine ⟨us.flatten, n, hw, scan, ?_⟩
      have hcut : D.scanner.scan (rest.take n) = .bad n := by
        rw [D.scanner.scan_take (n := n) (by rw [scan]; rfl), scan]
      rw [run_units _ hunits hall, run_bad hcut, if_pos fits]
      simp [Run.after]

/-- A run does not fail while a measure of the state and the length of the stream stay within the
limit. -/
theorem run_within (measure : σ → Nat)
    (takes : ∀ {s : σ} {u : List α}, D.scanner.scan u = .unit u.length →
      measure s + u.length ≤ D.limit →
      ∃ s' events, D.handle s u = some (s', events) ∧ measure s' ≤ measure s + u.length)
    {s : σ} {w : List α} (fits : measure s + w.length ≤ D.limit) :
    (D.run s w).halt ≠ .failed := by
  induction hlen : w.length using Nat.strongRecOn generalizing s w with
  | ind n ih =>
      subst hlen
      cases hscan : D.scanner.scan w with
      | more =>
          rw [run_more hscan, if_pos (by omega)]
          intro h
          cases h
      | bad m =>
          have hle := D.scanner.size_le (n := m) (w := w) (by rw [hscan]; rfl)
          rw [run_bad hscan, if_pos (by omega)]
          intro h
          cases h
      | unit m =>
          have hpos := Scanner.unit_pos hscan
          have hle := Scanner.unit_le hscan
          have hcut : (w.take m).length = m := by
            rw [List.length_take]
            omega
          have hunit : D.scanner.scan (w.take m) = .unit (w.take m).length := by
            rw [D.scanner.scan_take (n := m) (by rw [hscan]; rfl), hscan, hcut]
          obtain ⟨s', events, hhandle, hmeasure⟩ := takes (s := s) hunit (by omega)
          rw [run_unit_some hscan (by omega) hhandle]
          have hdrop : (w.drop m).length = w.length - m := List.length_drop
          exact ih (w.drop m).length (by omega) (by omega) rfl

end Decoder

/-- What holds of all members, or of all pairs in order, carries over between two lists that stand
against each other. -/
theorem forall₂_forall_iff {α β : Type} {P : α → β → Prop} {Q : α → Prop} {Q' : β → Prop}
    {l : List α} {m : List β} (against : List.Forall₂ P l m) (same : ∀ a x, P a x → (Q a ↔ Q' x)) :
    (∀ a ∈ l, Q a) ↔ ∀ x ∈ m, Q' x := by
  induction against with
  | nil => simp
  | cons hP _ ih => rw [List.forall_mem_cons, List.forall_mem_cons, same _ _ hP, ih]

theorem forall₂_pairwise_iff {α β : Type} {P : α → β → Prop} {R : α → α → Prop}
    {S : β → β → Prop} {l : List α} {m : List β} (against : List.Forall₂ P l m)
    (same : ∀ a b x y, P a x → P b y → (R a b ↔ S x y)) : l.Pairwise R ↔ m.Pairwise S := by
  induction against with
  | nil => simp
  | @cons a x l m hP hrest ih =>
      rw [List.pairwise_cons, List.pairwise_cons, ih,
        forall₂_forall_iff hrest fun b y hb => same a b x y hP hb]

end Framing
