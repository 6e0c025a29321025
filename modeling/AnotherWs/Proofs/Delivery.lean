/-
Module: AnotherWs.Proofs.Delivery
Purpose: What a sequence of complete frames delivers: the payloads handed to onData, the bytes left in
  the merge buffer, and when that buffer overflows.
Trusted boundary: none
Main exports: payloads, deliverStep, deliver, mergeStep, mergeSize, MergeFits, handleAll_deliver,
  handleAll_isSome, dispatch_eq_none_iff
-/
import AnotherWs.Spec.Receiver

namespace AnotherWs

open Framing

/-- The payloads among the callbacks. -/
def payloads (events : List Event) : List Bytes :=
  events.filterMap fun
    | .onData payload _ => some payload
    | _ => none

@[simp] theorem payloads_nil : payloads [] = [] := rfl

@[simp] theorem payloads_append (first second : List Event) :
    payloads (first ++ second) = payloads first ++ payloads second :=
  List.filterMap_append

/-- What the merge buffer holds after the frame `u`, and what the frame delivers. -/
def deliverStep (merge u : Bytes) : Bytes × List Bytes :=
  if opcode u = 0 then
    (merge ++ frameContent u, if isFinal u then [merge ++ frameContent u] else [])
  else if opcode u = 1 ∨ opcode u = 2 then
    if isFinal u then (merge, [frameContent u]) else (frameContent u, [])
  else (merge, [])

/-- What a sequence of frames delivers. -/
def deliver : Bytes → List Bytes → List Bytes
  | _, [] => []
  | merge, u :: us => (deliverStep merge u).2 ++ deliver (deliverStep merge u).1 us

/-- The number of bytes in the merge buffer after a frame. -/
def mergeStep (size : Nat) (u : Bytes) : Nat :=
  if opcode u = 0 then size + (frameContent u).length
  else if (opcode u = 1 ∨ opcode u = 2) ∧ isFinal u = false then (frameContent u).length
  else size

/-- The number of bytes in the merge buffer after some frames. -/
def mergeSize (size : Nat) (us : List Bytes) : Nat := us.foldl mergeStep size

/-- The merge buffer, holding `size` bytes before, stays within its limit. -/
def MergeFits : Nat → List Bytes → Prop
  | size, [] => size ≤ 2 ^ 31
  | size, u :: us => size ≤ 2 ^ 31 ∧ MergeFits (mergeStep size u) us

theorem MergeFits.start {size : Nat} {us : List Bytes} (h : MergeFits size us) : size ≤ 2 ^ 31 := by
  cases us with
  | nil => exact h
  | cons u us => exact h.1

theorem deliverStep_length (merge u : Bytes) :
    (deliverStep merge u).1.length = mergeStep merge.length u := by
  unfold deliverStep mergeStep
  by_cases hzero : opcode u = 0
  · simp [hzero]
  · by_cases hdata : opcode u = 1 ∨ opcode u = 2
    · cases hfin : isFinal u <;> simp [hzero, hdata]
    · simp [hzero, hdata]

/-- A handled frame changes the merge buffer and delivers as `deliverStep` says. -/
theorem dispatch_deliver {s s' : HandleView} {u : Bytes} {events : List Event}
    (h : 1 ≤ u.length) (handled : (s.accept u).dispatch = some (s', events)) :
    s'.merge = (deliverStep s.merge u).1 ∧ payloads events = (deliverStep s.merge u).2 ∧
      s'.parseState = .complete := by
  unfold deliverStep
  cases dispatch_cases h handled with
  | continuation op fits =>
      rw [if_pos op]
      cases isFinal u with
      | true => exact ⟨rfl, rfl, rfl⟩
      | false => exact ⟨rfl, rfl, rfl⟩
  | whole flag op flag_eq final =>
      rw [if_neg (by omega), if_pos op, if_pos final]
      exact ⟨rfl, rfl, rfl⟩
  | first flag op flag_eq final =>
      rw [if_neg (by omega), if_pos op, final, if_neg Bool.false_ne_true]
      exact ⟨rfl, rfl, rfl⟩
  | close op | ping op | other op =>
      rw [if_neg (by omega), if_neg (by omega)]
      exact ⟨rfl, rfl, rfl⟩

/-- A frame is refused exactly when it would overfill the merge buffer. -/
theorem dispatch_eq_none_iff (s : HandleView) {u : Bytes} (h : 1 ≤ u.length) :
    (s.accept u).dispatch = none ↔
      opcode u = 0 ∧ 2 ^ 31 < s.merge.length + (frameContent u).length := by
  have htype : (s.accept u).header.type.toNat = opcode u := applyHeader_type _ h
  unfold HandleView.dispatch
  rw [htype]
  split
  case h_1 hop =>
    have hsize : ((s.accept u).merge ++ (s.accept u).proto).length =
        s.merge.length + (frameContent u).length := List.length_append
    unfold HandleView.continuation
    rw [hsize]
    split
    · rename_i hfits
      have : ¬ bufferLimit < s.merge.length + (frameContent u).length := Nat.not_lt.mpr hfits
      exact ⟨nofun, fun h => absurd h.2 this⟩
    · rename_i hover
      exact ⟨fun _ => ⟨hop, Nat.lt_of_not_le hover⟩, fun _ => rfl⟩
  case h_6 hzero _ _ _ _ => exact ⟨nofun, fun h => absurd h.1 hzero⟩
  all_goals
    rename_i hop
    refine ⟨nofun, fun h => ?_⟩
    have := h.1
    omega

/-- The size of the merge buffer stays within the limit. -/
theorem mergeStep_le {s s' : HandleView} {u : Bytes} {events : List Event} (h : 1 ≤ u.length)
    (handled : (s.accept u).dispatch = some (s', events)) (hs : s.merge.length ≤ 2 ^ 31)
    (hu : u.length ≤ 2 ^ 31) : mergeStep s.merge.length u ≤ 2 ^ 31 := by
  have hcontent := frameContent_length_le u
  unfold mergeStep
  cases dispatch_cases h handled with
  | continuation op fits =>
      rw [if_pos op]
      exact fits
  | whole flag op | first flag op | close op | ping op | other op =>
      rw [if_neg (by omega)]
      split
      · omega
      · exact hs

/-- What handling means for a single frame. -/
theorem receiver_handle_eq_some {s s' : HandleView} {u : Bytes} {out : List (Nat × List Event)}
    (h : receiver.handle s u = some (s', out)) :
    ∃ events, (s.accept u).dispatch = some (s', events) ∧ out = [(u.length, events)] := by
  simp only [receiver, Option.map_eq_some_iff, Prod.exists, Prod.mk.injEq] at h
  obtain ⟨s'', events, hdispatch, rfl, rfl⟩ := h
  exact ⟨events, hdispatch, rfl⟩

/-- **Handled frames** take exactly their bytes, deliver as `deliver` says, and keep the merge buffer
within its limit. -/
theorem handleAll_deliver {s s' : HandleView} {us : List Bytes} {out : List (Nat × List Event)}
    (units : ∀ u ∈ us, receiver.IsUnit u) (handled : receiver.handleAll s us = some (s', out))
    (hs : s.merge.length ≤ 2 ^ 31) :
    out.map Prod.fst = us.map List.length ∧
      payloads (out.flatMap Prod.snd) = deliver s.merge us ∧
      s'.merge.length = mergeSize s.merge.length us ∧
      MergeFits s.merge.length us ∧
      (s.parseState = .complete → s'.parseState = .complete) := by
  induction us generalizing s out with
  | nil =>
      cases handled
      exact ⟨rfl, rfl, rfl, hs, id⟩
  | cons u us ih =>
      obtain ⟨mid, first, more, hfirst, hmore, rfl⟩ := Decoder.handleAll_cons handled
      obtain ⟨hunit, hfits⟩ := units u (List.mem_cons_self ..)
      have hlen := two_le_of_unit hunit
      obtain ⟨events, hdispatch, rfl⟩ := receiver_handle_eq_some hfirst
      obtain ⟨hmerge, hpayloads, hcomplete⟩ := dispatch_deliver (by omega) hdispatch
      have hstep : mid.merge.length = mergeStep s.merge.length u := by
        rw [hmerge, deliverStep_length]
      have hbound := mergeStep_le (by omega) hdispatch hs hfits
      rw [← hstep] at hbound
      obtain ⟨hcounts, hrest, hsize, hlimit, hstate⟩ :=
        ih (fun v hv => units v (List.mem_cons_of_mem _ hv)) hmore hbound
      rw [hstep] at hsize hlimit
      refine ⟨?_, ?_, hsize, ⟨hs, hlimit⟩, fun _ => hstate hcomplete⟩
      · rw [List.map_append, hcounts]
        rfl
      · rw [List.flatMap_append, payloads_append, hrest, hmerge, deliver]
        simp only [List.flatMap_cons, List.flatMap_nil, List.append_nil, hpayloads]

theorem MergeFits.mergeSize_le {size : Nat} {us : List Bytes} (h : MergeFits size us) :
    mergeSize size us ≤ 2 ^ 31 := by
  induction us generalizing size with
  | nil => exact h
  | cons u us ih => exact ih h.2

/-- Frames are handled as long as the merge buffer never overflows. -/
theorem handleAll_isSome {s : HandleView} {us : List Bytes}
    (units : ∀ u ∈ us, receiver.IsUnit u) (fits : MergeFits s.merge.length us) :
    ∃ s' out, receiver.handleAll s us = some (s', out) := by
  induction us generalizing s with
  | nil => exact ⟨s, [], rfl⟩
  | cons u us ih =>
      obtain ⟨hunit, -⟩ := units u (List.mem_cons_self ..)
      have hlen := two_le_of_unit hunit
      cases hdispatch : (s.accept u).dispatch with
      | none =>
          obtain ⟨hop, hover⟩ := (dispatch_eq_none_iff s (by omega)).mp hdispatch
          have hone := fits.2.start
          rw [mergeStep, if_pos hop] at hone
          omega
      | some next =>
          obtain ⟨mid, events⟩ := next
          have hstep : mid.merge.length = mergeStep s.merge.length u := by
            rw [(dispatch_deliver (by omega) hdispatch).1, deliverStep_length]
          obtain ⟨s', out, hmore⟩ := ih (s := mid)
            (fun v hv => units v (List.mem_cons_of_mem _ hv)) (hstep ▸ fits.2)
          refine ⟨s', (u.length, events) :: out, ?_⟩
          simp [Decoder.handleAll, receiver_handle hdispatch, hmore]

end AnotherWs
