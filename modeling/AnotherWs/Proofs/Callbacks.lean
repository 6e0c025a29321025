/-
Module: AnotherWs.Proofs.Callbacks
Purpose: The onData calls over the chunks of a connection, also when one call does not come back: they
  are those of the receiver's run over the whole stream, up to the first frame that no buffer holds.
Trusted boundary: none
Main exports: onDataCalls, connectionEvents_onData, CompleteFrame, held, connectionEvents_held,
  connectionEvents_payloads
-/
import AnotherWs.Proofs.Passes

namespace AnotherWs

open Framing

/-- The arguments of the onData calls. -/
def onDataCalls (events : List Event) : List (Bytes × UInt8) :=
  events.filterMap fun
    | .onData payload flag => some (payload, flag)
    | _ => none

@[simp] theorem onDataCalls_nil : onDataCalls [] = [] := rfl

@[simp] theorem onDataCalls_append (first second : List Event) :
    onDataCalls (first ++ second) = onDataCalls first ++ onDataCalls second :=
  List.filterMap_append

theorem onDataCalls_payloads (events : List Event) :
    (onDataCalls events).map Prod.fst = payloads events := by
  unfold onDataCalls payloads
  rw [List.map_filterMap]
  congr 1
  funext event
  cases event <;> rfl

/-- Calls that only close deliver nothing. -/
theorem onDataCalls_closes {events : List Event} (closes : ∀ event ∈ events, event = .twCloseClient) :
    onDataCalls events = [] := by
  apply List.filterMap_eq_nil_iff.mpr
  intro event hevent
  rw [closes event hevent]

/-! ### Calls that do not come back -/

/-- With a pass for every byte a call makes the onData calls of the receiver. -/
theorem loopPasses_onData (endpoint : EndpointType) {data : Bytes} {hd : WebsocketHandle}
    {s : HandleView} {p : Bytes} {fuel k : Nat} (stands : Stands hd s p) (sized : hd.Sized)
    (hk : k < data.length) (hfuel : data.length - k ≤ fuel) :
    onDataCalls ((loopPasses endpoint data fuel k hd).flatMap fun at_ => at_.2.events) =
      onDataCalls ((receiver.run s (p ++ data.drop k)).events.flatMap Prod.snd) := by
  induction fuel generalizing hd s p k with
  | zero => omega
  | succ fuel ih =>
      cases readPass_cases endpoint stands sized (drop_ne_nil hk) with
      | more pass call state leads run =>
          have hcount := leads.count_eq
          rw [List.length_drop] at hcount
          rw [run, loopPasses_leave call (by omega), List.flatMap_singleton, leads.events_eq]
          rfl
      | bad pass call stays state malformed leads run =>
          rw [run]
          apply onDataCalls_closes
          intro event hevent
          obtain ⟨at_, hat, hevent⟩ := List.mem_flatMap.mp hevent
          have hclose : at_.2.events = [.twCloseClient] := by
            rcases Nat.lt_or_ge (k + pass.handle.readCount) data.length with hmore | hdone
            · rw [loopPasses_stay call stays hmore] at hat
              rcases List.mem_cons.mp hat with rfl | hat
              · exact leads.events_eq
              · exact loopPasses_malformed endpoint leads.stands
                  (leads.stands.failed_iff.mp state) hmore fuel at_ hat
            · rw [loopPasses_leave call hdone, List.mem_singleton] at hat
              rw [hat]
              exact leads.events_eq
          rw [hclose, List.mem_singleton] at hevent
          exact hevent
      | unit pass n s' events call stays state scan small handled leads run =>
          have hlong := stands.length_lt_unit scan
          have hcount := leads.count_eq
          have hnext : (data.drop k).drop (n - p.length) = data.drop (k + pass.handle.readCount) := by
            rw [List.drop_drop, hcount]
          rw [run, hnext, Run.after_events, List.flatMap_append, onDataCalls_append,
            List.flatMap_singleton]
          rcases Nat.lt_or_ge (k + pass.handle.readCount) data.length with hmore | hdone
          · rw [loopPasses_stay call stays hmore, List.flatMap_cons, onDataCalls_append,
              ih leads.stands (leads.sized sized) hmore (by omega), leads.events_eq, List.nil_append]
          · rw [loopPasses_leave call hdone, List.flatMap_singleton, leads.events_eq,
              List.drop_eq_nil_of_le hdone, Decoder.run_nil, List.flatMap_nil, onDataCalls_nil,
              List.append_nil]
      | fault fault call run =>
          rw [run, loopPasses_fault call]
          rfl

/-- **The onData calls of a connection** are the receiver's, whatever the chunks. -/
theorem connectionEvents_onData (endpoint : EndpointType) {chunks : List Bytes}
    (nonempty : ∀ chunk ∈ chunks, chunk ≠ []) {hd : WebsocketHandle} {s : HandleView} {p : Bytes}
    (stands : Stands hd s p) (sized : hd.Sized) :
    onDataCalls (connectionEvents endpoint hd chunks) =
      onDataCalls ((receiver.run s (p ++ chunks.flatten)).events.flatMap Prod.snd) := by
  induction chunks generalizing hd s p with
  | nil =>
      -- an unfinished frame causes no call
      rw [List.flatten_nil, List.append_nil]
      rcases stands.unfinished with hmore | ⟨hbad, -⟩
      · rw [Decoder.run_more (D := receiver) hmore]
        rfl
      · rw [Decoder.run_bad (D := receiver) (frameScan_of_malformed hbad)]
        rfl
  | cons chunk chunks ih =>
      have hchunk := nonempty chunk (List.mem_cons_self ..)
      have hrest := fun c hc => nonempty c (List.mem_cons_of_mem chunk hc)
      rw [List.flatten_cons, ← List.append_assoc, Decoder.run_append]
      cases hfinish : finish (receiver.run s (p ++ chunk)).halt with
      | none =>
          obtain ⟨fault, herror⟩ := readLoop_error endpoint (k := 0) stands sized
            (List.length_pos_iff.mpr hchunk) (by rwa [List.drop_zero]) chunk.length
          have hcall := loopPasses_onData endpoint (k := 0) stands sized
            (List.length_pos_iff.mpr hchunk) (Nat.le_refl _)
          rw [List.drop_zero, Nat.sub_zero] at hcall
          rw [connectionEvents, onReadWebsocket, herror]
          simp only
          rw [callEvents, ← List.flatMap_def, hcall]
          cases hhalt : (receiver.run s (p ++ chunk)).halt with
          | waiting q =>
              rw [hhalt] at hfinish
              cases q <;> cases hfinish
          | rejected rest => simp only [Decoder.resume, hhalt]
          | failed => simp only [Decoder.resume, hhalt]
      | some out =>
          obtain ⟨p', tail⟩ := out
          obtain ⟨trace, hcall, hstands, hpasses, hsized⟩ :=
            onReadWebsocket_ok endpoint stands hchunk hfinish
          have hevents : onDataCalls trace.events =
              onDataCalls ((receiver.run s (p ++ chunk)).events.flatMap Prod.snd) := by
            rw [Trace.events, hpasses, countFrom_events, List.flatMap_append, onDataCalls_append]
            suffices htail : onDataCalls (tail.flatMap Prod.snd) = [] by rw [htail, List.append_nil]
            obtain ⟨-, hquiet⟩ | ⟨-, rfl⟩ := finish_inv hfinish
            · rw [hquiet, onDataCalls_nil]
            · rfl
          rw [connectionEvents, hcall]
          simp only
          rw [onDataCalls_append, hevents, ih hrest hstands (hsized sized)]
          obtain ⟨hhalt, -⟩ | ⟨hhalt, -⟩ := finish_inv hfinish
          · simp only [Decoder.resume, hhalt, Run.after_events, List.flatMap_append,
              onDataCalls_append]
          · -- behind a malformed length no frame is complete
            obtain ⟨m, hbad, hlimit⟩ := Decoder.rejected_bad hhalt
            have hscan := Scanner.bad_append hbad chunks.flatten
            simp only [Decoder.resume, hhalt]
            rw [Decoder.run_bad hscan, List.flatMap_nil, onDataCalls_nil, List.append_nil]

/-! ### Frames that the buffers hold -/

/-- A frame as it lies on the stream: the parser takes it whole, or refuses the length it states. -/
def CompleteFrame (u : Bytes) : Prop := frameScan u = .unit u.length ∨ Malformed u

/-- The parser takes the frame, and both buffers have room for it when the merge buffer holds `size`
bytes. -/
def Holds (size : Nat) (u : Bytes) : Prop :=
  ¬ Malformed u ∧ u.length ≤ 2 ^ 31 ∧ mergeStep size u ≤ 2 ^ 31

instance (size : Nat) (u : Bytes) : Decidable (Holds size u) := inferInstanceAs (Decidable (_ ∧ _ ∧ _))

/-- The frames at the front that the buffers hold. -/
def held : Nat → List Bytes → List Bytes
  | _, [] => []
  | size, u :: us => if Holds size u then u :: held (mergeStep size u) us else []

theorem held_cons {size : Nat} {u : Bytes} (us : List Bytes) (holds : Holds size u) :
    held size (u :: us) = u :: held (mergeStep size u) us := if_pos holds

theorem held_stop {size : Nat} {u : Bytes} (us : List Bytes) (exceeds : ¬ Holds size u) :
    held size (u :: us) = [] := if_neg exceeds

theorem held_append (size : Nat) (us : List Bytes) : ∃ rest, us = held size us ++ rest := by
  induction us generalizing size with
  | nil => exact ⟨[], rfl⟩
  | cons u us ih =>
      by_cases holds : Holds size u
      · obtain ⟨rest, hrest⟩ := ih (mergeStep size u)
        rw [held_cons us holds]
        exact ⟨rest, congrArg (List.cons u) hrest⟩
      · rw [held_stop us holds]
        exact ⟨u :: us, rfl⟩

/-- A frame that is not held ends the run. -/
theorem run_exceeds {s : HandleView} {u : Bytes} (complete : CompleteFrame u)
    (hs : s.merge.length ≤ 2 ^ 31) (exceeds : ¬ Holds s.merge.length u) (x : Bytes) :
    (receiver.run s (u ++ x)).events = [] := by
  by_cases hbad : Malformed u
  · have hscan := Scanner.bad_append (S := frameScanner) (frameScan_of_malformed hbad) x
    rw [Decoder.run_bad (D := receiver) hscan]
  · have hunit := complete.resolve_right hbad
    have htwo := two_le_of_unit hunit
    have hscan : frameScan (u ++ x) = .unit u.length :=
      Scanner.unit_append (S := frameScanner) (w := u) hunit x
    rw [Decoder.run_unit (D := receiver) (w := u ++ x) hscan, List.take_left]
    by_cases hfits : u.length ≤ receiver.limit
    · have hmerge : ¬ mergeStep s.merge.length u ≤ 2 ^ 31 := fun h => exceeds ⟨hbad, hfits, h⟩
      have hnone : (s.accept u).dispatch = none := by
        cases hdispatch : (s.accept u).dispatch with
        | none => rfl
        | some next => exact absurd (mergeStep_le (by omega) hdispatch hs hfits) hmerge
      rw [if_pos hfits, show receiver.handle s u = none by simp [receiver, hnone]]
    · rw [if_neg hfits]

/-- The receiver handles the frames that the buffers hold, and no frame behind them. -/
theorem run_held {s : HandleView} {us : List Bytes} (complete : ∀ u ∈ us, CompleteFrame u)
    (hs : s.merge.length ≤ 2 ^ 31) :
    ∃ s' out, receiver.handleAll s (held s.merge.length us) = some (s', out) ∧
      (∀ u ∈ held s.merge.length us, receiver.IsUnit u) ∧
      (receiver.run s us.flatten).events = out := by
  induction us generalizing s with
  | nil => exact ⟨s, [], rfl, by simp [held], by simp⟩
  | cons u us ih =>
      rw [List.forall_mem_cons] at complete
      rw [List.flatten_cons]
      by_cases holds : Holds s.merge.length u
      · have hunit := complete.1.resolve_right holds.1
        have htwo := two_le_of_unit hunit
        cases hdispatch : (s.accept u).dispatch with
        | none =>
            obtain ⟨hop, hover⟩ := (dispatch_eq_none_iff s (by omega)).mp hdispatch
            have hone := holds.2.2
            rw [mergeStep, if_pos hop] at hone
            omega
        | some next =>
            obtain ⟨mid, events⟩ := next
            have hstep : mid.merge.length = mergeStep s.merge.length u := by
              rw [(dispatch_deliver (by omega) hdispatch).1, deliverStep_length]
            have hfits := holds.2.2
            obtain ⟨s', out, hall, hunits, hrun⟩ := ih complete.2 (s := mid) (by omega)
            rw [hstep] at hall hunits
            rw [held_cons us holds]
            refine ⟨s', (u.length, events) :: out, ?_, ?_, ?_⟩
            · simp [Decoder.handleAll, receiver_handle hdispatch, hall]
            · exact List.forall_mem_cons.mpr ⟨⟨hunit, holds.2.1⟩, hunits⟩
            · rw [Decoder.run_cons (D := receiver) (u := u) _ hunit holds.2.1
                (receiver_handle hdispatch), Run.after_events, hrun]
              rfl
      · rw [held_stop us holds]
        exact ⟨s, [], rfl, by simp, run_exceeds complete.1 hs holds _⟩

/-- **The onData calls for some frames** on a new handle, whatever the chunks in which they arrive:
those of the receiver for the frames that are held. -/
theorem connectionEvents_held (endpoint : EndpointType) {hd : WebsocketHandle} (fresh : Allocated hd)
    {us : List Bytes} (complete : ∀ u ∈ us, CompleteFrame u) {chunks : List Bytes}
    (nonempty : ∀ chunk ∈ chunks, chunk ≠ []) (cut : chunks.flatten = us.flatten) :
    ∃ s' out, receiver.handleAll hd.view (held 0 us) = some (s', out) ∧
      (∀ u ∈ held 0 us, receiver.IsUnit u) ∧
      onDataCalls (connectionEvents endpoint hd chunks) = onDataCalls (out.flatMap Prod.snd) := by
  have hstands : Stands hd hd.view [] := .of_complete fresh.parseState_eq
  have hmerge : hd.view.merge.length = 0 := congrArg List.length fresh.mergeBuf_empty
  obtain ⟨s', out, hall, hunits, hrun⟩ := run_held (s := hd.view) complete (by omega)
  rw [hmerge] at hall hunits
  refine ⟨s', out, hall, hunits, ?_⟩
  rw [connectionEvents_onData endpoint nonempty hstands fresh.sized, List.nil_append, cut, hrun]

/-- The payloads among them. -/
theorem connectionEvents_payloads (endpoint : EndpointType) {hd : WebsocketHandle}
    (fresh : Allocated hd) {us : List Bytes} (complete : ∀ u ∈ us, CompleteFrame u)
    {chunks : List Bytes} (nonempty : ∀ chunk ∈ chunks, chunk ≠ [])
    (cut : chunks.flatten = us.flatten) :
    payloads (connectionEvents endpoint hd chunks) = deliver [] (held 0 us) := by
  obtain ⟨s', out, hall, hunits, hcalls⟩ :=
    connectionEvents_held endpoint fresh complete nonempty cut
  have hmerge : hd.view.merge = [] := fresh.mergeBuf_empty
  have hdeliver := (handleAll_deliver hunits hall (by rw [hmerge]; exact Nat.zero_le _)).2.1
  rw [hmerge] at hdeliver
  rw [← onDataCalls_payloads, hcalls, onDataCalls_payloads, hdeliver]

end AnotherWs
