/-
Module: AnotherWs.Proofs.Passes
Purpose: The passes of one call, whether it comes back or not. The two endpoints make the same ones, and
  they make them on behind a close frame.
Trusted boundary: none
Main exports: loopPasses_handled, loopPasses_units, receiveLoops_agree, SilentAfterClose,
  silentAfterClose_iff, data_after_close
-/
import AnotherWs.Proofs.Termination

namespace AnotherWs

open Framing

section Steps

variable {endpoint : EndpointType} {data : Bytes} {hd : WebsocketHandle} {fuel k : Nat} {pass : Pass}

/-- A pass that stays in the loop is followed by the others. -/
theorem loopPasses_stay (call : readPass endpoint hd (data.drop k) = .ok pass)
    (stays : pass.leaves = false) (more : k + pass.handle.readCount < data.length) :
    loopPasses endpoint data (fuel + 1) k hd =
      (k, pass) :: loopPasses endpoint data fuel (k + pass.handle.readCount) pass.handle := by
  rw [loopPasses, call]
  simp only [if_pos (⟨stays, more⟩ : pass.leaves = false ∧ _)]

/-- A pass that takes the rest of the chunk is the last one. -/
theorem loopPasses_leave (call : readPass endpoint hd (data.drop k) = .ok pass)
    (done : data.length ≤ k + pass.handle.readCount) :
    loopPasses endpoint data (fuel + 1) k hd = [(k, pass)] := by
  rw [loopPasses, call]
  simp only
  rw [if_neg (fun h => by omega)]

/-- A pass that fails is no pass. -/
theorem loopPasses_fault {fault : Fault} (call : readPass endpoint hd (data.drop k) = .error fault) :
    loopPasses endpoint data fuel k hd = [] := by
  cases fuel with
  | zero => rfl
  | succ fuel => rw [loopPasses, call]

theorem drop_ne_nil (hk : k < data.length) : data.drop k ≠ [] := by
  intro hnil
  have hlen := congrArg List.length hnil
  rw [List.length_drop, List.length_nil] at hlen
  omega

end Steps

/-! ### The two endpoints -/

/-- The client's pass is the server's, but it never breaks. -/
theorem readPass_client (hd : WebsocketHandle) (d : Bytes) :
    readPass .client hd d = (readPass .server hd d).map fun pass => { pass with leaves := false } := by
  unfold readPass
  cases tryParseProtocol hd d with
  | error fault => rfl
  | ok out =>
      obtain ⟨ret, hd'⟩ := out
      simp only [ok_bind]
      cases hd'.parseState with
      | complete => cases dispatchFrame hd' <;> rfl
      | failed => rfl
      | incomplete => rfl

/-- What a pass shows: where it starts, the handle it leaves and its callbacks. -/
def shown (at_ : Nat × Pass) : Nat × WebsocketHandle × List Event :=
  (at_.1, at_.2.handle, at_.2.events)

/-- From the same handle the two loops go the same way. -/
theorem readLoop_agree {data : Bytes} {hd : WebsocketHandle} {s : HandleView} {p : Bytes} {k : Nat}
    (stands : Stands hd s p) (sized : hd.Sized) (hk : k < data.length) (fuel : Nat) :
    readLoop .server data fuel k hd = readLoop .client data fuel k hd ∧
      (loopPasses .server data fuel k hd).map shown =
        (loopPasses .client data fuel k hd).map shown := by
  induction fuel generalizing hd s p k with
  | zero => exact ⟨rfl, rfl⟩
  | succ fuel ih =>
      have hclient := readPass_client hd (data.drop k)
      -- a pass that stays, and from which both loops go on alike
      have hstay : ∀ {pass : Pass} {s' : HandleView} {p' : Bytes},
          readPass .server hd (data.drop k) = .ok pass → pass.leaves = false →
          Stands pass.handle s' p' → pass.handle.Sized →
          readLoop .server data (fuel + 1) k hd = readLoop .client data (fuel + 1) k hd ∧
            (loopPasses .server data (fuel + 1) k hd).map shown =
              (loopPasses .client data (fuel + 1) k hd).map shown := by
        intro pass s' p' call stays hstands hsized
        have hsame : ({ pass with leaves := false } : Pass) = pass := by
          cases pass
          cases stays
          rfl
        rw [call, show (Except.ok pass : Except Fault Pass).map _ = .ok { pass with leaves := false }
          from rfl, hsame] at hclient
        rcases Nat.lt_or_ge (k + pass.handle.readCount) data.length with hmore | hdone
        · obtain ⟨hloop, hpasses⟩ := ih hstands hsized hmore
          rw [readLoop_stay .server call stays hmore, readLoop_stay .client hclient stays hmore,
            loopPasses_stay call stays hmore, loopPasses_stay hclient stays hmore, hloop,
            List.map_cons, List.map_cons, hpasses]
          exact ⟨rfl, rfl⟩
        · rw [readLoop_leave .server call hdone, readLoop_leave .client hclient hdone,
            loopPasses_leave call hdone, loopPasses_leave hclient hdone]
          exact ⟨rfl, rfl⟩
      cases readPass_cases .server stands sized (drop_ne_nil hk) with
      | more pass call state leads run =>
          -- the server breaks, and nothing is left for the client
          have hcount := leads.count_eq
          rw [List.length_drop] at hcount
          have hdone : data.length ≤ k + pass.handle.readCount := by omega
          rw [call] at hclient
          rw [readLoop_leave .server call hdone, readLoop_leave .client hclient hdone,
            loopPasses_leave call hdone, loopPasses_leave hclient hdone]
          exact ⟨rfl, rfl⟩
      | bad pass call stays state malformed leads run =>
          exact hstay call stays leads.stands (leads.sized sized)
      | unit pass n s' events call stays state scan small handled leads run =>
          exact hstay call stays leads.stands (leads.sized sized)
      | fault fault call run =>
          rw [call] at hclient
          rw [loopPasses_fault call, loopPasses_fault hclient, readLoop, readLoop, call, hclient]
          exact ⟨rfl, rfl⟩

/-- Wherever the loop gets to, the handle stands somewhere. -/
theorem loopVisits_stands {endpoint : EndpointType} {hd : WebsocketHandle} {data : Bytes}
    {s : HandleView} {p : Bytes} (stands : Stands hd s p) (sized : hd.Sized) (nonempty : data ≠ [])
    {k : Nat} {hd' : WebsocketHandle} (visited : LoopVisits endpoint hd data k hd') :
    k < data.length ∧ ∃ s' p', Stands hd' s' p' ∧ hd'.Sized := by
  induction visited with
  | start => exact ⟨List.length_pos_iff.mpr nonempty, s, p, stands, sized⟩
  | next visited call stays more ih =>
      obtain ⟨hk, s', p', stands', sized'⟩ := ih
      refine ⟨more, ?_⟩
      cases readPass_cases endpoint stands' sized' (drop_ne_nil hk) with
      | more pass hpass _ leads _ | bad pass hpass _ _ _ leads _
      | unit pass _ _ _ hpass _ _ _ _ _ leads _ =>
          rw [hpass] at call
          cases call
          exact ⟨_, _, leads.stands, leads.sized sized'⟩
      | fault fault hpass _ =>
          rw [hpass] at call
          cases call

/-- An incomplete frame takes the whole rest of the chunk. -/
theorem incomplete_takes_rest (endpoint : EndpointType) {hd hd' : WebsocketHandle}
    {s : HandleView} {p d : Bytes} {ret : Bool} (stands : Stands hd s p) (sized : hd.Sized)
    (hd_ : d ≠ [])
    (call : tryParseProtocol hd d = .ok (ret, hd')) (state : hd'.parseState = .incomplete) :
    hd'.readCount = d.length := by
  have hpass : readPass endpoint hd d = .ok ⟨hd', [], endpoint = .server⟩ := by
    unfold readPass
    rw [call, ok_bind]
    simp only [state]
  cases readPass_cases endpoint stands sized hd_ with
  | more pass hcall hstate leads _ =>
      rw [hpass] at hcall
      cases hcall
      exact leads.count_eq
  | bad pass hcall _ hstate _ _ _ | unit pass _ _ _ hcall _ hstate _ _ _ _ _ =>
      rw [hpass] at hcall
      cases hcall
      rw [state] at hstate
      cases hstate
  | fault fault hcall _ =>
      rw [hpass] at hcall
      cases hcall

/-- **The receive loops agree.** On every chunk, from every handle of a connection, the two loops
come to the same end within the same number of passes, and make the same passes on the way: at an
incomplete frame, where the server breaks, no byte is left. -/
theorem receiveLoops_agree {endpoint : EndpointType} {hd : WebsocketHandle}
    (reachable : Reachable endpoint hd) (data : Bytes) (fuel : Nat) :
    readLoop .server data fuel 0 hd = readLoop .client data fuel 0 hd ∧
      (loopPasses .server data fuel 0 hd).map shown =
        (loopPasses .client data fuel 0 hd).map shown ∧
      ∀ endpoint' k hd' ret hd'', data ≠ [] → LoopVisits endpoint' hd data k hd' →
        tryParseProtocol hd' (data.drop k) = .ok (ret, hd'') → hd''.parseState = .incomplete →
          k + hd''.readCount = data.length := by
  obtain ⟨s, p, stands, sized⟩ := reachable_stands endpoint reachable
  have hvisits : ∀ endpoint' k hd' ret hd'', data ≠ [] → LoopVisits endpoint' hd data k hd' →
      tryParseProtocol hd' (data.drop k) = .ok (ret, hd'') → hd''.parseState = .incomplete →
        k + hd''.readCount = data.length := by
    intro endpoint' k hd' ret hd'' nonempty visited call state
    obtain ⟨hk, s', p', stands', sized'⟩ := loopVisits_stands stands sized nonempty visited
    rw [incomplete_takes_rest endpoint' stands' sized' (drop_ne_nil hk) call state,
      List.length_drop]
    omega
  by_cases hnil : data = []
  · -- there is one pass, after which nothing is left
    have hclient := readPass_client hd []
    cases fuel with
    | zero => exact ⟨rfl, rfl, hvisits⟩
    | succ fuel =>
        subst hnil
        cases hserver : readPass .server hd ([] : Bytes) with
        | error fault =>
            rw [hserver] at hclient
            rw [loopPasses_fault (k := 0) hserver, loopPasses_fault (k := 0) hclient, readLoop,
              readLoop, List.drop_nil, hserver, hclient]
            exact ⟨rfl, rfl, hvisits⟩
        | ok pass =>
            rw [hserver] at hclient
            rw [readLoop_leave .server (k := 0) hserver (Nat.zero_le _),
              readLoop_leave .client (k := 0) hclient (Nat.zero_le _),
              loopPasses_leave (k := 0) hserver (Nat.zero_le _),
              loopPasses_leave (k := 0) hclient (Nat.zero_le _)]
            exact ⟨rfl, rfl, hvisits⟩
  · obtain ⟨hloop, hpasses⟩ := readLoop_agree stands sized (List.length_pos_iff.mpr hnil) fuel
    exact ⟨hloop, hpasses, hvisits⟩

/-- A text frame in two chunks, of which the first ends inside the frame. -/
theorem receiveLoops_agree_text :
    let data : Bytes := [0x81, 0x02, 0x61]
    readLoop .server data 3 0 (newHandle .client) = readLoop .client data 3 0 (newHandle .client) ∧
      (loopPasses .server data 3 0 (newHandle .client)).map shown =
        (loopPasses .client data 3 0 (newHandle .client)).map shown ∧
      ∀ endpoint' k hd' ret hd'', data ≠ [] →
        LoopVisits endpoint' (newHandle .client) data k hd' →
        tryParseProtocol hd' (data.drop k) = .ok (ret, hd'') → hd''.parseState = .incomplete →
          k + hd''.readCount = data.length :=
  receiveLoops_agree (@Reachable.allocated .client _ (newHandle_allocated .client))
    [0x81, 0x02, 0x61] 3

/-! ### Behind a close frame -/

/-- Behind a malformed length every pass closes, and does nothing else. -/
theorem loopPasses_malformed (endpoint : EndpointType) {data : Bytes} {hd : WebsocketHandle}
    {s : HandleView} {p : Bytes} {k : Nat} (stands : Stands hd s p) (malformed : Malformed p)
    (hk : k < data.length) (fuel : Nat) :
    ∀ at_ ∈ loopPasses endpoint data fuel k hd, at_.2.events = [.twCloseClient] := by
  induction fuel generalizing hd with
  | zero => exact nofun
  | succ fuel ih =>
      have hsix : p.length = 6 := by
        rcases stands.unfinished with hmore | ⟨-, hsix⟩
        · rw [frameScan_of_malformed malformed] at hmore
          cases hmore
        · exact hsix
      have hwhole : Malformed (p ++ data.drop k) :=
        malformed.congr (agreeTo_append _ (by omega)) (by rw [List.length_append]; omega)
      obtain ⟨pass, call, stays, leads⟩ := readPass_bad endpoint stands (drop_ne_nil hk) hwhole
      have hstands := leads.stands
      rw [List.take_left' hsix] at hstands
      have hcount : pass.handle.readCount = 0 := by rw [leads.count_eq, hsix]
      rw [loopPasses_stay call stays (by omega), hcount]
      exact List.forall_mem_cons.mpr ⟨leads.events_eq, ih hstands⟩

/-- What a call does with the complete frames of its stream, however many passes it is given: the first
passes handle one frame each, and every other pass does nothing or closes. -/
theorem loopPasses_handled (endpoint : EndpointType) {data : Bytes} {hd : WebsocketHandle}
    {s : HandleView} {p : Bytes} {k : Nat} (stands : Stands hd s p) (sized : hd.Sized)
    (hk : k < data.length) (fuel : Nat) :
    ∃ us rest s' out tail, p ++ data.drop k = us.flatten ++ rest ∧
      (∀ u ∈ us, receiver.IsUnit u) ∧ receiver.handleAll s us = some (s', out) ∧
      (loopPasses endpoint data fuel k hd).map (fun at_ => at_.2.events) =
        out.map Prod.snd ++ tail ∧
      ∀ events ∈ tail, ∀ event ∈ events, event = .twCloseClient := by
  induction fuel generalizing hd s p k with
  | zero => exact ⟨[], p ++ data.drop k, s, [], [], rfl, by simp, rfl, rfl, by simp⟩
  | succ fuel ih =>
      cases readPass_cases endpoint stands sized (drop_ne_nil hk) with
      | more pass call state leads run =>
          have hcount := leads.count_eq
          rw [List.length_drop] at hcount
          refine ⟨[], p ++ data.drop k, s, [], [[]], rfl, by simp, rfl, ?_, by simp⟩
          rw [loopPasses_leave call (by omega), List.map_singleton, leads.events_eq]
          rfl
      | bad pass call stays state malformed leads run =>
          have hclose : ∀ at_ ∈ loopPasses endpoint data (fuel + 1) k hd,
              at_.2.events = [.twCloseClient] := by
            rcases Nat.lt_or_ge (k + pass.handle.readCount) data.length with hmore | hdone
            · rw [loopPasses_stay call stays hmore]
              exact List.forall_mem_cons.mpr ⟨leads.events_eq, loopPasses_malformed endpoint
                leads.stands (leads.stands.failed_iff.mp state) hmore fuel⟩
            · rw [loopPasses_leave call hdone]
              exact List.forall_mem_cons.mpr ⟨leads.events_eq, nofun⟩
          refine ⟨[], p ++ data.drop k, s, [], _, rfl, by simp, rfl, (List.nil_append _).symm, ?_⟩
          intro events hevents
          obtain ⟨at_, hat, rfl⟩ := List.mem_map.mp hevents
          rw [hclose at_ hat]
          simp
      | unit pass n s' events call stays state scan small handled leads run =>
          have hle : n ≤ (p ++ data.drop k).length := Scanner.unit_le (S := frameScanner) scan
          have hlong := stands.length_lt_unit scan
          have hcount := leads.count_eq
          have hcut : ((p ++ data.drop k).take n).length = n := by
            rw [List.length_take]
            omega
          have hunit : receiver.IsUnit ((p ++ data.drop k).take n) :=
            Decoder.isUnit_take (D := receiver) scan small
          have hhandle := receiver_handle handled
          have hfront : (p ++ data.drop k).take n ++ data.drop (k + pass.handle.readCount) =
              p ++ data.drop k := by
            have hnext : data.drop (k + pass.handle.readCount) = (p ++ data.drop k).drop n := by
              rw [hcount, List.drop_append, List.drop_eq_nil_of_le (Nat.le_of_lt hlong),
                List.nil_append, List.drop_drop]
            rw [hnext, List.take_append_drop]
          rcases Nat.lt_or_ge (k + pass.handle.readCount) data.length with hmore | hdone
          · obtain ⟨us, rest, s'', out, tail, hsplit, hunits, hall, hpasses, htail⟩ :=
              ih leads.stands (leads.sized sized) hmore
            refine ⟨(p ++ data.drop k).take n :: us, rest, s'', (n, events) :: out, tail, ?_, ?_,
              ?_, ?_, htail⟩
            · rw [List.flatten_cons, List.append_assoc, ← hsplit, List.nil_append, hfront]
            · intro u hu
              rcases List.mem_cons.mp hu with rfl | hu
              · exact hunit
              · exact hunits u hu
            · simp [Decoder.handleAll, hhandle, hall, hcut]
            · rw [loopPasses_stay call stays hmore, List.map_cons, hpasses, leads.events_eq]
              rfl
          · refine ⟨[(p ++ data.drop k).take n], [], s', [(n, events)], [],
              ?_, by simpa using hunit, ?_, ?_, by simp⟩
            · rw [List.drop_eq_nil_of_le hdone, List.append_nil] at hfront
              rw [List.flatten_singleton, List.append_nil, hfront]
            · simp [Decoder.handleAll, hhandle, hcut]
            · rw [loopPasses_leave call hdone, List.map_singleton, leads.events_eq]
              rfl
      | fault fault call run =>
          refine ⟨[], p ++ data.drop k, s, [], [], rfl, by simp, rfl, ?_, by simp⟩
          rw [loopPasses_fault call]
          rfl

/-- A call that is given a pass for every complete frame in front handles them all. -/
theorem loopPasses_units (endpoint : EndpointType) {data : Bytes} {us : List Bytes} {rest : Bytes}
    (units : ∀ u ∈ us, receiver.IsUnit u) {hd : WebsocketHandle} {s s' : HandleView} {p : Bytes}
    {k : Nat} {out : List (Nat × List Event)} (stands : Stands hd s p)
    (split : p ++ data.drop k = us.flatten ++ rest)
    (handled : receiver.handleAll s us = some (s', out)) :
    ∃ more, (loopPasses endpoint data us.length k hd).map (fun at_ => at_.2.events) =
      out.map Prod.snd ++ more := by
  induction us generalizing hd s p k out with
  | nil =>
      cases handled
      exact ⟨[], rfl⟩
  | cons u us ih =>
      obtain ⟨mid, first, more, hfirst, hmore, rfl⟩ := Decoder.handleAll_cons handled
      obtain ⟨events, hdispatch, rfl⟩ := receiver_handle_eq_some hfirst
      obtain ⟨hunit, hfits⟩ := units u (List.mem_cons_self ..)
      rw [List.flatten_cons, List.append_assoc] at split
      have hscan : frameScan (p ++ data.drop k) = .unit u.length := by
        rw [split]
        exact Scanner.unit_append (S := frameScanner) (w := u) hunit _
      have htake : (p ++ data.drop k).take u.length = u := by rw [split, List.take_left]
      have hlong := stands.length_lt_unit hscan
      have hne : data.drop k ≠ [] := by
        intro hnil
        have hlen := congrArg List.length split
        rw [hnil, List.append_nil, List.length_append] at hlen
        omega
      rw [← htake] at hdispatch
      obtain ⟨pass, call, stays, leads⟩ :=
        readPass_unit endpoint stands hne hscan hfits hdispatch
      have hnext : data.drop (k + pass.handle.readCount) = us.flatten ++ rest := by
        have hdrop := congrArg (List.drop u.length) split
        rw [List.drop_left, List.drop_append, List.drop_eq_nil_of_le (Nat.le_of_lt hlong),
          List.nil_append, List.drop_drop] at hdrop
        rw [leads.count_eq]
        exact hdrop
      rcases Nat.lt_or_ge (k + pass.handle.readCount) data.length with hinner | hdone
      · obtain ⟨others, hpasses⟩ :=
          ih (fun v hv => units v (List.mem_cons_of_mem _ hv)) leads.stands hnext hmore
        refine ⟨others, ?_⟩
        rw [List.length_cons, loopPasses_stay call stays hinner, List.map_cons, hpasses,
          leads.events_eq]
        rfl
      · -- the chunk is used up, and a frame is never empty
        have hnil : us = [] := by
          cases us with
          | nil => rfl
          | cons v vs =>
              have htwo := two_le_of_unit (units v (by simp)).1
              rw [List.drop_eq_nil_of_le hdone, List.flatten_cons, List.append_assoc] at hnext
              have hlen := congrArg List.length hnext
              rw [List.length_append, List.length_nil] at hlen
              omega
        subst hnil
        cases hmore
        refine ⟨[], ?_⟩
        rw [List.length_singleton, loopPasses_leave call hdone, List.map_singleton, leads.events_eq]
        rfl

/-- A frame that is answered or delivered. -/
def Serves (u : Bytes) : Prop := opcode u = 9 ∨ (opcode u ≤ 2 ∧ isFinal u = true)

/-- A handled frame closes when it is a close frame, and calls anything else when it is served. -/
theorem dispatch_calls {s s' : HandleView} {u : Bytes} {events : List Event} (h : 1 ≤ u.length)
    (handled : (s.accept u).dispatch = some (s', events)) :
    (.twCloseClient ∈ events ↔ opcode u = 8) ∧
      ((∀ event ∈ events, event = .twCloseClient) ↔ ¬ Serves u) := by
  unfold Serves
  cases dispatch_cases h handled with
  | continuation op fits =>
      cases isFinal u with
      | true => simp [op]
      | false => simp [op]
  | whole flag op flag_eq final =>
      rw [final]
      simp only [List.mem_singleton]
      exact ⟨⟨nofun, by omega⟩, by simp; omega⟩
  | first flag op flag_eq final =>
      rw [final]
      simp only [List.not_mem_nil]
      exact ⟨⟨nofun, by omega⟩, by simp; omega⟩
  | close op => simp [op]
  | ping op => simp [op]
  | other op noClose noPing =>
      refine ⟨⟨nofun, fun h => absurd h noClose⟩, fun _ => ?_, fun _ => nofun⟩
      rintro (hping | ⟨hlow, -⟩)
      · exact noPing hping
      · omega

/-- Once a pass has closed the connection, the later ones call nothing else. -/
def SilentAfterClose (passes : List (List Event)) : Prop :=
  passes.Pairwise fun earlier later =>
    .twCloseClient ∈ earlier → ∀ event ∈ later, event = .twCloseClient

/-- Among the complete frames in front of a stream, as far as the merge buffer holds them, no close
frame is followed by one that is answered or delivered. -/
def CloseIsLast (size : Nat) (w : Bytes) : Prop :=
  ∀ us rest, w = us.flatten ++ rest → (∀ u ∈ us, receiver.IsUnit u) → MergeFits size us →
    us.Pairwise fun earlier later => opcode earlier = 8 → ¬ Serves later

/-- The callbacks of handled frames are silent after a close exactly when the frames are. -/
theorem handleAll_silent_iff {s s' : HandleView} {us : List Bytes} {out : List (Nat × List Event)}
    (units : ∀ u ∈ us, receiver.IsUnit u) (handled : receiver.handleAll s us = some (s', out)) :
    SilentAfterClose (out.map Prod.snd) ↔
      us.Pairwise fun earlier later => opcode earlier = 8 → ¬ Serves later := by
  have hagainst := Decoder.handleAll_forall₂ (D := receiver)
    (P := fun (u : Bytes) (pass : Nat × List Event) => (.twCloseClient ∈ pass.2 ↔ opcode u = 8) ∧
      ((∀ event ∈ pass.2, event = .twCloseClient) ↔ ¬ Serves u))
    (by
      intro s u s' events hunit hhandle
      have hlen := two_le_of_unit hunit.1
      obtain ⟨calls, hdispatch, rfl⟩ := receiver_handle_eq_some hhandle
      exact ⟨_, rfl, dispatch_calls (by omega) hdispatch⟩) units handled
  rw [SilentAfterClose, List.pairwise_map]
  apply Iff.symm
  apply forall₂_pairwise_iff hagainst
  intro c v first second hfirst hsecond
  rw [hfirst.1, hsecond.2]

/-- **Nothing after a close.** However many passes a call is given, none of them delivers or answers
behind one that has closed, exactly when no close frame of its stream has such a frame behind it. -/
theorem silentAfterClose_iff {endpoint : EndpointType} {hd : WebsocketHandle}
    (reachable : Reachable endpoint hd) (data : Bytes) :
    (∀ fuel, SilentAfterClose (callEvents endpoint data fuel hd)) ↔
      CloseIsLast hd.mergeBuf.size (hd.pending ++ data) := by
  obtain ⟨s, p, stands, sized⟩ := reachable_stands endpoint reachable
  have hsize : hd.mergeBuf.size = s.merge.length := by
    rw [← stands.merge_eq, Membuf.length_content]
  have hcap := sized.2.size_le
  rw [hsize] at hcap ⊢
  rw [stands.pending_eq]
  constructor
  · intro silent us rest hsplit hunits hfits
    obtain ⟨s', out, hall⟩ := handleAll_isSome hunits hfits
    obtain ⟨more, hpasses⟩ := loopPasses_units endpoint (k := 0) hunits stands
      (by rwa [List.drop_zero]) hall
    have hcall := silent us.length
    rw [callEvents, hpasses, SilentAfterClose, List.pairwise_append] at hcall
    exact (handleAll_silent_iff hunits hall).mp hcall.1
  · intro last fuel
    by_cases hnil : data = []
    · -- a single pass
      subst hnil
      unfold callEvents SilentAfterClose
      cases fuel with
      | zero => exact List.Pairwise.nil
      | succ fuel =>
          cases hpass : readPass endpoint hd ([] : Bytes) with
          | error fault =>
              rw [loopPasses_fault (k := 0) hpass]
              exact List.Pairwise.nil
          | ok pass =>
              rw [loopPasses_leave (k := 0) hpass (Nat.zero_le _)]
              exact List.pairwise_singleton _ _
    · obtain ⟨us, rest, s', out, tail, hsplit, hunits, hall, hpasses, htail⟩ :=
        loopPasses_handled endpoint stands sized (List.length_pos_iff.mpr hnil) fuel
      rw [List.drop_zero] at hsplit
      have hfits := (handleAll_deliver hunits hall hcap).2.2.2.1
      have hquiet := (handleAll_silent_iff hunits hall).mpr (last us rest hsplit hunits hfits)
      rw [callEvents, hpasses, SilentAfterClose, List.pairwise_append]
      refine ⟨hquiet, ?_, fun earlier _ later hlater _ => htail later hlater⟩
      exact List.pairwise_of_forall_mem_list fun _ _ later hlater _ => htail later hlater

/-- A text frame before the close frame. -/
theorem silentAfterClose_iff_last :
    (∀ fuel, SilentAfterClose
      (callEvents .client [0x81, 0x01, 0x61, 0x88, 0x00] fuel (newHandle .client))) ↔
      CloseIsLast (newHandle .client).mergeBuf.size
        ((newHandle .client).pending ++ [0x81, 0x01, 0x61, 0x88, 0x00]) :=
  silentAfterClose_iff (.allocated (newHandle_allocated .client)) _

/-- A text frame behind the close frame is delivered by both endpoints, from a handle that is as good as
new. -/
theorem data_after_close :
    Reachable .server (newHandle .server) ∧ Reachable .client (newHandle .client) ∧
      ¬ (∀ fuel, SilentAfterClose
        (callEvents .server [0x88, 0x00, 0x81, 0x01, 0x61] fuel (newHandle .server))) ∧
      ¬ ∀ fuel, SilentAfterClose
        (callEvents .client [0x88, 0x00, 0x81, 0x01, 0x61] fuel (newHandle .client)) := by
  have hevents : ∀ endpoint,
      callEvents endpoint [0x88, 0x00, 0x81, 0x01, 0x61] 2 (newHandle endpoint) =
        [[.twCloseClient], [.onData [0x61] flagWebsocketText]] := by
    intro endpoint
    cases endpoint <;> decide +kernel
  have hdelivers : ∀ endpoint, ¬ ∀ fuel, SilentAfterClose
      (callEvents endpoint [0x88, 0x00, 0x81, 0x01, 0x61] fuel (newHandle endpoint)) := by
    intro endpoint silent
    have htwo := silent 2
    rw [hevents endpoint, SilentAfterClose] at htwo
    simp at htwo
  exact ⟨.allocated (newHandle_allocated .server), .allocated (newHandle_allocated .client),
    hdelivers .server, hdelivers .client⟩

end AnotherWs
