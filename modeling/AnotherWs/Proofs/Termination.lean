/-
Module: AnotherWs.Proofs.Termination
Purpose: When the receive loop comes back. It does unless a malformed length has bytes behind it, a
  frame is too long to buffer, or a fragmented message outgrows the merge buffer.
Trusted boundary: none
Main exports: LoopReturns, LoopVisits, LoopAdvances, Digestible, finish_iff_digestible,
  readLoop_returns_iff
-/
import AnotherWs.Proofs.ReadLoop
import AnotherWs.Proofs.Delivery

namespace AnotherWs

open Framing

/-- The loop comes back after finitely many passes. -/
def LoopReturns (endpoint : EndpointType) (hd : WebsocketHandle) (data : Bytes) : Prop :=
  ∃ fuel trace, readLoop endpoint data fuel 0 hd = .ok trace

/-- The value of `haveReadCount` and the handle with which the loop begins a pass. -/
inductive LoopVisits (endpoint : EndpointType) (hd : WebsocketHandle) (data : Bytes) :
    Nat → WebsocketHandle → Prop where
  | start : LoopVisits endpoint hd data 0 hd
  | next {k : Nat} {hd' : WebsocketHandle} {pass : Pass} (visited : LoopVisits endpoint hd data k hd')
      (call : readPass endpoint hd' (data.drop k) = .ok pass) (stays : pass.leaves = false)
      (more : k + pass.handle.readCount < data.length) :
      LoopVisits endpoint hd data (k + pass.handle.readCount) pass.handle

/-- Every pass comes back, and one that does not leave the loop increases `haveReadCount`. -/
def LoopAdvances (endpoint : EndpointType) (hd : WebsocketHandle) (data : Bytes) : Prop :=
  ∀ k hd', LoopVisits endpoint hd data k hd' →
    ∃ pass, readPass endpoint hd' (data.drop k) = .ok pass ∧
      (pass.leaves = false → 0 < pass.handle.readCount)

/-! ### The condition -/

/-- However many complete frames are taken from the front of the stream: the rest does not begin with
a malformed length that has more bytes behind it, nor with a frame too long to buffer, and the
fragments collected so far fit the merge buffer, which held `size` bytes before. -/
def Digestible (size : Nat) (w : Bytes) : Prop :=
  ∀ us rest, w = us.flatten ++ rest → (∀ u ∈ us, frameScan u = .unit u.length) →
    ¬ (Malformed rest ∧ 6 < rest.length) ∧ ¬ Overlong rest ∧ mergeSize size us ≤ 2 ^ 31

/-- A run that comes to a frame too long to buffer fails. -/
theorem run_overlong {s : HandleView} {w : Bytes} (overlong : Overlong w) :
    (receiver.run s w).halt = .failed := by
  obtain ⟨hfield, good, hlarge⟩ := overlong
  by_cases hcomplete : headerLen w + payloadSize w ≤ w.length
  · rw [Decoder.run_unit (D := receiver) (frameScan_of_complete hcomplete hfield good),
      if_neg (by rw [receiver_limit]; omega)]
  · have hmore : frameScan w = .more := by
      have hstart := headerLen_le w
      have hkey := keyStart_le_headerLen w
      rw [frameScan, if_neg (by omega), if_neg hfield, if_neg good, if_neg (by omega),
        if_pos (by omega)]
    rw [Decoder.run_more (D := receiver) hmore, if_neg (by rw [receiver_limit]; omega)]

/-- **The receiver comes to rest** exactly on a digestible stream. -/
theorem finish_iff_digestible {s : HandleView} {w : Bytes} (hs : s.merge.length ≤ 2 ^ 31) :
    (∃ out, finish (receiver.run s w).halt = some out) ↔ Digestible s.merge.length w := by
  constructor
  · rintro ⟨out, hfinish⟩ us rest rfl hscan
    have hsurvives : (receiver.run s (us.flatten ++ rest)).halt ≠ .failed := by
      intro hfailed
      rw [hfailed] at hfinish
      cases hfinish
    obtain ⟨s', events, hall, hunits⟩ := Decoder.run_units_some hscan hsurvives
    rw [Decoder.run_units rest hunits hall] at hfinish
    simp only [Run.after_halt] at hfinish
    refine ⟨?_, ?_, (handleAll_deliver hunits hall hs).2.2.2.1.mergeSize_le⟩
    · rintro ⟨hbad, hlong⟩
      rw [Decoder.run_bad (D := receiver) (frameScan_of_malformed hbad), if_pos (by decide)]
        at hfinish
      simp only [finish, if_neg (Nat.not_le.mpr hlong)] at hfinish
      cases hfinish
    · intro hoverlong
      rw [run_overlong hoverlong] at hfinish
      cases hfinish
  · intro digestible
    obtain ⟨us, rest, hw, hunits, hall, hstuck⟩ := receiver.run_split s w
    obtain ⟨hbad, hover, -⟩ := digestible us rest hw fun u hu => (hunits u hu).1
    revert hstuck
    generalize (receiver.run s w).halt = halt
    intro hstuck
    cases hstuck with
    | waiting hscan hfits =>
        obtain ⟨tail, hwaiting, -⟩ := finish_waiting_quiet rest
        exact ⟨_, hwaiting⟩
    | overfull hscan hlong => exact absurd (.of_more hscan hlong) hover
    | rejected hscan hfits =>
        obtain ⟨hmalformed, rfl⟩ := frameScan_bad hscan
        have hsix : rest.length ≤ 6 := by
          by_contra hlong
          exact hbad ⟨hmalformed, Nat.lt_of_not_le hlong⟩
        exact ⟨_, if_pos hsix⟩
    | overlongBad hscan hlong =>
        obtain ⟨-, rfl⟩ := frameScan_bad hscan
        rw [receiver_limit] at hlong
        omega
    | overlong hscan hlong => exact absurd (.of_unit hscan hlong) hover
    | @refused n hscan hfits hrefused =>
        -- counting the refused frame in overfills the merge buffer
        exfalso
        have hle : n ≤ rest.length := Scanner.unit_le (S := frameScanner) hscan
        have htwo := two_le_of_unit hscan
        have hlen : (rest.take n).length = n := by
          rw [List.length_take]
          omega
        have hnone : ((receiver.run s w).state.accept (rest.take n)).dispatch = none := by
          simpa [receiver] using hrefused
        obtain ⟨hop, hlarge⟩ := (dispatch_eq_none_iff _ (by omega)).mp hnone
        have hunit := (Decoder.isUnit_take (D := receiver) hscan hfits).1
        obtain ⟨-, -, hsize⟩ := digestible (us ++ [rest.take n]) (rest.drop n)
          (by rw [hw, List.flatten_append, List.flatten_singleton, List.append_assoc,
            List.take_append_drop])
          (by
            intro u hu
            rcases List.mem_append.mp hu with hu | hu
            · exact (hunits u hu).1
            · rw [List.mem_singleton.mp hu]
              exact hunit)
        rw [(handleAll_deliver hunits hall hs).2.2.1] at hlarge
        rw [mergeSize, List.foldl_append, List.foldl_cons, List.foldl_nil, mergeStep, if_pos hop]
          at hsize
        exact absurd hsize (Nat.not_le.mpr hlarge)

/-- Wherever the loop gets to on a digestible stream, what is left is digestible. -/
theorem loopVisits_rests {endpoint : EndpointType} {hd : WebsocketHandle} {data : Bytes}
    {s : HandleView} {p : Bytes} (stands : Stands hd s p) (nonempty : data ≠ [])
    (hfinish : ∃ out, finish (receiver.run s (p ++ data)).halt = some out) {k : Nat}
    {hd' : WebsocketHandle} (visited : LoopVisits endpoint hd data k hd') :
    k < data.length ∧ ∃ s' p', Stands hd' s' p' ∧
      ∃ out, finish (receiver.run s' (p' ++ data.drop k)).halt = some out := by
  induction visited with
  | start => exact ⟨List.length_pos_iff.mpr nonempty, s, p, stands, hfinish⟩
  | next visited call stays more ih =>
      obtain ⟨hk, s', p', stands', out, hrest⟩ := ih
      obtain ⟨pass, s'', n, hpass, advances⟩ :=
        readPass_advances endpoint stands' hk hrest
      rw [hpass] at call
      cases call
      obtain ⟨-, hstands, hrun⟩ := advances.inner more
      rw [hrun] at hrest
      exact ⟨more, s'', [], hstands, out, hrest⟩

/-- **Termination.** The receive loop comes back, every pass that stays in it making progress, exactly
when the bytes of the unfinished frame and the chunk are digestible. -/
theorem readLoop_returns_iff {endpoint : EndpointType} {hd : WebsocketHandle}
    (reachable : Reachable endpoint hd) {data : Bytes} (nonempty : data ≠ []) :
    (LoopReturns endpoint hd data ∧ LoopAdvances endpoint hd data) ↔
      Digestible hd.mergeBuf.size (hd.pending ++ data) := by
  obtain ⟨s, p, stands, sized⟩ := reachable_stands endpoint reachable
  have hsize : hd.mergeBuf.size = s.merge.length := by
    rw [← stands.merge_eq, Membuf.length_content]
  have hcap := sized.2.size_le
  rw [hsize] at hcap ⊢
  rw [stands.pending_eq, ← finish_iff_digestible hcap]
  constructor
  · rintro ⟨returns, -⟩
    exact (readLoop_terminates_iff endpoint stands sized nonempty).mp returns
  · intro hfinish
    refine ⟨(readLoop_terminates_iff endpoint stands sized nonempty).mpr hfinish, ?_⟩
    intro k hd' visited
    obtain ⟨hk, s', p', stands', out, hrest⟩ := loopVisits_rests stands nonempty hfinish visited
    obtain ⟨pass, _, _, hpass, advances⟩ :=
      readPass_advances endpoint stands' hk hrest
    exact ⟨pass, hpass, fun _ => advances.positive⟩

/-- A one-byte text frame in one chunk. -/
theorem readLoop_returns_iff_text :
    (LoopReturns .server (newHandle .server) [0x81, 0x01, 0x61] ∧
      LoopAdvances .server (newHandle .server) [0x81, 0x01, 0x61]) ↔
      Digestible 0 [0x81, 0x01, 0x61] :=
  readLoop_returns_iff (.allocated (newHandle_allocated .server)) (by decide)

/-- A 64-bit length with a bit set in its upper half and one more byte behind it. -/
theorem not_loopReturns_malformed (endpoint : EndpointType) :
    ¬ LoopReturns endpoint (newHandle endpoint) [0x82, 0x7F, 1, 0, 0, 0, 0] := by
  rintro ⟨fuel, trace, hloop⟩
  have hstands : Stands (newHandle endpoint) (newHandle endpoint).view [] := .of_complete rfl
  have hsized : (newHandle endpoint).Sized := ⟨⟨7, by omega, rfl⟩, ⟨7, by omega, rfl⟩⟩
  have hbad : Malformed [0x82, 0x7F, 1, 0, 0, 0, 0] := by decide
  have hfinish : finish (receiver.run (newHandle endpoint).view
      ([] ++ ([0x82, 0x7F, 1, 0, 0, 0, 0] : Bytes).drop 0)).halt = none := by
    rw [List.nil_append, List.drop_zero,
      Decoder.run_bad (D := receiver) (frameScan_of_malformed hbad), if_pos (by decide)]
    rfl
  obtain ⟨fault, herror⟩ := readLoop_error endpoint (k := 0) hstands
    hsized (show 0 < ([0x82, 0x7F, 1, 0, 0, 0, 0] : Bytes).length by decide) hfinish fuel
  rw [herror] at hloop
  cases hloop

/-- The loop of neither endpoint comes back from seven bytes on a handle that is as good as new. -/
theorem readLoop_spins_on_malformed :
    Reachable .server (newHandle .server) ∧
      ¬ LoopReturns .server (newHandle .server) [0x82, 0x7F, 1, 0, 0, 0, 0] ∧
      Reachable .client (newHandle .client) ∧
      ¬ LoopReturns .client (newHandle .client) [0x82, 0x7F, 1, 0, 0, 0, 0] :=
  ⟨.allocated (newHandle_allocated .server), not_loopReturns_malformed .server,
    .allocated (newHandle_allocated .client), not_loopReturns_malformed .client⟩

end AnotherWs
