/-
Module: AnotherWs.Proofs.Duplicates
Purpose: Which payload bytes reach which onData call. A message that has been delivered stays in the
  merge buffer, so a further final continuation delivers it again.
Trusted boundary: none
Main exports: frameStep, deliver_eq_outputs, PayloadFrame, SameHeader, Provenance, DeliveredOnce,
  deliveredOnce_iff, continuation_repeats
-/
import AnotherWs.Lib.Gather
import AnotherWs.Proofs.Callbacks
import AnotherWs.Spec.WireFrame
import Mathlib.Data.List.GetD

namespace AnotherWs

open Framing

/-- What a frame does to the merge buffer. -/
def frameStep (u : Bytes) : Gather.Step UInt8 :=
  if opcode u = 0 then .join (isFinal u) (frameContent u)
  else if opcode u = 1 ∨ opcode u = 2 then
    if isFinal u then .whole (frameContent u) else .start (frameContent u)
  else .skip (frameContent u)

/-- **Delivery is gathering.** -/
theorem deliver_eq_outputs (merge : Bytes) (us : List Bytes) :
    deliver merge us = Gather.outputs merge (us.map frameStep) := by
  induction us generalizing merge with
  | nil => rfl
  | cons u us ih =>
      rw [deliver, List.map_cons, deliverStep, frameStep]
      by_cases hzero : opcode u = 0
      · rw [if_pos hzero, if_pos hzero, Gather.outputs, ← ih]
      · rw [if_neg hzero, if_neg hzero]
        by_cases hdata : opcode u = 1 ∨ opcode u = 2
        · rw [if_pos hdata, if_pos hdata]
          cases isFinal u with
          | true => exact congrArg _ (ih merge)
          | false => exact ih _
        · rw [if_neg hdata, if_neg hdata]
          exact ih merge

@[simp] theorem frameStep_content (u : Bytes) : (frameStep u).content = frameContent u := by
  unfold frameStep
  split
  · rfl
  · split
    · split <;> rfl
    · rfl

/-! ### Frames with the same headers -/

/-- A complete frame with at least one byte of payload. -/
structure PayloadFrame (u : Bytes) : Prop where
  complete : CompleteFrame u
  field : lengthField u ≠ 0
  body : headerLen u < u.length

/-- The same frame with another payload of the same length. -/
def SameHeader (u v : Bytes) : Prop :=
  v.length = u.length ∧ v.take (headerLen u) = u.take (headerLen u)

/-- The payload of a frame begins behind the header. -/
theorem PayloadFrame.length_content {u : Bytes} (frame : PayloadFrame u) :
    (frameContent u).length = u.length - headerLen u := by
  rw [frameContent, if_neg frame.field]
  split <;> simp [doMask]

theorem SameHeader.agree {u v : Bytes} (same : SameHeader u v) : AgreeTo (headerLen u) v u := by
  intro i hi
  rw [← byteAt_take hi, same.2, byteAt_take hi]

theorem two_le_headerLen (u : Bytes) : 2 ≤ headerLen u :=
  Nat.le_trans (two_le_keyStart u) (keyStart_le_headerLen u)

theorem SameHeader.headerLen_eq {u v : Bytes} (same : SameHeader u v) : headerLen v = headerLen u := by
  have htwo := two_le_headerLen u
  exact headerLen_congr (same.agree 1 (by omega))

theorem SameHeader.symm {u v : Bytes} (same : SameHeader u v) : SameHeader v u := by
  refine ⟨same.1.symm, ?_⟩
  rw [same.headerLen_eq]
  exact same.2.symm

theorem SameHeader.malformed {u v : Bytes} (same : SameHeader u v) (malformed : Malformed u) :
    Malformed v := by
  have hstart : keyStart u = 10 := by simp [keyStart, lengthSize, malformed.1]
  have hhead := keyStart_le_headerLen u
  have hlen := malformed.2.1
  exact malformed.congr (fun i hi => same.agree i (by omega)) (by rw [same.1]; exact hlen)

/-- **The header decides** what a frame does, and how long its payload is. -/
theorem SameHeader.spec {u v : Bytes} (same : SameHeader u v) (frame : PayloadFrame u) :
    PayloadFrame v ∧ (Malformed v ↔ Malformed u) ∧ opcode v = opcode u ∧ isFinal v = isFinal u ∧
      (frameContent v).length = (frameContent u).length := by
  have htwo := two_le_headerLen u
  have hzero := same.agree 0 (by omega)
  have hfield : lengthField v ≠ 0 := by
    rw [lengthField_congr (same.agree 1 (by omega))]
    exact frame.field
  have hmalformed : Malformed v ↔ Malformed u := ⟨same.symm.malformed, same.malformed⟩
  have hcomplete : CompleteFrame v := by
    rcases frame.complete with hunit | hbad
    · obtain ⟨-, ⟨hempty, -⟩ | ⟨-, good, hlen, -⟩⟩ := frameScan_unit hunit
      · exact absurd hempty frame.field
      · have hsize := payloadSize_congr same.agree (keyStart_le_headerLen u)
        have hwhole : v.length = headerLen v + payloadSize v := by
          rw [same.1, same.headerLen_eq, hsize]
          exact hlen
        have hscan := frameScan_of_complete (Nat.le_of_eq hwhole.symm) hfield (hmalformed.not.mpr good)
        rw [← hwhole] at hscan
        exact Or.inl hscan
    · exact Or.inr (same.malformed hbad)
  have hframe : PayloadFrame v :=
    ⟨hcomplete, hfield, by rw [same.headerLen_eq, same.1]; exact frame.body⟩
  refine ⟨hframe, hmalformed, ?_, ?_, ?_⟩
  · simp only [opcode, hzero]
  · simp only [isFinal, hzero]
  · rw [hframe.length_content, frame.length_content, same.1, same.headerLen_eq]

/-- The steps of two frames with the same header have the same shape. -/
theorem SameHeader.tag_eq {u v : Bytes} (same : SameHeader u v) (frame : PayloadFrame u) :
    (frameStep u).tag 0 = (frameStep v).tag 0 := by
  obtain ⟨-, -, hop, hfin, hlen⟩ := same.spec frame
  unfold Gather.Step.tag
  rw [frameStep_content, frameStep_content, hlen]
  unfold frameStep
  rw [hop, hfin]
  split
  · rfl
  · split
    · split <;> rfl
    · rfl

/-- So do the steps of the frames that the buffers hold. -/
theorem held_shape {us vs : List Bytes} (same : List.Forall₂ SameHeader us vs)
    (frames : ∀ u ∈ us, PayloadFrame u) (size : Nat) :
    List.Forall₂ (fun step other => step.tag 0 = other.tag 0)
      ((held size us).map frameStep) ((held size vs).map frameStep) := by
  induction same generalizing size with
  | nil => exact .nil
  | @cons u v us vs huv _ ih =>
      rw [List.forall_mem_cons] at frames
      obtain ⟨-, hbad, hop, hfin, hlen⟩ := huv.spec frames.1
      have hstep : mergeStep size v = mergeStep size u := by
        unfold mergeStep
        rw [hop, hfin, hlen]
      have hholds : Holds size v ↔ Holds size u := by
        unfold Holds
        rw [hbad, huv.1, hstep]
      by_cases holds : Holds size u
      · rw [held_cons us holds, held_cons vs (hholds.mpr holds), hstep]
        exact .cons (huv.tag_eq frames.1) (ih frames.2 _)
      · rw [held_stop us holds, held_stop vs (hholds.not.mpr holds)]
        exact .nil

/-! ### Where the delivered bytes come from -/

/-- The payload byte of the frame `at_.1` at the offset `at_.2`. -/
def payloadByte (us : List Bytes) (at_ : Nat × Nat) : UInt8 :=
  (frameContent (us.getD at_.1 [])).getD at_.2 0

/-- For every onData call on a new handle, the places of the payload bytes that it is handed:
whatever the payloads behind the headers of the frames, and whatever the chunks in which they arrive. -/
def Provenance (endpoint : EndpointType) (hd : WebsocketHandle) (us : List Bytes)
    (places : List (List (Nat × Nat))) : Prop :=
  ∀ vs chunks, List.Forall₂ SameHeader us vs → (∀ chunk ∈ chunks, chunk ≠ []) →
    chunks.flatten = vs.flatten →
      payloads (connectionEvents endpoint hd chunks) = places.map (List.map (payloadByte vs))

/-- No payload byte reaches two onData calls. -/
def DeliveredOnce (endpoint : EndpointType) (hd : WebsocketHandle) (us : List Bytes) : Prop :=
  ∃ places, Provenance endpoint hd us places ∧ places.Pairwise List.Disjoint

/-- The places that the merge buffer's rules give. -/
def places (us : List Bytes) : List (List (Nat × Nat)) :=
  Gather.outputs [] (Gather.tagFrom 0 ((held 0 us).map frameStep))

theorem complete_of_same {us vs : List Bytes} (same : List.Forall₂ SameHeader us vs)
    (frames : ∀ u ∈ us, PayloadFrame u) : ∀ v ∈ vs, CompleteFrame v := by
  induction same with
  | nil => exact nofun
  | cons huv _ ih =>
      rw [List.forall_mem_cons] at frames ⊢
      exact ⟨(huv.spec frames.1).1.complete, ih frames.2⟩

/-- **These places are the provenance.** -/
theorem provenance_places (endpoint : EndpointType) {hd : WebsocketHandle} (fresh : Allocated hd)
    {us : List Bytes} (frames : ∀ u ∈ us, PayloadFrame u) :
    Provenance endpoint hd us (places us) := by
  intro vs chunks same nonempty cut
  obtain ⟨rest, hsplit⟩ := held_append 0 vs
  have hread : (Gather.tagFrom 0 ((held 0 vs).map frameStep)).map (Gather.Step.map (payloadByte vs)) =
      (held 0 vs).map frameStep := by
    apply Gather.tagFrom_map
    intro k step hstep o inside
    rw [List.getElem?_map] at hstep
    obtain ⟨v, hv, rfl⟩ := Option.map_eq_some_iff.mp hstep
    have hat : vs.getD (0 + k) [] = v := by
      obtain ⟨hk, -⟩ := List.getElem?_eq_some_iff.mp hv
      rw [hsplit, Nat.zero_add, List.getD_eq_getElem?_getD, List.getElem?_append_left hk, hv]
      rfl
    rw [payloadByte, hat]
    simp only [frameStep_content] at inside ⊢
    rw [List.getD_eq_getElem _ _ inside]
  rw [connectionEvents_payloads endpoint fresh (complete_of_same same frames) nonempty cut,
    deliver_eq_outputs, ← hread, ← List.map_nil, Gather.outputs_map, places,
    Gather.tagFrom_congr (held_shape same frames 0)]

/-! ### A marked byte -/

/-- A frame with another payload behind its header. -/
def refill (u payload : Bytes) : Bytes :=
  u.take (headerLen u) ++
    if keyed u then doMask payload (fun i => byteAt u (keyStart u + i)) else payload

/-- The frames, numbered from `i`, with the payload bytes given by their places. -/
def refillFrom (fill : Nat × Nat → UInt8) : Nat → List Bytes → List Bytes
  | _, [] => []
  | i, u :: us =>
      refill u ((List.range (u.length - headerLen u)).map fun o => fill (i, o)) ::
        refillFrom fill (i + 1) us

theorem refill_same {u payload : Bytes} (frame : PayloadFrame u)
    (length_eq : payload.length = u.length - headerLen u) : SameHeader u (refill u payload) := by
  have hbody := frame.body
  have hfront : (u.take (headerLen u)).length = headerLen u := by
    rw [List.length_take]
    omega
  constructor
  · have hbehind : (if keyed u then doMask payload (fun i => byteAt u (keyStart u + i))
        else payload).length = payload.length := by
      split <;> simp [doMask]
    rw [refill, List.length_append, hfront, hbehind]
    omega
  · rw [refill, List.take_left' hfront]

/-- The payload is the one that was put in. -/
theorem refill_content {u payload : Bytes} (frame : PayloadFrame u)
    (length_eq : payload.length = u.length - headerLen u) :
    frameContent (refill u payload) = payload := by
  have same := refill_same frame length_eq
  have htwo := two_le_headerLen u
  have hone := same.agree 1 (by omega)
  have hbody := frame.body
  have hfront : (u.take (headerLen u)).length = headerLen u := by
    rw [List.length_take]
    omega
  have hfield : lengthField (refill u payload) ≠ 0 := by
    rw [lengthField_congr hone]
    exact frame.field
  rw [frameContent, if_neg hfield, keyed_congr hone, keyStart_congr hone, same.headerLen_eq]
  have hdrop : (refill u payload).drop (headerLen u) =
      if keyed u then doMask payload (fun i => byteAt u (keyStart u + i)) else payload := by
    rw [refill, List.drop_left' hfront]
  rw [hdrop]
  cases hkeyed : keyed u with
  | false => rfl
  | true =>
      have hkey : (fun i : Fin 4 => byteAt (refill u payload) (keyStart u + i)) =
          fun i : Fin 4 => byteAt u (keyStart u + i) := by
        funext i
        apply same.agree
        rw [headerLen, if_pos hkeyed]
        omega
      rw [if_pos rfl, if_pos rfl, hkey]
      exact WireFrame.doMask_doMask payload _

theorem refillFrom_same (fill : Nat × Nat → UInt8) (i : Nat) {us : List Bytes}
    (frames : ∀ u ∈ us, PayloadFrame u) : List.Forall₂ SameHeader us (refillFrom fill i us) := by
  induction us generalizing i with
  | nil => exact .nil
  | cons u us ih =>
      rw [List.forall_mem_cons] at frames
      exact .cons (refill_same frames.1 (by simp)) (ih (i + 1) frames.2)

/-- Every payload byte is the one that was put in, and there are no others. -/
theorem refillFrom_byte (fill : Nat × Nat → UInt8) {i : Nat} {us : List Bytes}
    (frames : ∀ u ∈ us, PayloadFrame u) (j o : Nat) :
    payloadByte (refillFrom fill i us) (j, o) =
      if o < (frameContent (us.getD j [])).length then fill (i + j, o) else 0 := by
  induction us generalizing i j with
  | nil => simp [refillFrom, payloadByte, frameContent, lengthField, byteAt]
  | cons u us ih =>
      rw [List.forall_mem_cons] at frames
      cases j with
      | zero =>
          have hcontent := @refill_content u
            ((List.range (u.length - headerLen u)).map fun o => fill (i, o)) frames.1 (by simp)
          have hlen := frames.1.length_content
          simp only [payloadByte, refillFrom, List.getD_cons_zero, hcontent, hlen, Nat.add_zero]
          split
          · rename_i hinside
            rw [List.getD_eq_getElem _ _ (by simpa using hinside)]
            simp
          · rename_i hinside
            rw [List.getD_eq_default _ _ (by simpa using hinside)]
      | succ j =>
          have hnext := ih (i := i + 1) frames.2 j
          rw [show i + 1 + j = i + (j + 1) by omega] at hnext
          simpa [payloadByte, refillFrom] using hnext

/-- A buffer that is handed out twice shows in the provenance: the first byte of the frame that ends the
message is marked, and both calls get it. -/
theorem neverRejoined_of_deliveredOnce (endpoint : EndpointType) {hd : WebsocketHandle}
    (fresh : Allocated hd) {us : List Bytes} (frames : ∀ u ∈ us, PayloadFrame u) :
    DeliveredOnce endpoint hd us → Gather.NeverRejoined ((held 0 us).map frameStep) := by
  rintro ⟨others, provenance, disjoint⟩ before first between second after hsteps hends hagain
  by_contra hkeeps
  have hnone : ∀ step ∈ between, ¬ step.Begins := by
    intro step hstep hbegins
    exact hkeeps ⟨step, hstep, hbegins⟩
  obtain ⟨rest, hsplit⟩ := held_append 0 us
  have hcontent : first.content ≠ [] := by
    have hfirst : first ∈ (held 0 us).map frameStep := by simp [hsteps]
    obtain ⟨u, hu, rfl⟩ := List.mem_map.mp hfirst
    have hframe := frames u (by rw [hsplit]; exact List.mem_append_left _ hu)
    have hlen := hframe.length_content
    have hbody := hframe.body
    rw [frameStep_content]
    intro hnil
    rw [hnil, List.length_nil] at hlen
    omega
  obtain ⟨a, out, b, out', c, hplaces, hout, hout'⟩ :=
    Gather.tagged_outputs_meet hends hcontent hagain hnone
  rw [← hsteps] at hplaces
  let fill : Nat × Nat → UInt8 := fun at_ => if at_ = (before.length, 0) then 1 else 0
  let vs := refillFrom fill 0 us
  have hmark : ∀ at_, payloadByte vs at_ = 1 → at_ = (before.length, 0) := by
    rintro ⟨j, o⟩ hone
    rw [refillFrom_byte fill frames] at hone
    by_contra hne
    rw [Nat.zero_add] at hone
    simp [fill, hne] at hone
  have hmarked : payloadByte vs (before.length, 0) = 1 := by
    have hat : ((held 0 us).map frameStep)[before.length]? = some first := by simp [hsteps]
    rw [List.getElem?_map] at hat
    obtain ⟨u, hu, hstep⟩ := Option.map_eq_some_iff.mp hat
    obtain ⟨hk, -⟩ := List.getElem?_eq_some_iff.mp hu
    have hget : us.getD before.length [] = u := by
      rw [hsplit, List.getD_eq_getElem?_getD, List.getElem?_append_left hk, hu]
      rfl
    rw [← hstep, frameStep_content] at hcontent
    rw [refillFrom_byte fill frames, hget, if_pos (List.length_pos_iff.mpr hcontent), Nat.zero_add]
    simp [fill]
  have hsame := refillFrom_same fill 0 frames
  have hnonempty : ∀ chunk ∈ vs, chunk ≠ [] := by
    intro chunk hchunk hnil
    have hcomplete := complete_of_same hsame frames chunk hchunk
    rcases hcomplete with hunit | hbad
    · have := two_le_of_unit hunit
      rw [hnil, List.length_nil] at this
      omega
    · have := hbad.2.1
      rw [hnil, List.length_nil] at this
      omega
  have hboth := provenance vs vs hsame hnonempty rfl
  rw [provenance_places endpoint fresh frames vs vs hsame hnonempty rfl, places, hplaces] at hboth
  have hpairs : (others.map (List.map (payloadByte vs))).Pairwise
      fun first second => ¬ (1 ∈ first ∧ 1 ∈ second) := by
    apply List.pairwise_map.mpr
    apply disjoint.imp
    rintro first second hdisjoint ⟨hfirst, hsecond⟩
    obtain ⟨at_, hat, hone⟩ := List.mem_map.mp hfirst
    obtain ⟨at', hat', hone'⟩ := List.mem_map.mp hsecond
    rw [hmark at_ hone] at hat
    rw [hmark at' hone'] at hat'
    exact hdisjoint hat hat'
  rw [← hboth, List.pairwise_map, List.pairwise_append] at hpairs
  apply hpairs.2.2 out (by simp) out' (by simp)
  exact ⟨List.mem_map.mpr ⟨_, hout, hmarked⟩, List.mem_map.mpr ⟨_, hout', hmarked⟩⟩

/-- **Delivered once.** No payload byte reaches two onData calls exactly when, among the frames that the
buffers hold, a first fragment stands between any two final continuations. -/
theorem deliveredOnce_iff (endpoint : EndpointType) {hd : WebsocketHandle} (fresh : Allocated hd)
    {us : List Bytes} (frames : ∀ u ∈ us, PayloadFrame u) :
    DeliveredOnce endpoint hd us ↔ Gather.NeverRejoined ((held 0 us).map frameStep) := by
  constructor
  · exact neverRejoined_of_deliveredOnce endpoint fresh frames
  · intro never
    refine ⟨places us, provenance_places endpoint fresh frames, ?_⟩
    have honce : Gather.Once false ((held 0 us).map frameStep) :=
      Gather.once_of_neverRejoined never nofun
    exact Gather.outputs_disjoint (Gather.once_tagFrom honce)
      (by rw [List.nil_append]; exact Gather.nodup_tagFrom 0 _)

/-- A message in two fragments and a whole one. -/
theorem deliveredOnce_iff_fragments :
    DeliveredOnce .server (newHandle .server)
        [[0x01, 0x01, 0x61], [0x80, 0x01, 0x62], [0x81, 0x01, 0x63]] ↔
      Gather.NeverRejoined ((held 0
        [[0x01, 0x01, 0x61], [0x80, 0x01, 0x62], [0x81, 0x01, 0x63]]).map frameStep) := by
  apply deliveredOnce_iff .server (newHandle_allocated .server)
  simp only [List.forall_mem_cons]
  exact ⟨⟨Or.inl (by decide), by decide, by decide⟩, ⟨Or.inl (by decide), by decide, by decide⟩,
    ⟨Or.inl (by decide), by decide, by decide⟩, nofun⟩

/-- A final continuation behind a delivered message hands its bytes over again. -/
theorem continuation_repeats :
    ¬ DeliveredOnce .server (newHandle .server)
        [[0x01, 0x01, 0x61], [0x80, 0x01, 0x62], [0x80, 0x01, 0x63]] ∧
      payloads (connectionEvents .server (newHandle .server)
        [[0x01, 0x01, 0x61], [0x80, 0x01, 0x62], [0x80, 0x01, 0x63]]) =
          [[0x61, 0x62], [0x61, 0x62, 0x63]] := by
  have hframes : ∀ u ∈ [[0x01, 0x01, 0x61], [0x80, 0x01, 0x62], [0x80, 0x01, 0x63]],
      PayloadFrame u := by
    simp only [List.forall_mem_cons]
    exact ⟨⟨Or.inl (by decide), by decide, by decide⟩, ⟨Or.inl (by decide), by decide, by decide⟩,
      ⟨Or.inl (by decide), by decide, by decide⟩, nofun⟩
  constructor
  · intro once
    obtain ⟨step, hstep, -⟩ := neverRejoined_of_deliveredOnce .server (newHandle_allocated .server)
      hframes once [.start [0x61]] (.join true [0x62]) [] (.join true [0x63]) [] rfl rfl rfl
    cases hstep
  · rw [connectionEvents_payloads .server (newHandle_allocated .server)
      (fun u hu => (hframes u hu).complete) (by decide) rfl]
    decide

end AnotherWs
