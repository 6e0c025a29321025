/-
Module: AnotherWs.Spec.Receiver
Purpose: The receiving side of a connection as a decoder of one contiguous stream: between two frames it
  is a view of the handle, and it takes a whole frame at a time.
Trusted boundary: none
Main exports: HandleView, WebsocketHandle.view, HandleView.withPending, HandleView.accept,
  HandleView.dispatch, receiver, DispatchCase, dispatch_cases
-/
import AnotherWs.Spec.FrameGrammar
import AnotherWs.Core.ReadLoop

namespace AnotherWs

open Framing

/-- What a handle holds that the stream determines: all of it but `readCount` and the capacities. -/
structure HandleView where
  header : FrameHeader
  proto : Bytes
  protoFlag : UInt8
  merge : Bytes
  mergeFlag : UInt8
  parseState : ParseState
deriving DecidableEq

/-- The view of a handle. -/
def WebsocketHandle.view (hd : WebsocketHandle) : HandleView where
  header := hd.toFrameHeader
  proto := hd.protoBuf.content
  protoFlag := hd.protoBuf.flag
  merge := hd.mergeBuf.content
  mergeFlag := hd.mergeBuf.flag
  parseState := hd.parseState

/-- The largest number of bytes that a doubled buffer takes. -/
def bufferLimit : Nat := 2 ^ 31

namespace HandleView

/-- The header fields with which the next frame begins. -/
def base (s : HandleView) : FrameHeader := { s.header with mask := fun _ => 0 }

/-- The view `s` between two frames, after the bytes `p` of a frame that is not complete. -/
def withPending (s : HandleView) (p : Bytes) : HandleView :=
  if p = [] then s
  else
    { s with
      header := applyHeader s.base p
      proto := p
      parseState := if Malformed p then .failed else .incomplete }

/-- The view once the frame `u` has been parsed. -/
def accept (s : HandleView) (u : Bytes) : HandleView :=
  { s with header := applyHeader s.base u, proto := frameContent u, parseState := .complete }

/-- A continuation joins the fragments so far, as long as they fit one buffer. -/
def continuation (s : HandleView) : Option (HandleView × List Event) :=
  if (s.merge ++ s.proto).length ≤ bufferLimit then
    some ({ s with merge := s.merge ++ s.proto },
      if s.header.isEof then [.onData (s.merge ++ s.proto) s.mergeFlag] else [])
  else none

/-- A text or binary frame is delivered, or begins a message. -/
def dataFrame (flag : UInt8) (s : HandleView) : HandleView × List Event :=
  let s := { s with protoFlag := s.protoFlag ||| flag }
  if s.header.isEof then (s, [.onData s.proto s.protoFlag])
  else ({ s with merge := s.proto, mergeFlag := s.mergeFlag ||| flag }, [])

/-- What a complete frame does. -/
def dispatch (s : HandleView) : Option (HandleView × List Event) :=
  match s.header.type.toNat with
  | 0 => s.continuation
  | 1 => some (s.dataFrame flagWebsocketText)
  | 2 => some (s.dataFrame flagWebsocketBin)
  | 8 => some (s, [.twCloseClient])
  | 9 => some (s, [.sendDataWithAsync generatePongControlFrame])
  | _ => some (s, [])

end HandleView

/-- The receiving side. It emits, for every frame, how many bytes it took and the callbacks it
caused. -/
def receiver : Decoder UInt8 HandleView (Nat × List Event) where
  scanner := frameScanner
  limit := bufferLimit
  handle s u := (s.accept u).dispatch.map fun out => (out.1, [(u.length, out.2)])

@[simp] theorem receiver_scan (w : Bytes) : receiver.scanner.scan w = frameScan w := rfl

@[simp] theorem receiver_limit : receiver.limit = 2 ^ 31 := rfl

/-- Handling a frame is accepting and dispatching it. -/
theorem receiver_handle {s s' : HandleView} {u : Bytes} {events : List Event}
    (h : (s.accept u).dispatch = some (s', events)) :
    receiver.handle s u = some (s', [(u.length, events)]) := by
  simp [receiver, h]

/-- Everything that a complete frame can do, by its opcode. -/
inductive DispatchCase (s : HandleView) (u : Bytes) : HandleView → List Event → Prop where
  /-- A continuation joins the fragments so far, and the last one delivers them. -/
  | continuation (op : opcode u = 0) (fits : s.merge.length + (frameContent u).length ≤ bufferLimit) :
      DispatchCase s u { s.accept u with merge := s.merge ++ frameContent u }
        (if isFinal u then [.onData (s.merge ++ frameContent u) s.mergeFlag] else [])
  /-- A text or binary frame with FIN is delivered. -/
  | whole (flag : UInt8) (op : opcode u = 1 ∨ opcode u = 2)
      (flag_eq : flag = if opcode u = 1 then flagWebsocketText else flagWebsocketBin)
      (final : isFinal u = true) :
      DispatchCase s u { s.accept u with protoFlag := s.protoFlag ||| flag }
        [.onData (frameContent u) (s.protoFlag ||| flag)]
  /-- Without FIN it begins a message. -/
  | first (flag : UInt8) (op : opcode u = 1 ∨ opcode u = 2)
      (flag_eq : flag = if opcode u = 1 then flagWebsocketText else flagWebsocketBin)
      (final : isFinal u = false) :
      DispatchCase s u
        { s.accept u with
          protoFlag := s.protoFlag ||| flag
          merge := frameContent u
          mergeFlag := s.mergeFlag ||| flag } []
  | close (op : opcode u = 8) : DispatchCase s u (s.accept u) [.twCloseClient]
  | ping (op : opcode u = 9) :
      DispatchCase s u (s.accept u) [.sendDataWithAsync generatePongControlFrame]
  | other (op : 3 ≤ opcode u) (noClose : opcode u ≠ 8) (noPing : opcode u ≠ 9) :
      DispatchCase s u (s.accept u) []

/-- **What a handled frame does.** -/
theorem dispatch_cases {s s' : HandleView} {u : Bytes} {events : List Event} (h : 1 ≤ u.length)
    (handled : (s.accept u).dispatch = some (s', events)) : DispatchCase s u s' events := by
  have htype : (s.accept u).header.type.toNat = opcode u := applyHeader_type _ h
  have heof : (s.accept u).header.isEof = isFinal u := applyHeader_isEof _ h
  have hdata : ∀ flag, (opcode u = 1 ∨ opcode u = 2) →
      (flag = if opcode u = 1 then flagWebsocketText else flagWebsocketBin) →
      DispatchCase s u ((s.accept u).dataFrame flag).1 ((s.accept u).dataFrame flag).2 := by
    intro flag hop hflag
    unfold HandleView.dataFrame
    dsimp only
    rw [heof]
    cases hfinal : isFinal u with
    | true => exact .whole flag hop hflag hfinal
    | false => exact .first flag hop hflag hfinal
  unfold HandleView.dispatch at handled
  rw [htype] at handled
  split at handled
  case h_1 hop =>
    unfold HandleView.continuation at handled
    split at handled
    · rename_i hfits
      cases handled
      rw [heof]
      exact .continuation hop (by rwa [List.length_append] at hfits)
    · cases handled
  case h_2 hop =>
    have htext := hdata flagWebsocketText (Or.inl hop) (if_pos hop).symm
    rwa [Option.some.inj handled] at htext
  case h_3 hop =>
    have hbin := hdata flagWebsocketBin (Or.inr hop) (if_neg (by omega)).symm
    rwa [Option.some.inj handled] at hbin
  case h_4 hop =>
    cases handled
    exact .close hop
  case h_5 hop =>
    cases handled
    exact .ping hop
  case h_6 hzero hone htwo height hnine =>
    have hthree : 3 ≤ opcode u := by
      by_contra hlow
      have hcases : opcode u = 0 ∨ opcode u = 1 ∨ opcode u = 2 := by omega
      exact hcases.elim hzero fun h => h.elim hone htwo
    cases handled
    exact .other hthree height hnine

/-- What is left of a frame is no longer than the frame. -/
theorem frameContent_length_le (u : Bytes) : (frameContent u).length ≤ u.length := by
  unfold frameContent
  split
  · exact Nat.le_refl _
  · split <;> simp [doMask]

/-- A frame leaves the view between two frames, and the merge buffer grows by no more than the
frame. -/
theorem dispatch_spec {s s' : HandleView} {events : List Event}
    (h : s.dispatch = some (s', events)) :
    s'.header = s.header ∧ s'.proto = s.proto ∧ s'.parseState = s.parseState ∧
      s'.merge.length ≤ s.merge.length + s.proto.length := by
  have hdata : ∀ flag, (s.dataFrame flag).1.header = s.header ∧
      (s.dataFrame flag).1.proto = s.proto ∧ (s.dataFrame flag).1.parseState = s.parseState ∧
      (s.dataFrame flag).1.merge.length ≤ s.merge.length + s.proto.length := by
    intro flag
    unfold HandleView.dataFrame
    dsimp only
    split
    · exact ⟨rfl, rfl, rfl, Nat.le_add_right _ _⟩
    · exact ⟨rfl, rfl, rfl, Nat.le_add_left _ _⟩
  unfold HandleView.dispatch at h
  split at h
  · unfold HandleView.continuation at h
    split at h
    · cases h
      exact ⟨rfl, rfl, rfl, by rw [List.length_append]⟩
    · cases h
  · have := hdata flagWebsocketText
    rw [Option.some.injEq] at h
    rwa [h] at this
  · have := hdata flagWebsocketBin
    rw [Option.some.injEq] at h
    rwa [h] at this
  all_goals
    cases h
    exact ⟨rfl, rfl, rfl, Nat.le_add_right _ _⟩

/-- Dispatching fails on an overlong message alone. -/
theorem dispatch_isSome {s : HandleView} (h : s.merge.length + s.proto.length ≤ bufferLimit) :
    ∃ out, s.dispatch = some out := by
  unfold HandleView.dispatch
  split
  · unfold HandleView.continuation
    rw [if_pos (by rwa [List.length_append])]
    exact ⟨_, rfl⟩
  all_goals exact ⟨_, rfl⟩

end AnotherWs
