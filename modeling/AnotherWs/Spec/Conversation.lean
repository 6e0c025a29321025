/-
Module: AnotherWs.Spec.Conversation
Purpose: The streams that a conformant peer sends: messages cut into fragments, with control frames
  anywhere between the fragments.
Trusted boundary: none
Main exports: Fragment, Message, Message.frames, Message.payload, Interleaved, encodeAll
-/
import AnotherWs.Spec.WireFrame

namespace AnotherWs

/-- A piece of a message, and the key it is masked with. -/
structure Fragment where
  key : Option (Fin 4 → UInt8)
  payload : Bytes

/-- A text or binary message, cut into one or more fragments. -/
structure Message where
  binary : Bool
  first : Fragment
  rest : List Fragment

/-- The fragments behind the first one: opcode 0, and FIN on the last. -/
def continuationFrames : List Fragment → List WireFrame
  | [] => []
  | [last] => [⟨true, 0, last.key, last.payload⟩]
  | fragment :: next :: more =>
      ⟨false, 0, fragment.key, fragment.payload⟩ :: continuationFrames (next :: more)

namespace Message

/-- All fragments of a message. -/
def fragments (m : Message) : List Fragment := m.first :: m.rest

/-- The first fragment carries the opcode, and FIN when it is the only one. -/
def firstFrame (m : Message) : WireFrame :=
  ⟨m.rest.isEmpty, if m.binary then 2 else 1, m.first.key, m.first.payload⟩

/-- The frames of a message. -/
def frames (m : Message) : List WireFrame := m.firstFrame :: continuationFrames m.rest

/-- What the message says. -/
def payload (m : Message) : Bytes := m.fragments.flatMap Fragment.payload

end Message

theorem continuationFrames_op (gs : List Fragment) : ∀ f ∈ continuationFrames gs, f.op = 0 := by
  fun_induction continuationFrames gs with
  | case1 => simp
  | case2 last => simp
  | case3 fragment next more ih => exact List.forall_mem_cons.mpr ⟨rfl, ih⟩

/-- The frames of a message are data frames. -/
theorem Message.frames_op (m : Message) : ∀ f ∈ m.frames, f.op.val ≤ 2 := by
  refine List.forall_mem_cons.mpr ⟨?_, ?_⟩
  · unfold firstFrame
    cases m.binary with
    | true => exact Nat.le_refl 2
    | false => exact Nat.le_succ 1
  · intro f hf
    rw [continuationFrames_op m.rest f hf]
    decide

/-- `pieces` are the frames in their order, with control frames between them. -/
inductive Interleaved {α : Type} (control : α → Prop) : List α → List α → Prop where
  | nil : Interleaved control [] []
  | frame {frames pieces : List α} (f : α) (rest : Interleaved control frames pieces) :
      Interleaved control (f :: frames) (f :: pieces)
  | control {frames pieces : List α} (c : α) (isControl : control c)
      (rest : Interleaved control frames pieces) : Interleaved control frames (c :: pieces)

namespace Interleaved

variable {α β : Type} {control : α → Prop} {frames pieces : List α}

theorem map {control' : β → Prop} {g : α → β} (hcontrol : ∀ c, control c → control' (g c))
    (h : Interleaved control frames pieces) :
    Interleaved control' (frames.map g) (pieces.map g) := by
  induction h with
  | nil => exact .nil
  | frame f rest ih => exact .frame (g f) ih
  | control c isControl rest ih => exact .control (g c) (hcontrol c isControl) ih

/-- Every piece is one of the frames or a control frame. -/
theorem mem (h : Interleaved control frames pieces) {x : α} (hx : x ∈ pieces) :
    x ∈ frames ∨ control x := by
  induction h with
  | nil => exact absurd hx List.not_mem_nil
  | frame f rest ih =>
      rcases List.mem_cons.mp hx with rfl | hx
      · exact Or.inl (List.mem_cons_self ..)
      · exact (ih hx).imp (List.mem_cons_of_mem _) id
  | control c isControl rest ih =>
      rcases List.mem_cons.mp hx with rfl | hx
      · exact Or.inr isControl
      · exact ih hx

/-- Every frame is one of the pieces. -/
theorem frame_mem (h : Interleaved control frames pieces) {x : α} (hx : x ∈ frames) :
    x ∈ pieces := by
  induction h with
  | nil => exact hx
  | frame f rest ih =>
      rcases List.mem_cons.mp hx with rfl | hx
      · exact List.mem_cons_self ..
      · exact List.mem_cons_of_mem _ (ih hx)
  | control c isControl rest ih => exact List.mem_cons_of_mem _ (ih hx)

end Interleaved

/-- Frames one after the other on the wire. -/
def encodeAll (frames : List WireFrame) : Bytes := (frames.map WireFrame.encode).flatten

@[simp] theorem encodeAll_nil : encodeAll [] = [] := rfl

@[simp] theorem encodeAll_cons (f : WireFrame) (frames : List WireFrame) :
    encodeAll (f :: frames) = f.encode ++ encodeAll frames := rfl

@[simp] theorem encodeAll_append (first second : List WireFrame) :
    encodeAll (first ++ second) = encodeAll first ++ encodeAll second := by
  simp [encodeAll]

/-- No frame is empty on the wire. -/
theorem length_le_encodeAll (frames : List WireFrame) :
    frames.length ≤ (encodeAll frames).length := by
  induction frames with
  | nil => exact Nat.le_refl _
  | cons f frames ih =>
      have := f.two_le_header
      rw [encodeAll_cons, List.length_append, WireFrame.encode_length, List.length_cons]
      omega

end AnotherWs
