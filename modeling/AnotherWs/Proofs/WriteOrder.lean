/-
Module: AnotherWs.Proofs.WriteOrder
Purpose: Whether the stream to a peer is made of whole messages when many threads send at once. It
  is as long as calls keep apart and the loop thread does not run through the handles of a call that
  has stored some of its parts; nothing in the code keeps it from doing so.
Trusted boundary: none
Main exports:
  LawfulSplit, MessagesTo, Uncut, Untorn, untorn_of_uncut, scan_tears_message
-/
import AnotherWs.Lib.Tiling
import AnotherWs.Proofs.Encoder
import AnotherWs.Proofs.HandlePool

namespace AnotherWs

open Tiling

/-! ### Calls that send messages -/

/-- A split function that cuts data into parts that are not empty. -/
def LawfulSplit (split : Nat → List Nat) : Prop :=
  ∀ n, 0 < n → (split n).sum = n ∧ ∀ size ∈ split n, 0 < size

/-- Every call sends a message to one peer, and the loop thread visits the handles in the order of
initialisation. -/
def MessagesTo (peer : Nat) (s : SendSystem) : Action → Prop
  | .call _ req => ∃ buffer op split, sendWebsocketMsg peer buffer op split = .ok req ∧
      ∀ f ∈ split, LawfulSplit f
  | .visit id => id = s.cursor
  | _ => True

/-- An acquire hands out no handle that a call has acquired and not yet filled; a part is stored
only while the loop thread is not inside the handles of its call; the loop thread visits no handle
of a call in several parts that has stored some of them and has not returned. -/
def Uncut (s : SendSystem) : Action → Prop
  | .call thread req => Exclusive s (.call thread req)
  | .fill thread => ∀ c, s.senders thread = some c → s.cursor ∉ c.asyncResult.tail
  | .visit id => ∀ t c, s.senders t = some c → 1 < c.asyncResult.length → 0 < c.count →
      id ∉ c.asyncResult
  | _ => True

/-- The encodings of the messages that a run sends. -/
def encodings (actions : List Action) : List Bytes :=
  actions.filterMap fun a => match a with
    | .call _ req => some req.data
    | _ => none

/-- Whole messages followed by the front of one. -/
def Untorn (messages : List Bytes) (wire : Bytes) : Prop :=
  ∃ (done : List Bytes) (part rest : Bytes), wire = done.flatten ++ part ∧
    (∀ e ∈ done, e ∈ messages) ∧ (part = [] ∨ part ++ rest ∈ messages)

theorem wrapFragment_doubled {buf buf' : Membuf} {part : Bytes} {op : UInt8}
    {fragNum counter : Nat} (h : wrapFragment buf part op fragNum counter = .ok buf')
    (doubled : buf.Doubled) : buf'.Doubled := by
  have hframe : ∀ op fin, generateWebsocketFrameWithoutFragment buf part op fin 0 = .ok buf' →
      buf'.Doubled := by
    intro op fin hcall
    unfold generateWebsocketFrameWithoutFragment at hcall
    cases hheader : generateHeader part.length op fin 0 with
    | none =>
        rw [hheader] at hcall
        cases hcall
        exact doubled
    | some header =>
        rw [hheader] at hcall
        obtain ⟨buf₁, hhead, hcall⟩ := bind_eq_ok.mp hcall
        obtain ⟨buf₂, hbody, hcall⟩ := bind_eq_ok.mp hcall
        rw [if_neg (by decide)] at hcall
        cases hcall
        exact membufAppendData_doubled hbody (membufAppendData_doubled hhead doubled)
  unfold wrapFragment at h
  split at h
  · exact hframe _ _ h
  · split at h
    · exact hframe _ _ h
    · split at h <;> exact hframe _ _ h

theorem fragmentLoop_doubled {data : Bytes} {op : UInt8} {fragNum fuel count counter : Nat}
    {buf buf' : Membuf} (h : fragmentLoop data op fragNum fuel count counter buf = .ok buf')
    (doubled : buf.Doubled) : buf'.Doubled := by
  induction fuel generalizing count counter buf with
  | zero => cases h
  | succ fuel ih =>
      unfold fragmentLoop at h
      obtain ⟨buf₁, hwrap, h⟩ := bind_eq_ok.mp h
      have hdoubled := wrapFragment_doubled hwrap doubled
      generalize (if data.length - count > dataFrameMaxLen then dataFrameMaxLen
        else data.length - count) = num at h
      split at h
      · exact ih h hdoubled
      · cases h
        exact hdoubled

/-- What a call of `sendWebsocketMsg` asks for: its data fits a buffer. -/
theorem sendWebsocketMsg_spec {peer : Nat} {buffer : Bytes} {op : UInt8}
    {split : Option (Nat → List Nat)} {req : Request}
    (h : sendWebsocketMsg peer buffer op split = .ok req) :
    req.peer = peer ∧ req.splitDataLenFunction = split ∧ req.data.length ≤ 2 ^ 31 := by
  unfold sendWebsocketMsg at h
  obtain ⟨buf, hbuf, h⟩ := bind_eq_ok.mp h
  cases h
  have hinit : (membufInit 128).Doubled := ⟨7, by omega, rfl⟩
  have hdoubled : buf.Doubled := by
    unfold generateWebsocketFrame at hbuf
    split at hbuf
    · cases hbuf
      exact hinit
    · exact fragmentLoop_doubled hbuf hinit
  exact ⟨rfl, rfl, by rw [Membuf.length_content]; exact hdoubled.size_le⟩

theorem splitParts_flatten (sizes : List Nat) (data : Bytes) (h : sizes.sum = data.length) :
    (splitParts sizes data).flatten = data := by
  induction sizes generalizing data with
  | nil =>
      rw [List.sum_nil] at h
      rw [List.length_eq_zero_iff.mp h.symm]
      rfl
  | cons size rest ih =>
      rw [List.sum_cons] at h
      rw [splitParts, List.flatten_cons, ih _ (by rw [List.length_drop]; omega),
        List.take_append_drop]

theorem splitParts_nonempty {sizes : List Nat} {data : Bytes} (h : sizes.sum = data.length)
    (positive : ∀ size ∈ sizes, 0 < size) : ∀ part ∈ splitParts sizes data, part ≠ [] := by
  induction sizes generalizing data with
  | nil => intro part hpart; cases hpart
  | cons size rest ih =>
      rw [List.sum_cons] at h
      intro part hpart
      have hsize := positive size List.mem_cons_self
      rcases List.mem_cons.mp hpart with rfl | hrest
      · intro hnil
        have hlen := congrArg List.length hnil
        rw [List.length_take, List.length_nil] at hlen
        omega
      · exact ih (by rw [List.length_drop]; omega)
          (fun other hother => positive other (List.mem_cons_of_mem _ hother)) part hrest

/-- The parts of a message make up its encoding, and only a message in one part can be empty. -/
theorem Request.parts_spec {peer : Nat} {buffer : Bytes} {op : UInt8}
    {split : Option (Nat → List Nat)} {req : Request}
    (h : sendWebsocketMsg peer buffer op split = .ok req) (lawful : ∀ f ∈ split, LawfulSplit f)
    (several : req.data ≠ [] ∨ split = none) :
    req.parts.flatten = req.data ∧ (1 < req.parts.length → ∀ part ∈ req.parts, part ≠ []) := by
  obtain ⟨-, hsplit, -⟩ := sendWebsocketMsg_spec h
  unfold Request.parts
  rw [hsplit]
  cases split with
  | none => exact ⟨by simp, fun h => absurd h (by simp)⟩
  | some f =>
      have hne : req.data ≠ [] := several.resolve_right (Option.some_ne_none _)
      obtain ⟨hsum, hpositive⟩ := lawful f rfl req.data.length (List.length_pos_iff.mpr hne)
      exact ⟨splitParts_flatten _ _ hsum, fun _ => splitParts_nonempty hsum hpositive⟩

/-! ### Messages as contexts -/

/-- The contexts of a whole message: one call's, in the order of its parts. -/
structure IsMessage (peer : Nat) (messages : List Bytes) (m : List SendDataContext) : Prop where
  call_eq : ∃ k, ∀ ctx ∈ m, ctx.call = k
  part_eq : m.map (·.part) = List.range m.length
  peer_eq : ∀ ctx ∈ m, ctx.peer = peer
  bytes_mem : bytesTo peer m ∈ messages

namespace IsMessage

variable {peer : Nat} {messages : List Bytes} {front rest : List SendDataContext}
  {ctx : SendDataContext}

/-- Within a message the number of a part is its place. -/
theorem part_of_append (h : IsMessage peer messages (front ++ ctx :: rest)) :
    ctx.part = front.length := by
  have hget := congrArg (fun l => l[front.length]?) h.part_eq
  simpa using hget

end IsMessage

/-- The contexts of a call, one for each part. -/
def SendCall.contexts (c : SendCall) : List SendDataContext :=
  (List.range c.asyncResult.length).map c.context

/-- What the contexts of a call carry is what its parts are. No part is cut by the `uint` of its
context. -/
theorem SendCall.bytesTo_contexts {c : SendCall} (parts_length : c.parts.length = c.asyncResult.length)
    (small : ∀ part ∈ c.parts, part.length < 2 ^ 32) : bytesTo c.peer c.contexts = c.parts.flatten := by
  have hwhole : ∀ j < c.parts.length,
      (c.context j).data.take (c.context j).len = c.parts.getD j [] := by
    intro j hj
    have hmem : c.part j ∈ c.parts := by
      rw [part, List.getD_eq_getElem _ _ hj]
      exact List.getElem_mem hj
    show (c.part j).take ((c.part j).length % 2 ^ 32) = c.part j
    rw [Nat.mod_eq_of_lt (small _ hmem), List.take_length]
  have hall : c.contexts.filter (fun ctx => ctx.peer = c.peer) = c.contexts := by
    refine List.filter_eq_self.mpr fun ctx hctx => ?_
    obtain ⟨j, -, rfl⟩ := List.mem_map.mp hctx
    exact decide_eq_true rfl
  have hparts : (List.range c.parts.length).map (fun j => c.parts.getD j []) = c.parts := by
    refine List.ext_getElem (by simp) fun j hj hj' => ?_
    simp [List.getElem?_eq_getElem hj']
  unfold bytesTo
  rw [hall, contexts, ← parts_length, List.flatMap_map]
  conv_rhs => rw [← hparts]
  rw [← List.flatMap_def]
  refine List.flatMap_congr fun j hj => ?_
  exact hwhole j (List.mem_range.mp hj)

theorem SendCall.contexts_isMessage {c : SendCall} {messages : List Bytes} {data : Bytes}
    (parts_length : c.parts.length = c.asyncResult.length) (flatten : c.parts.flatten = data)
    (small : data.length ≤ 2 ^ 31) (mem : data ∈ messages) :
    IsMessage c.peer messages c.contexts where
  call_eq := ⟨c.call, fun ctx hctx => by
    obtain ⟨j, -, rfl⟩ := List.mem_map.mp hctx
    rfl⟩
  part_eq := by
    unfold contexts
    rw [List.map_map, List.length_map, List.length_range]
    exact List.map_id _
  peer_eq ctx hctx := by
    obtain ⟨j, -, rfl⟩ := List.mem_map.mp hctx
    rfl
  bytes_mem := by
    rw [SendCall.bytesTo_contexts parts_length, flatten]
    · exact mem
    · intro part hpart
      have hle := (List.sublist_flatten_of_mem hpart).length_le
      rw [flatten] at hle
      omega

/-! ### The handles in the order of the scan -/

/-- The handles from the cursor on and around. -/
def SendSystem.scanOrder (s : SendSystem) : List Nat := (List.range s.pool.size).rotate s.cursor

/-- A visit of the next handle puts it at the back. -/
theorem scanOrder_next {s : SendSystem} (inside : s.cursor < s.pool.size) :
    ∃ rest, s.scanOrder = s.cursor :: rest ∧ s.cursor ∉ rest ∧
      (List.range s.pool.size).rotate (s.next s.cursor) = rest ++ [s.cursor] := by
  have hrange := range_rotate (Nat.zero_lt_of_lt inside) s.cursor
  rw [Nat.mod_eq_of_lt inside] at hrange
  have hsucc : List.range' s.cursor (s.pool.size - s.cursor) =
      s.cursor :: List.range' (s.cursor + 1) (s.pool.size - s.cursor - 1) := by
    rw [show s.pool.size - s.cursor = s.pool.size - s.cursor - 1 + 1 by omega, List.range'_succ]
    rfl
  rw [hsucc, List.cons_append] at hrange
  refine ⟨_, hrange, ?_, ?_⟩
  · rw [List.mem_append, List.mem_range'_1, List.mem_range]
    omega
  · have hrotate : (List.range s.pool.size).rotate (s.next s.cursor) =
        ((List.range s.pool.size).rotate s.cursor).rotate 1 := by
      rw [List.rotate_rotate, SendSystem.next]
      split
      · rfl
      · have hlast : s.cursor + 1 = (List.range s.pool.size).length := by
          rw [List.length_range]
          omega
        rw [hlast, List.rotate_length, List.rotate_zero]
    rw [hrotate, hrange, List.rotate_cons_succ, List.rotate_zero]

/-- The handles of a call are neighbours in the scan unless the cursor is between them. -/
theorem scanOrder_window {s : SendSystem} {a k : Nat} (inside : s.cursor < s.pool.size)
    (hle : a + k ≤ s.pool.size) (outside : s.cursor ≤ a ∨ a + k ≤ s.cursor) :
    ∃ front back, s.scanOrder = front ++ List.range' a k ++ back := by
  have hrange := range_rotate (Nat.zero_lt_of_lt inside) s.cursor
  have hzero : List.range s.cursor = List.range' 0 s.cursor := List.range_eq_range'
  rw [Nat.mod_eq_of_lt inside, hzero] at hrange
  -- a stretch of handles that contains the window is cut at its two ends
  have hcut : ∀ start n, start ≤ a → a + k ≤ start + n →
      ∃ front back, List.range' start n = front ++ List.range' a k ++ back := by
    intro start n hstart hend
    refine ⟨List.range' start (a - start), List.range' (a + k) (start + n - (a + k)), ?_⟩
    have hfirst : List.range' start (a - start) ++ List.range' (start + (a - start)) k =
        List.range' start (a - start + k) := List.range'_append_1
    rw [Nat.add_sub_cancel' hstart] at hfirst
    have hsecond : List.range' start (a - start + k) ++
        List.range' (start + (a - start + k)) (start + n - (a + k)) =
          List.range' start (a - start + k + (start + n - (a + k))) := List.range'_append_1
    rw [show start + (a - start + k) = a + k by omega,
      show a - start + k + (start + n - (a + k)) = n by omega] at hsecond
    rw [hfirst, hsecond]
  unfold SendSystem.scanOrder
  rw [hrange]
  rcases outside with hbefore | hafter
  · obtain ⟨front, back, hwindow⟩ := hcut s.cursor (s.pool.size - s.cursor) hbefore (by omega)
    exact ⟨front, back ++ List.range' 0 s.cursor, by rw [hwindow, List.append_assoc]⟩
  · obtain ⟨front, back, hwindow⟩ := hcut 0 s.cursor (Nat.zero_le _) (by omega)
    exact ⟨List.range' s.cursor (s.pool.size - s.cursor) ++ front, back, by
      simp only [hwindow, List.append_assoc]⟩

/-! ### The invariant -/

/-- A call in several parts that has stored some of them. -/
def SendCall.Started (c : SendCall) : Prop := 1 < c.asyncResult.length ∧ 0 < c.count

/-- What the handles will carry when every call that has started has stored all its parts, and how it is
cut into messages, from the next handle of the scan on. -/
structure Line (peer : Nat) (messages : List Bytes) (s : SendSystem)
    (cells : Nat → Option SendDataContext) : Prop where
  data_eq : ∀ id, (∀ t c, s.senders t = some c → c.Started → id ∉ c.asyncResult) →
    cells id = (s.pool.asyncs id).data
  started : ∀ t c, s.senders t = some c → c.Started → ∀ j < c.asyncResult.length,
    cells (c.async j) = some (c.context j)
  held : ∀ t c, s.senders t = some c → c.Started → ∀ j < c.count,
    (s.pool.asyncs (c.async j)).data = some (c.context j)
  fresh : ∀ t c, s.senders t = some c → ¬ c.Started → ∀ id ∈ c.unfilled, cells id = none
  message : ∀ t c, s.senders t = some c → IsMessage peer messages c.contexts ∧
    (1 < c.asyncResult.length → ∀ j < c.asyncResult.length, c.part j ≠ [])
  cursor_lt : 0 < s.pool.size → s.cursor < s.pool.size
  lane : ∃ (whole : List (List SendDataContext)) (front cur : List SendDataContext),
    s.reached = whole.flatten ++ front ∧
    (∀ m ∈ whole, IsMessage peer messages m) ∧
    Lane (IsMessage peer messages) cur (s.scanOrder.map cells) ∧
    (front = [] ∧ cur = [] ∨ front ≠ [] ∧ IsMessage peer messages (front ++ cur))

theorem line_init (peer : Nat) (messages : List Bytes) (size : Nat) (connected : Nat → Bool) :
    Line peer messages (.init size connected) fun _ => none where
  data_eq _ _ := rfl
  started _ _ h := by cases h
  held _ _ h := by cases h
  fresh _ _ h := by cases h
  message _ _ h := by cases h
  cursor_lt h := h
  lane := by
    refine ⟨[], [], [], rfl, (fun _ h => by cases h), ⟨_, rfl, ?_⟩, Or.inl ⟨rfl, rfl⟩⟩
    induction (SendSystem.init size connected).scanOrder with
    | nil => exact .nil
    | cons id rest ih => exact ih.gap

namespace Line

variable {peer : Nat} {messages : List Bytes} {s s' : SendSystem}
  {cells : Nat → Option SendDataContext}

/-- The same call, or one of the same parts as far as its handles are concerned. -/
structure SameCall (c c' : SendCall) : Prop where
  asyncResult_eq : c'.asyncResult = c.asyncResult
  count_eq : c'.count = c.count
  part_eq : ∀ j, c'.part j = c.part j
  context_eq : ∀ j, c'.context j = c.context j

theorem SameCall.refl (c : SendCall) : SameCall c c := ⟨rfl, rfl, fun _ => rfl, fun _ => rfl⟩

theorem SameCall.contexts_eq {c c' : SendCall} (same : SameCall c c') : c'.contexts = c.contexts := by
  unfold SendCall.contexts
  rw [same.asyncResult_eq]
  exact List.map_congr_left fun j _ => same.context_eq j

theorem SameCall.started_iff {c c' : SendCall} (same : SameCall c c') : c'.Started ↔ c.Started := by
  unfold SendCall.Started
  rw [same.asyncResult_eq, same.count_eq]

/-- A call that has its handles and has stored nothing, all of them empty. -/
structure NewCall (peer : Nat) (messages : List Bytes) (cells : Nat → Option SendDataContext)
    (c : SendCall) : Prop where
  count_eq : c.count = 0
  empty : ∀ id ∈ c.asyncResult, cells id = none
  message : IsMessage peer messages c.contexts ∧
    (1 < c.asyncResult.length → ∀ j < c.asyncResult.length, c.part j ≠ [])

/-- A step that moves no context. Calls go on, new ones come, and a call that has started leaves
only when it has stored every part. -/
theorem keep (line : Line peer messages s cells) (size_eq : s'.pool.size = s.pool.size)
    (same_data : ∀ id, (s'.pool.asyncs id).data = (s.pool.asyncs id).data)
    (cursor_eq : s'.cursor = s.cursor) (reached_eq : s'.reached = s.reached)
    (senders : ∀ t c', s'.senders t = some c' →
      (∃ c, s.senders t = some c ∧ SameCall c c') ∨ NewCall peer messages cells c')
    (left : ∀ t c, s.senders t = some c → c.Started →
      (∃ c', s'.senders t = some c' ∧ SameCall c c') ∨ c.count = c.asyncResult.length) :
    Line peer messages s' cells where
  data_eq id h := by
    rw [same_data]
    by_cases hin : ∃ t c, s.senders t = some c ∧ c.Started ∧ id ∈ c.asyncResult
    · obtain ⟨t, c, hc, hstarted, hid⟩ := hin
      rcases left t c hc hstarted with ⟨c', hc', hsame⟩ | hall
      · refine absurd ?_ (h t c' hc' (hsame.started_iff.mpr hstarted))
        rw [hsame.asyncResult_eq]
        exact hid
      · obtain ⟨j, hj, rfl⟩ := List.getElem_of_mem hid
        rw [SendCall.async_eq hj, line.started t c hc hstarted j hj,
          line.held t c hc hstarted j (by omega)]
    · exact line.data_eq id fun t c hc hstarted hid => hin ⟨t, c, hc, hstarted, hid⟩
  started t c' h hstarted j hj := by
    rcases senders t c' h with ⟨c, hc, hsame⟩ | hnew
    · rw [SendCall.async, hsame.asyncResult_eq, hsame.context_eq]
      exact line.started t c hc (hsame.started_iff.mp hstarted) j (by rwa [← hsame.asyncResult_eq])
    · exact absurd hstarted.2 (by rw [hnew.count_eq]; exact Nat.lt_irrefl 0)
  held t c' h hstarted j hj := by
    rw [same_data]
    rcases senders t c' h with ⟨c, hc, hsame⟩ | hnew
    · rw [SendCall.async, hsame.asyncResult_eq, hsame.context_eq]
      exact line.held t c hc (hsame.started_iff.mp hstarted) j (by rwa [← hsame.count_eq])
    · exact absurd hstarted.2 (by rw [hnew.count_eq]; exact Nat.lt_irrefl 0)
  fresh t c' h hstarted id hid := by
    rcases senders t c' h with ⟨c, hc, hsame⟩ | hnew
    · refine line.fresh t c hc (fun hs => hstarted (hsame.started_iff.mpr hs)) id ?_
      unfold SendCall.unfilled at hid ⊢
      rwa [hsame.asyncResult_eq, hsame.count_eq] at hid
    · exact hnew.empty id (List.mem_of_mem_drop hid)
  message t c' h := by
    rcases senders t c' h with ⟨c, hc, hsame⟩ | hnew
    · obtain ⟨hmessage, hparts⟩ := line.message t c hc
      refine ⟨hsame.contexts_eq ▸ hmessage, fun hlen j hj => ?_⟩
      rw [hsame.part_eq]
      rw [hsame.asyncResult_eq] at hlen hj
      exact hparts hlen j hj
    · exact hnew.message
  cursor_lt h := by
    rw [cursor_eq, size_eq]
    exact line.cursor_lt (size_eq ▸ h)
  lane := by
    rw [reached_eq, SendSystem.scanOrder, size_eq, cursor_eq]
    exact line.lane

/-- A call leaves without having started, or after its last part. -/
theorem leave (line : Line peer messages s cells) {t : Nat} {c : SendCall}
    (sending : s.senders t = some c) (all : c.Started → c.count = c.asyncResult.length)
    (others : ∀ t', t' ≠ t → s'.senders t' = s.senders t') (gone : s'.senders t = none)
    (size_eq : s'.pool.size = s.pool.size)
    (same_data : ∀ id, (s'.pool.asyncs id).data = (s.pool.asyncs id).data)
    (cursor_eq : s'.cursor = s.cursor) (reached_eq : s'.reached = s.reached) :
    Line peer messages s' cells := by
  refine line.keep size_eq same_data cursor_eq reached_eq (fun t' c' h' => ?_) fun t' c' h' hs => ?_
  · by_cases ht : t' = t
    · rw [ht, gone] at h'
      cases h'
    · exact Or.inl ⟨c', by rw [← others t' ht]; exact h', .refl c'⟩
  · by_cases ht : t' = t
    · rw [ht, sending, Option.some.injEq] at h'
      subst h'
      exact Or.inr (all hs)
    · exact Or.inl ⟨c', by rw [others t' ht]; exact h', .refl c'⟩

/-- A call goes on to what is the same call as far as its handles are concerned. -/
theorem goOn (line : Line peer messages s cells) {t : Nat} {c next : SendCall}
    (sending : s.senders t = some c) (same : SameCall c next)
    (others : ∀ t', t' ≠ t → s'.senders t' = s.senders t') (now : s'.senders t = some next)
    (size_eq : s'.pool.size = s.pool.size)
    (same_data : ∀ id, (s'.pool.asyncs id).data = (s.pool.asyncs id).data)
    (cursor_eq : s'.cursor = s.cursor) (reached_eq : s'.reached = s.reached) :
    Line peer messages s' cells := by
  refine line.keep size_eq same_data cursor_eq reached_eq (fun t' c' h' => ?_) fun t' c' h' _ => ?_
  · by_cases ht : t' = t
    · rw [ht, now, Option.some.injEq] at h'
      subst h'
      exact Or.inl ⟨c, by rw [ht]; exact sending, same⟩
    · exact Or.inl ⟨c', by rw [← others t' ht]; exact h', .refl c'⟩
  · by_cases ht : t' = t
    · rw [ht, sending, Option.some.injEq] at h'
      subst h'
      exact Or.inl ⟨next, by rw [ht]; exact now, same⟩
    · exact Or.inl ⟨c', by rw [others t' ht]; exact h', .refl c'⟩

/-- The handles that an exclusive acquire hands out are empty, now and when every call that has
started has stored its parts. -/
theorem cells_of_acquired (line : Line peer messages s cells) {ids : List Nat}
    (window : Window s.pool ids)
    (exclusive : ∀ t c, s.senders t = some c → ∀ id ∈ ids, id ∉ c.unfilled) :
    ∀ id ∈ ids, cells id = none := by
  intro id hid
  rw [line.data_eq id]
  · exact window.free id hid
  · intro t c hc hstarted hmem
    obtain ⟨j, hj, rfl⟩ := List.getElem_of_mem hmem
    by_cases hcount : j < c.count
    · have hheld := line.held t c hc hstarted j hcount
      rw [← SendCall.async_eq hj, window.free _ hid] at hheld
      cases hheld
    · refine exclusive t c hc _ hid ?_
      rw [SendCall.unfilled, List.mem_drop_iff_getElem]
      exact ⟨j - c.count, by omega, by congr 1; omega⟩

/-- A call in one part that is between storing it and setting the flag has no other context anywhere. -/
theorem single_of_call_eq (wf : WellFormed s) (line : Line peer messages s cells) {t : Nat}
    {c : SendCall} (sending : s.senders t = some c) (single : c.asyncResult.length = 1) {id : Nat}
    {ctx : SendDataContext} (cell : cells id = some ctx) (call_eq : ctx.call = c.call) :
    ctx.part = 0 := by
  have hvalid := wf.valid t c sending
  have hstored : ctx ∈ s.stored := by
    refine (wf.slot id ctx ?_).2
    rw [← line.data_eq id]
    · exact cell
    · intro t' c' hc' hstarted hmem
      obtain ⟨j, hj, rfl⟩ := List.getElem_of_mem hmem
      rw [SendCall.async_eq hj, line.started t' c' hc' hstarted j hj, Option.some.injEq] at cell
      have ht : t' = t := wf.apart t' t c' c hc' sending (by rw [← call_eq, ← cell]; rfl)
      rw [ht, sending, Option.some.injEq] at hc'
      have := hstarted.1
      rw [← hc', single] at this
      exact Nat.lt_irrefl 1 this
  have hlt := hvalid.part_lt ctx hstored call_eq
  have hinside := hvalid.inside
  unfold SendCall.count at hlt
  split at hlt <;> omega

/-- The cells of the next handle, unless it belongs to a call that has started. -/
theorem cell_cursor (line : Line peer messages s cells)
    (outside : ∀ t c, s.senders t = some c → 1 < c.asyncResult.length → 0 < c.count →
      s.cursor ∉ c.asyncResult) : cells s.cursor = (s.pool.asyncs s.cursor).data :=
  line.data_eq _ fun t c hc hstarted => outside t c hc hstarted.1 hstarted.2

/-- The loop thread passes a handle that is empty or not yet pending. -/
theorem skipped (line : Line peer messages s cells) (wf : WellFormed s)
    (inside : s.cursor < s.pool.size)
    (nothing : (s.pool.asyncs s.cursor).pending = true → (s.pool.asyncs s.cursor).data = none)
    (outside : ∀ t c, s.senders t = some c → 1 < c.asyncResult.length → 0 < c.count →
      s.cursor ∉ c.asyncResult) :
    Line peer messages ({ s with cursor := s.next s.cursor }.setAsync s.cursor
      ⟨(s.pool.asyncs s.cursor).data, false⟩) cells := by
  have hdata : ∀ id, ((({ s with cursor := s.next s.cursor } : SendSystem).setAsync s.cursor
      ⟨(s.pool.asyncs s.cursor).data, false⟩).pool.asyncs id).data = (s.pool.asyncs id).data :=
    SendSystem.setAsync_data _ rfl
  refine ⟨fun id h => by rw [hdata]; exact line.data_eq id h, line.started,
    fun t c hc hs j hj => by rw [hdata]; exact line.held t c hc hs j hj, line.fresh, line.message,
    fun h => ?_, ?_⟩
  · show s.next s.cursor < s.pool.size
    unfold SendSystem.next
    split <;> omega
  · obtain ⟨whole, front, cur, hreached, hwhole, hlane, hmessage⟩ := line.lane
    obtain ⟨rest, horder, hrest, hnext⟩ := scanOrder_next inside
    rw [horder, List.map_cons, line.cell_cursor outside] at hlane
    refine ⟨whole, front, cur, hreached, hwhole, ?_, hmessage⟩
    rw [show (({ s with cursor := s.next s.cursor } : SendSystem).setAsync s.cursor
      ⟨(s.pool.asyncs s.cursor).data, false⟩).scanOrder = rest ++ [s.cursor] from hnext,
      List.map_append, List.map_singleton, line.cell_cursor outside]
    cases hcell : (s.pool.asyncs s.cursor).data with
    | none =>
        rw [hcell] at hlane
        cases cur with
        | nil => exact hlane.skip
        | cons a cur => cases hlane.head_eq
    | some ctx =>
        rw [hcell] at hlane
        -- the context belongs to a call in one part that has not set the flag yet
        obtain ⟨t, c, hsending, hfilled, hasync, hcontext⟩ :
            ∃ t c, s.senders t = some c ∧ c.filled = true ∧ c.async c.i = s.cursor ∧
              c.context c.i = ctx := by
          rcases wf.pending s.cursor ctx hcell with hpending | hcall
          · rw [nothing hpending] at hcell
            cases hcell
          · exact hcall
        have hinside := (wf.valid t c hsending).inside
        have hsingle : c.asyncResult.length = 1 := by
          by_contra hne
          refine outside t c hsending (by omega) ?_ (hasync ▸ SendCall.async_mem hinside)
          rw [SendCall.count_of_filled hfilled]
          exact Nat.succ_pos _
        have hpart : ctx.part = 0 := by
          rw [← hcontext]
          show c.i = 0
          omega
        cases cur with
        | nil =>
            refine hlane.keep fun m hm ⟨tail, htail⟩ => ?_
            cases m with
            | nil => rfl
            | cons b m =>
                -- a second part of the message would be another context of the same call
                exfalso
                have hmem : some b ∈ rest.map cells := by
                  rw [htail]
                  simp
                obtain ⟨id, -, hid⟩ := List.mem_map.mp hmem
                obtain ⟨k, hk⟩ := hm.call_eq
                have hcall : b.call = c.call := by
                  rw [hk b (by simp), ← hk ctx (by simp), ← hcontext]
                  rfl
                have hzero := line.single_of_call_eq wf hsending hsingle hid hcall
                have hone : b.part = 1 := IsMessage.part_of_append
                  (show IsMessage peer messages ([ctx] ++ b :: m) from hm)
                rw [hone] at hzero
                cases hzero
        | cons a cur =>
            exfalso
            have ha := hlane.head_eq
            rw [Option.some.injEq] at ha
            rcases hmessage with ⟨-, hcur⟩ | ⟨hne, hm⟩
            · cases hcur
            · have hfront := hm.part_of_append
              rw [← ha, hpart] at hfront
              exact hne (List.length_eq_zero_iff.mp hfront.symm)

/-- The loop thread takes the context of the next handle to `send_data_impl`. -/
theorem sent (line : Line peer messages s cells) (wf : WellFormed s) (inside : s.cursor < s.pool.size)
    {ctx : SendDataContext} (data : (s.pool.asyncs s.cursor).data = some ctx)
    (outside : ∀ t c, s.senders t = some c → 1 < c.asyncResult.length → 0 < c.count →
      s.cursor ∉ c.asyncResult)
    (size_eq : s'.pool.size = s.pool.size) (cursor_eq : s'.cursor = s.next s.cursor)
    (senders_eq : s'.senders = s.senders) (reached_eq : s'.reached = s.reached ++ [ctx])
    (here : (s'.pool.asyncs s.cursor).data = none)
    (elsewhere : ∀ id, id ≠ s.cursor → s'.pool.asyncs id = s.pool.asyncs id) :
    Line peer messages s' (Function.update cells s.cursor none) := by
  have hne : ∀ t c, s.senders t = some c → c.Started → ∀ j < c.asyncResult.length,
      c.async j ≠ s.cursor := fun t c hc hs j hj heq =>
    outside t c hc hs.1 hs.2 (heq ▸ SendCall.async_mem hj)
  refine ⟨fun id h => ?_, fun t c hc hs j hj => ?_, fun t c hc hs j hj => ?_,
    fun t c hc hs id hid => ?_, fun t c hc => ?_, fun h => ?_, ?_⟩
  · rw [senders_eq] at h
    by_cases heq : id = s.cursor
    · rw [heq, here, Function.update_self]
    · rw [Function.update_of_ne heq, elsewhere id heq]
      exact line.data_eq id h
  · rw [senders_eq] at hc
    rw [Function.update_of_ne (hne t c hc hs j hj)]
    exact line.started t c hc hs j hj
  · rw [senders_eq] at hc
    have hlt := hj.trans_le (wf.valid t c hc).count_le
    rw [elsewhere _ (hne t c hc hs j hlt)]
    exact line.held t c hc hs j hj
  · rw [senders_eq] at hc
    rw [Function.update_apply]
    split
    · rfl
    · exact line.fresh t c hc hs id hid
  · rw [senders_eq] at hc
    exact line.message t c hc
  · rw [cursor_eq, size_eq, SendSystem.next]
    split <;> omega
  · obtain ⟨whole, front, cur, hreached, hwhole, hlane, hmessage⟩ := line.lane
    obtain ⟨rest, horder, hrest, hnext⟩ := scanOrder_next inside
    rw [horder, List.map_cons, line.cell_cursor outside, data] at hlane
    have hcells : (rest ++ [s.cursor]).map (Function.update cells s.cursor none) =
        rest.map cells ++ [none] := by
      rw [List.map_append, List.map_singleton, Function.update_self]
      congr 1
      refine List.map_congr_left fun id hid => Function.update_of_ne ?_ _ _
      rintro rfl
      exact hrest hid
    rw [SendSystem.scanOrder, size_eq, cursor_eq, hnext, hcells, reached_eq, hreached]
    cases cur with
    | nil =>
        -- a new message begins; the one before it is complete
        have hdone : ∃ whole' : List (List SendDataContext), whole.flatten ++ front = whole'.flatten ∧
            ∀ m ∈ whole', IsMessage peer messages m := by
          rcases hmessage with ⟨rfl, -⟩ | ⟨-, hm⟩
          · exact ⟨whole, List.append_nil _, hwhole⟩
          · rw [List.append_nil] at hm
            refine ⟨whole ++ [front], by simp, fun m hmem => ?_⟩
            rcases List.mem_append.mp hmem with hold | hnew
            · exact hwhole m hold
            · rwa [List.mem_singleton.mp hnew]
        obtain ⟨whole', hflatten, hwhole'⟩ := hdone
        obtain ⟨m, hm, -, hlane'⟩ := hlane.enter
        exact ⟨whole', [ctx], m, by rw [hflatten], hwhole', hlane',
          Or.inr ⟨List.cons_ne_nil _ _, hm⟩⟩
    | cons a cur =>
        have ha := hlane.head_eq
        rw [Option.some.injEq] at ha
        subst ha
        rcases hmessage with ⟨-, hcur⟩ | ⟨-, hm⟩
        · cases hcur
        · refine ⟨whole, front ++ [ctx], cur, by rw [List.append_assoc], hwhole, hlane.read,
            Or.inr ⟨by simp, ?_⟩⟩
          rw [List.append_assoc]
          exact hm

/-- The handles of a call as an interval: which they are, and which one each part has. -/
structure Window (c : SendCall) (a : Nat) : Prop where
  ids : c.asyncResult = List.range' a c.asyncResult.length

namespace Window

variable {c : SendCall} {a : Nat}

theorem async_eq (window : Window c a) {j : Nat} (hj : j < c.asyncResult.length) :
    c.async j = a + j := by
  rw [← SendCall.async_eq hj]
  have hget := congrArg (fun l => l[j]?) window.ids
  simpa [hj] using hget

theorem mem_iff (window : Window c a) (id : Nat) :
    id ∈ c.asyncResult ↔ a ≤ id ∧ id < a + c.asyncResult.length := by
  conv_lhs => rw [window.ids]
  rw [List.mem_range'_1]

end Window

/-- The handles of a call carry its contexts, the others what they did. -/
def overlay (c : SendCall) (a : Nat) (cells : Nat → Option SendDataContext) (id : Nat) :
    Option SendDataContext :=
  if id ∈ c.asyncResult then some (c.context (id - a)) else cells id

/-- Contexts that come into empty handles next to each other are a message more in the lane. -/
theorem lane_overlay {c : SendCall} {a : Nat} (window : Window c a) (inside : s.cursor < s.pool.size)
    (hle : a + c.asyncResult.length ≤ s.pool.size) (positive : 0 < c.asyncResult.length)
    (outside : s.cursor ∉ c.asyncResult.tail) (free : ∀ id ∈ c.asyncResult, cells id = none)
    {group : List SendDataContext → Prop} (isGroup : group c.contexts) {cur : List SendDataContext}
    (lane : Lane group cur (s.scanOrder.map cells)) :
    Lane group cur (s.scanOrder.map (overlay c a cells)) := by
  have houtside : s.cursor ≤ a ∨ a + c.asyncResult.length ≤ s.cursor := by
    rw [window.ids, show c.asyncResult.length = c.asyncResult.length - 1 + 1 by omega,
      List.range'_succ, List.tail_cons, List.mem_range'_1] at outside
    omega
  obtain ⟨before, behind, horder⟩ := scanOrder_window inside hle houtside
  have hnodup : s.scanOrder.Nodup := List.nodup_rotate.mpr List.nodup_range
  rw [horder, ← window.ids, List.append_assoc] at hnodup
  obtain ⟨-, hback, hdisjoint⟩ := List.nodup_append.mp hnodup
  obtain ⟨-, -, hdisjoint'⟩ := List.nodup_append.mp hback
  have hbefore : before.map (overlay c a cells) = before.map cells :=
    List.map_congr_left fun id hid =>
      if_neg fun hin => hdisjoint id hid id (List.mem_append_left _ hin) rfl
  have hbehind : behind.map (overlay c a cells) = behind.map cells :=
    List.map_congr_left fun id hid => if_neg fun hin => hdisjoint' id hin id hid rfl
  have hwindow : (List.range' a c.asyncResult.length).map (overlay c a cells) =
      c.contexts.map some := by
    rw [List.range'_eq_map_range, List.map_map, SendCall.contexts, List.map_map]
    refine List.map_congr_left fun j hj => ?_
    have hin : a + j ∈ c.asyncResult := (window.mem_iff _).mpr
      ⟨Nat.le_add_right _ _, Nat.add_lt_add_left (List.mem_range.mp hj) a⟩
    simp [overlay, hin]
  rw [horder, List.map_append, List.map_append] at lane ⊢
  rw [hbefore, hbehind, hwindow]
  apply lane.insert ?_ ?_ isGroup ?_
  · intro x hx
    obtain ⟨id, hid, rfl⟩ := List.mem_map.mp hx
    exact free id (by rw [window.ids]; exact hid)
  · simp only [ne_eq, List.map_eq_nil_iff, List.range'_eq_nil_iff]
    omega
  · unfold SendCall.contexts
    simp only [ne_eq, List.map_eq_nil_iff, List.range_eq_nil]
    omega

/-- A call stores its first part: from now on all its handles count as filled. -/
theorem filled_first (line : Line peer messages s cells) (wf : WellFormed s) (apart : Apart s)
    {t : Nat} {c : SendCall} (sending : s.senders t = some c) (unfilled : c.filled = false)
    (first : c.i = 0) (outside : s.cursor ∉ c.asyncResult.tail) :
    ∃ cells', Line peer messages
      (({ s with stored := s.stored ++ [c.context c.i] }.setAsync (c.async c.i)
        { s.pool.asyncs (c.async c.i) with data := some (c.context c.i) }).setSender t
          (some { c with filled := true })) cells' := by
  have hvalid := wf.valid t c sending
  have hinside := hvalid.inside
  have hcount : c.count = 0 := by rw [SendCall.count_of_unfilled unfilled, first]
  have hunfilled : c.unfilled = c.asyncResult := by rw [SendCall.unfilled, hcount, List.drop_zero]
  have hnot : ¬ c.Started := fun h => absurd h.2 (by rw [hcount]; exact Nat.lt_irrefl 0)
  have hfree : ∀ id ∈ c.asyncResult, cells id = none := fun id hid =>
    line.fresh t c sending hnot id (hunfilled ▸ hid)
  obtain ⟨a, hids, hle⟩ := hvalid.consecutive
  have window : Window c a := ⟨hids⟩
  -- other calls have none of these handles
  have hother : ∀ t' d, t' ≠ t → s.senders t' = some d → d.Started →
      ∀ j < d.asyncResult.length, d.async j ∉ c.asyncResult := by
    intro t' d _ hd hs j hj hin
    have hsome := line.started t' d hd hs j hj
    rw [hfree _ hin] at hsome
    cases hsome
  have hdata : ∀ id, id ∉ c.asyncResult →
      ((({ s with stored := s.stored ++ [c.context c.i] }.setAsync (c.async c.i)
        { s.pool.asyncs (c.async c.i) with data := some (c.context c.i) }).setSender t
          (some { c with filled := true })).pool.asyncs id).data = (s.pool.asyncs id).data := by
    intro id hid
    rw [SendSystem.setSender_pool, SendSystem.setAsync_asyncs, if_neg]
    rintro rfl
    exact hid (SendCall.async_mem hinside)
  refine ⟨overlay c a cells, ?_⟩
  refine ⟨fun id h => ?_, fun t' d hd hs j hj => ?_, fun t' d hd hs j hj => ?_,
    fun t' d hd hs id hid => ?_, fun t' d hd => ?_, line.cursor_lt, ?_⟩
  · by_cases hid : id ∈ c.asyncResult
    · -- the handle of a call in one part
      have hsingle : c.asyncResult.length = 1 := by
        by_contra hne
        refine h t { c with filled := true } (by rw [SendSystem.setSender_senders, if_pos rfl])
          ⟨?_, ?_⟩ hid
        · show 1 < c.asyncResult.length
          omega
        · rw [SendCall.count_of_filled rfl]
          exact Nat.succ_pos _
      have hid' := (window.mem_iff id).mp hid
      rw [SendSystem.setSender_pool, SendSystem.setAsync_asyncs, overlay, if_pos hid, first,
        window.async_eq (by omega), if_pos (by omega), show id - a = 0 by omega]
    · rw [hdata id hid, overlay, if_neg hid]
      refine line.data_eq id fun t' d hd hs hin => ?_
      by_cases ht : t' = t
      · rw [ht, sending, Option.some.injEq] at hd
        exact hid (hd ▸ hin)
      · exact h t' d (by rw [SendSystem.setSender_senders, if_neg ht]; exact hd) hs hin
  · rw [SendSystem.setSender_senders] at hd
    split at hd
    · cases hd
      replace hj : j < c.asyncResult.length := hj
      show overlay c a cells (c.async j) = some (c.context j)
      rw [overlay, if_pos (SendCall.async_mem hj), window.async_eq hj, Nat.add_sub_cancel_left]
    · rename_i ht
      rw [overlay, if_neg (hother t' d ht hd hs j hj)]
      exact line.started t' d hd hs j hj
  · rw [SendSystem.setSender_senders] at hd
    split at hd
    · cases hd
      rw [SendCall.count_of_filled rfl] at hj
      replace hj : j < c.i + 1 := hj
      obtain rfl : j = c.i := by omega
      rw [SendSystem.setSender_pool, SendSystem.setAsync_asyncs]
      exact congrArg UvAsync.data (if_pos rfl)
    · rename_i ht
      have hlt := hj.trans_le (wf.valid t' d hd).count_le
      rw [hdata _ (hother t' d ht hd hs j hlt)]
      exact line.held t' d hd hs j hj
  · rw [SendSystem.setSender_senders] at hd
    split at hd
    · cases hd
      -- a call in one part that has stored it has no handle left
      exfalso
      have hdrop : id ∈ c.asyncResult.drop (c.i + 1) := hid
      have hlen : ¬ 1 < c.asyncResult.length := fun hlen => hs ⟨hlen, by
        rw [SendCall.count_of_filled rfl]
        exact Nat.succ_pos _⟩
      rw [List.drop_eq_nil_of_le (by omega)] at hdrop
      cases hdrop
    · rename_i ht
      rw [overlay, if_neg]
      · exact line.fresh t' d hd hs id hid
      · exact fun hin => apart.disjoint t' t d c hd sending ht id hid (hunfilled ▸ hin)
  · rw [SendSystem.setSender_senders] at hd
    split at hd
    · cases hd
      exact line.message t c sending
    · exact line.message t' d hd
  · obtain ⟨whole, front, cur, hreached, hwhole, hlane, hmessage⟩ := line.lane
    refine ⟨whole, front, cur, hreached, hwhole, ?_, hmessage⟩
    exact lane_overlay window (line.cursor_lt (by omega)) hle (by omega) outside hfree
      (line.message t c sending).1 hlane

/-- A call stores a later part. -/
theorem filled_more (line : Line peer messages s cells) (wf : WellFormed s)
    {t : Nat} {c : SendCall} (sending : s.senders t = some c) (unfilled : c.filled = false)
    (later : 0 < c.i) :
    Line peer messages
      (({ s with stored := s.stored ++ [c.context c.i] }.setAsync (c.async c.i)
        { s.pool.asyncs (c.async c.i) with data := some (c.context c.i) }).setSender t
          (some { c with filled := true })) cells := by
  have hvalid := wf.valid t c sending
  have hinside := hvalid.inside
  have hstarted : c.Started := ⟨by omega, by rw [SendCall.count_of_unfilled unfilled]; exact later⟩
  have hstarted' : ({ c with filled := true } : SendCall).Started :=
    ⟨hstarted.1, by rw [SendCall.count_of_filled rfl]; exact Nat.succ_pos _⟩
  have hcell := line.started t c sending hstarted c.i hinside
  have hdata : ∀ id, id ≠ c.async c.i →
      ((({ s with stored := s.stored ++ [c.context c.i] }.setAsync (c.async c.i)
        { s.pool.asyncs (c.async c.i) with data := some (c.context c.i) }).setSender t
          (some { c with filled := true })).pool.asyncs id).data = (s.pool.asyncs id).data := by
    intro id hid
    rw [SendSystem.setSender_pool, SendSystem.setAsync_asyncs, if_neg hid]
  refine ⟨fun id h => ?_, fun t' d hd hs j hj => ?_, fun t' d hd hs j hj => ?_,
    fun t' d hd hs id hid => ?_, fun t' d hd => ?_, line.cursor_lt, line.lane⟩
  · have hid := h t { c with filled := true } (by rw [SendSystem.setSender_senders, if_pos rfl])
      hstarted'
    rw [hdata id fun heq => hid (heq ▸ SendCall.async_mem hinside)]
    refine line.data_eq id fun t' d hd hs => ?_
    by_cases ht : t' = t
    · rw [ht, sending, Option.some.injEq] at hd
      rw [← hd]
      exact hid
    · exact h t' d (by rw [SendSystem.setSender_senders, if_neg ht]; exact hd) hs
  · rw [SendSystem.setSender_senders] at hd
    split at hd
    · cases hd
      exact line.started t c sending hstarted j hj
    · exact line.started t' d hd hs j hj
  · rw [SendSystem.setSender_senders] at hd
    split at hd
    · cases hd
      rw [SendCall.count_of_filled rfl] at hj
      replace hj : j < c.i + 1 := hj
      show _ = some (c.context j)
      by_cases heq : j = c.i
      · subst heq
        rw [SendSystem.setSender_pool, SendSystem.setAsync_asyncs]
        exact congrArg UvAsync.data (if_pos rfl)
      · have hlt : j < c.asyncResult.length := by omega
        rw [hdata]
        · exact line.held t c sending hstarted j (by
            rw [SendCall.count_of_unfilled unfilled]
            omega)
        · show c.async j ≠ c.async c.i
          rw [← SendCall.async_eq hlt, ← SendCall.async_eq hinside]
          exact fun h => heq (hvalid.nodup.getElem_inj_iff.mp h)
    · rename_i ht
      have hlt := hj.trans_le (wf.valid t' d hd).count_le
      rw [hdata]
      · exact line.held t' d hd hs j hj
      · -- the two handles carry contexts of different calls
        intro heq
        have hcell' := line.started t' d hd hs j hlt
        rw [heq, hcell, Option.some.injEq] at hcell'
        exact ht (wf.apart t' t d c hd sending (congrArg SendDataContext.call hcell').symm)
  · rw [SendSystem.setSender_senders] at hd
    split at hd
    · cases hd
      exact absurd hstarted' hs
    · exact line.fresh t' d hd hs id hid
  · rw [SendSystem.setSender_senders] at hd
    split at hd
    · cases hd
      exact line.message t c sending
    · exact line.message t' d hd

/-- A call that has just acquired its handles. -/
theorem newCall (line : Line peer messages s cells) {req : Request} {ids : List Nat}
    (toPeer : ∃ buffer op split, sendWebsocketMsg peer buffer op split = .ok req ∧
      ∀ f ∈ split, LawfulSplit f)
    (found : (req.acquire s.pool).1 = some (ids, req.parts))
    (length_eq : req.parts.length = ids.length) (window : AnotherWs.Window s.pool ids)
    (exclusive : ∀ t c, s.senders t = some c → ∀ id ∈ ids, id ∉ c.unfilled)
    (mem : req.data ∈ messages) :
    NewCall peer messages cells ⟨s.calls, req.peer, ids, req.parts, 0, false⟩ := by
  obtain ⟨buffer, op, split, hmsg, hlawful⟩ := toPeer
  obtain ⟨hreqPeer, hsplit, hsmall⟩ := sendWebsocketMsg_spec hmsg
  have hseveral : req.data ≠ [] ∨ split = none := by
    cases split with
    | none => exact Or.inr rfl
    | some f =>
        refine Or.inl fun hnil => ?_
        simp [Request.acquire, hsplit, hnil] at found
  obtain ⟨hflatten, hparts⟩ := Request.parts_spec hmsg hlawful hseveral
  refine ⟨rfl, line.cells_of_acquired window exclusive, ?_, ?_⟩
  · have hmessage := SendCall.contexts_isMessage
      (c := ⟨s.calls, req.peer, ids, req.parts, 0, false⟩) length_eq hflatten hsmall mem
    rw [hreqPeer] at hmessage
    rw [hreqPeer]
    exact hmessage
  · intro hlen j hj
    replace hj : j < ids.length := hj
    refine hparts (by rw [length_eq]; exact hlen) _ ?_
    rw [SendCall.part, List.getD_eq_getElem _ _ (by rw [length_eq]; exact hj)]
    exact List.getElem_mem _

/-- Whoever is sending is sending to the peer. -/
theorem peer_eq (line : Line peer messages s cells) (wf : WellFormed s) {t : Nat} {c : SendCall}
    (sending : s.senders t = some c) : c.peer = peer := by
  have hinside := (wf.valid t c sending).inside
  have hzero : c.context 0 ∈ c.contexts :=
    List.mem_map.mpr ⟨0, List.mem_range.mpr (by omega), rfl⟩
  exact (line.message t c sending).1.peer_eq _ hzero

/-- **One step** of a connected peer's messages. -/
theorem step {a : Action} (line : Line peer messages s cells) (wf : WellFormed s) (apart : Apart s)
    (connected : s.connected peer = true)
    (toPeer : MessagesTo peer s a) (uncut : Uncut s a)
    (mem : ∀ t req, a = .call t req → req.data ∈ messages) (h : s.step a = some s') :
    ∃ cells', Line peer messages s' cells' := by
  cases SendSystem.step_cases wf.rotated h with
  | called pool' idle spec =>
      exact ⟨cells, line.keep spec.size_eq (fun id => by rw [spec.asyncs_eq]) rfl rfl
        (fun t c h => Or.inl ⟨c, h, .refl c⟩) fun t c h _ => Or.inl ⟨c, h, .refl c⟩⟩
  | @acquired t req pool' ids idle hconnected found nonempty length_eq spec =>
      have hnew := line.newCall toPeer found length_eq (spec.window ids rfl)
        (uncut hconnected _ _ found) (mem t req rfl)
      refine ⟨cells, line.keep spec.size_eq (fun id => ?_) rfl rfl (fun t' c' h' => ?_)
        fun t' c' h' _ => ?_⟩
      · show (pool'.asyncs id).data = _
        rw [spec.asyncs_eq]
      · rw [SendSystem.setSender_senders] at h'
        split at h'
        · cases h'
          exact Or.inr hnew
        · exact Or.inl ⟨c', h', .refl c'⟩
      · refine Or.inl ⟨c', ?_, .refl c'⟩
        rw [SendSystem.setSender_senders, if_neg]
        · exact h'
        · rintro rfl
          rw [idle] at h'
          cases h'
  | @filled t c sending unfilled nonempty =>
      by_cases hfirst : c.i = 0
      · exact line.filled_first wf apart sending unfilled hfirst (uncut c sending)
      · exact ⟨cells, line.filled_more wf sending unfilled (Nat.pos_of_ne_zero hfirst)⟩
  | @emptyPart t c sending unfilled isEmpty =>
      refine ⟨cells, line.leave sending (fun hs => ?_) (fun t' ht => ?_) ?_ rfl (fun _ => rfl) rfl rfl⟩
      · exact absurd isEmpty ((line.message t c sending).2 hs.1 c.i (wf.valid t c sending).inside)
      · rw [SendSystem.setSender_senders, if_neg ht]
      · rw [SendSystem.setSender_senders, if_pos rfl]
  | @notified t c sending filled more =>
      have hsame : SameCall c { c with i := c.i + 1, filled := false } :=
        ⟨rfl, by rw [SendCall.count_of_filled filled]; rfl, fun _ => rfl, fun _ => rfl⟩
      refine ⟨cells, line.goOn sending hsame (fun t' ht => ?_) ?_ rfl (s.setAsync_data rfl) rfl rfl⟩
      · rw [SendSystem.setSender_senders, if_neg ht]
        rfl
      · rw [SendSystem.setSender_senders, if_pos rfl]
  | @returned t c sending filled last =>
      refine ⟨cells, line.leave sending (fun _ => ?_) (fun t' ht => ?_) ?_ rfl (s.setAsync_data rfl) rfl
        rfl⟩
      · rw [SendCall.count_of_filled filled]
        have := (wf.valid t c sending).inside
        omega
      · rw [SendSystem.setSender_senders, if_neg ht]
        rfl
      · rw [SendSystem.setSender_senders, if_pos rfl]
  | @refused t c sending unfilled closed =>
      rw [line.peer_eq wf sending, connected] at closed
      cases closed
  | @skipped id inside nothing =>
      obtain rfl : id = s.cursor := toPeer
      exact ⟨cells, line.skipped wf inside nothing uncut⟩
  | @sent id ctx inside pending data =>
      obtain rfl : id = s.cursor := toPeer
      refine ⟨_, line.sent wf inside data uncut (by simp) (by simp) (by simp) (by simp) ?_ ?_⟩
      · rw [SendSystem.setAsync_asyncs, if_pos rfl]
      · intro id hid
        rw [SendSystem.setAsync_asyncs, if_neg hid, SendSystem.sendDataImpl_pool]
  | closed =>
      exact ⟨cells, line.keep rfl (fun _ => rfl) rfl rfl (fun t c h => Or.inl ⟨c, h, .refl c⟩)
        fun t c h _ => Or.inl ⟨c, h, .refl c⟩⟩

end Line

/-! ### Runs -/

theorem bytesTo_flatten (peer : Nat) (whole : List (List SendDataContext)) :
    bytesTo peer whole.flatten = (whole.map (bytesTo peer)).flatten := by
  induction whole with
  | nil => rfl
  | cons m rest ih => rw [List.flatten_cons, bytesTo_append, ih, List.map_cons, List.flatten_cons]

/-- What a connected peer has got is whole messages and the front of one. -/
theorem Line.untorn {peer : Nat} {messages : List Bytes} {s : SendSystem}
    {cells : Nat → Option SendDataContext} (line : Line peer messages s cells)
    (written : Written s) (connected : s.connected peer = true) :
    Untorn messages (s.wire peer) := by
  obtain ⟨whole, front, cur, hreached, hwhole, -, hmessage⟩ := line.lane
  refine ⟨whole.map (bytesTo peer), bytesTo peer front, bytesTo peer cur, ?_, ?_, ?_⟩
  · rw [written.wire_eq peer connected, hreached, bytesTo_append, bytesTo_flatten]
  · intro e he
    obtain ⟨m, hm, rfl⟩ := List.mem_map.mp he
    exact (hwhole m hm).bytes_mem
  · rcases hmessage with ⟨rfl, -⟩ | ⟨-, hm⟩
    · exact Or.inl rfl
    · rw [← bytesTo_append]
      exact Or.inr hm.bytes_mem

/-- Nothing is written to a peer that is not connected, and no peer connects again. -/
theorem step_disconnected (peer : Nat) {s s' : SendSystem} {a : Action} (rotated : s.pool.Rotated)
    (h : s.step a = some s') :
    (s'.connected peer = true → s.connected peer = true) ∧
      (s'.connected peer = false → s'.wire peer = s.wire peer) := by
  cases SendSystem.step_cases rotated h with
  | called | acquired | filled | emptyPart | notified | returned | refused | skipped =>
      exact ⟨fun h => h, fun _ => rfl⟩
  | @sent id ctx inside pending data =>
      refine ⟨fun h => by simpa using h, fun hclosed => ?_⟩
      replace hclosed : s.connected peer = false := by simpa using hclosed
      rw [SendSystem.setAsync_wire, SendSystem.sendDataImpl_wire, if_neg]
      rintro ⟨hconnected, rfl⟩
      rw [show s.connected ctx.peer = true from hconnected] at hclosed
      cases hclosed
  | @closed other =>
      refine ⟨fun hconnected => ?_, fun _ => rfl⟩
      replace hconnected : Function.update s.connected other false peer = true := hconnected
      rw [Function.update_apply] at hconnected
      split at hconnected
      · cases hconnected
      · exact hconnected

/-- **The stream to a peer is never torn** in a run whose calls keep apart and whose loop thread
does not run through the handles of a call that has stored some of its parts. -/
theorem untorn_of_uncut {peer size : Nat} {connected : Nat → Bool} {actions : List Action}
    {s : SendSystem} (run : sendMachine.exec (.init size connected) actions = some s)
    (toPeer : sendMachine.Guarded (MessagesTo peer) (.init size connected) actions)
    (uncut : sendMachine.Guarded Uncut (.init size connected) actions) :
    Untorn (encodings actions) (s.wire peer) := by
  have hmem : sendMachine.Guarded (fun _ a => a ∈ actions) (.init size connected) actions :=
    .of_forall (fun a ha _ => ha) _
  have hinit : Line peer (encodings actions) (.init size connected) fun _ => none :=
    line_init peer (encodings actions) size connected
  obtain ⟨-, -, -, huntorn, -⟩ :=
    Machines.Machine.exec_invariant
      (fun s => WellFormed s ∧ Apart s ∧ Written s ∧ Untorn (encodings actions) (s.wire peer) ∧
        (s.connected peer = true → ∃ cells, Line peer (encodings actions) s cells))
      (fun s a s' hinv hguard hstep => by
        obtain ⟨wf, apart, written, huntorn, hline⟩ := hinv
        obtain ⟨htoPeer, huncut, hin⟩ := hguard
        have hexclusive : Exclusive s a := by
          cases a with
          | call t req => exact huncut
          | fill | notify | refuse | visit | close => trivial
        have hmessages : ∀ t req, a = .call t req → req.data ∈ encodings actions := by
          rintro t req rfl
          exact List.mem_filterMap.mpr ⟨_, hin, rfl⟩
        have written' := written_step wf.rotated written hstep
        obtain ⟨hback, hfrozen⟩ := step_disconnected peer wf.rotated hstep
        have hline' : s'.connected peer = true →
            ∃ cells, Line peer (encodings actions) s' cells := by
          intro hconnected
          obtain ⟨cells, line⟩ := hline (hback hconnected)
          exact line.step wf apart (hback hconnected) htoPeer huncut hmessages hstep
        refine ⟨wellFormed_step wf hstep, apart_step wf apart hexclusive hstep, written', ?_, hline'⟩
        cases hconnected : s'.connected peer with
        | true =>
            obtain ⟨cells, line⟩ := hline' hconnected
            exact line.untorn written' hconnected
        | false =>
            rw [hfrozen hconnected]
            exact huntorn)
      ⟨wellFormed_init size connected, apart_init size connected, written_init size connected,
        ⟨[], [], [], rfl, (fun _ h => by cases h), Or.inl rfl⟩, fun _ => ⟨_, hinit⟩⟩
      (toPeer.and (uncut.and hmem)) run
  exact huntorn

/-- A split function: the first byte, and the rest. -/
def splitFirst (n : Nat) : List Nat := if n ≤ 1 then [n] else [1, n - 1]

theorem splitFirst_lawful : LawfulSplit splitFirst := by
  intro n hn
  unfold splitFirst
  split
  · exact ⟨by simp, by simp; omega⟩
  · refine ⟨by simp; omega, ?_⟩
    intro size hsize
    rcases List.mem_cons.mp hsize with rfl | h
    · exact Nat.one_pos
    · rw [List.mem_singleton.mp h]
      omega

/-- `Uncut` in a run of the first `n` threads. -/
def UncutAmong (n : Nat) (s : SendSystem) : Action → Prop
  | .call thread req => ExclusiveAmong n s (.call thread req)
  | .fill thread => ∀ c ∈ s.senders thread, s.cursor ∉ c.asyncResult.tail
  | .visit id => ∀ t < n, ∀ c ∈ s.senders t,
      ¬ (1 < c.asyncResult.length ∧ 0 < c.count ∧ id ∈ c.asyncResult)
  | _ => True

instance (n : Nat) (s : SendSystem) : ∀ a, Decidable (UncutAmong n s a)
  | .call thread req => inferInstanceAs (Decidable (ExclusiveAmong n s (.call thread req)))
  | .fill thread => inferInstanceAs (Decidable (∀ c ∈ s.senders thread, s.cursor ∉ c.asyncResult.tail))
  | .visit id => inferInstanceAs (Decidable (∀ t < n, ∀ c ∈ s.senders t,
      ¬ (1 < c.asyncResult.length ∧ 0 < c.count ∧ id ∈ c.asyncResult)))
  | .notify _ | .refuse _ | .close _ => inferInstanceAs (Decidable True)

theorem UncutAmong.uncut {n : Nat} {s : SendSystem} {a : Action}
    (idle : ∀ t, n ≤ t → s.senders t = none) (among : UncutAmong n s a) : Uncut s a := by
  cases a with
  | call thread req =>
      have hexclusive : ExclusiveAmong n s (.call thread req) := among
      exact hexclusive.exclusive idle
  | fill thread => exact fun c hc => among c hc
  | visit id =>
      intro t c hc hparts hstarted hmem
      by_cases ht : t < n
      · exact among t ht c hc ⟨hparts, hstarted, hmem⟩
      · rw [idle t (by omega)] at hc
        cases hc
  | notify | refuse | close => trivial

theorem uncut_of_among {n size : Nat} {connected : Nat → Bool} {actions : List Action}
    (among : sendMachine.Guarded (fun s a => ByFirst n a ∧ UncutAmong n s a)
      (.init size connected) actions) :
    sendMachine.Guarded Uncut (.init size connected) actions :=
  among.of_invariant (fun s => WellFormed s ∧ ∀ t, n ≤ t → s.senders t = none)
    (fun _ _ _ h hguard hstep =>
      ⟨wellFormed_step h.1 hstep, senders_of_byFirst h.1 h.2 hguard.1 hstep⟩)
    (fun _ _ h hguard => hguard.2.uncut h.2) ⟨wellFormed_init size connected, fun _ _ => rfl⟩

/-- A message in two parts, stored before the scan comes to its handles. -/
def uncutRun : List Action :=
  [.call 0 ⟨7, [0x81, 0x01, 0x61], some splitFirst⟩, .fill 0, .notify 0, .fill 0, .notify 0, .visit 0]

theorem untorn_of_uncut_two :
    ∃ s, sendMachine.exec (.init 3 fun _ => true) uncutRun = some s ∧ s.wire 7 = [0x81] ∧
      Untorn [[0x81, 0x01, 0x61]] (s.wire 7) := by
  have toPeer : sendMachine.Guarded (MessagesTo 7) (.init 3 fun _ => true) uncutRun := by
    refine ⟨⟨[0x61], 1, some splitFirst, rfl, fun f hf => ?_⟩, fun s₁ h₁ => ?_⟩
    · cases hf
      exact splitFirst_lawful
    refine ⟨trivial, fun s₂ h₂ => ⟨trivial, fun s₃ h₃ => ⟨trivial, fun s₄ h₄ => ⟨trivial,
      fun s₅ h₅ => ⟨?_, fun _ _ => trivial⟩⟩⟩⟩⟩
    cases h₁
    cases h₂
    cases h₃
    cases h₄
    cases h₅
    rfl
  have among : sendMachine.Guarded (fun s a => ByFirst 1 a ∧ UncutAmong 1 s a)
      (.init 3 fun _ => true) uncutRun := by decide
  obtain ⟨s, run, hwire⟩ : ∃ s, sendMachine.exec (.init 3 fun _ => true) uncutRun = some s ∧
      s.wire 7 = [0x81] := ⟨_, rfl, rfl⟩
  exact ⟨s, run, hwire, untorn_of_uncut run toPeer (uncut_of_among among)⟩

/-- A message in two parts and one in a single part; the scan runs between the two parts. -/
def tornRun : List Action :=
  [.call 0 ⟨7, [0x81, 0x01, 0x61], some splitFirst⟩, .call 1 ⟨7, [0x81, 0x01, 0x62], none⟩,
    .fill 0, .notify 0, .fill 1, .notify 1, .visit 0, .visit 1, .visit 2]

/-- Of a message in two parts the first is stored, then the loop thread scans and finds the message
of another thread behind it: the peer gets `81`, and `81 01 62` in the middle of the first message. -/
theorem scan_tears_message :
    sendMachine.Guarded (MessagesTo 7) (.init 3 fun _ => true) tornRun ∧
    ∃ s, sendMachine.exec (.init 3 fun _ => true) tornRun = some s ∧
      ¬ Untorn (encodings tornRun) (s.wire 7) := by
  refine ⟨?_, _, rfl, ?_⟩
  · refine ⟨⟨[0x61], 1, some splitFirst, rfl, fun f hf => ?_⟩, fun s₁ h₁ => ?_⟩
    · cases hf
      exact splitFirst_lawful
    refine ⟨⟨[0x62], 1, none, rfl, (fun f hf => by cases hf)⟩, fun s₂ h₂ => ?_⟩
    refine ⟨trivial, fun s₃ h₃ => ⟨trivial, fun s₄ h₄ => ⟨trivial, fun s₅ h₅ => ⟨trivial,
      fun s₆ h₆ => ?_⟩⟩⟩⟩
    cases h₁
    cases h₂
    cases h₃
    cases h₄
    cases h₅
    cases h₆
    refine ⟨rfl, fun s₇ h₇ => ?_⟩
    cases h₇
    refine ⟨rfl, fun s₈ h₈ => ?_⟩
    cases h₈
    exact ⟨rfl, fun _ _ => trivial⟩
  · rintro ⟨done, part, rest, hwire, hdone, hpart⟩
    replace hwire : [0x81, 0x81, 0x01, 0x62] = done.flatten ++ part := hwire
    have hencodings : encodings tornRun = [[0x81, 0x01, 0x61], [0x81, 0x01, 0x62]] := rfl
    rw [hencodings] at hdone hpart
    cases done with
    | nil =>
        rw [List.flatten_nil, List.nil_append] at hwire
        subst hwire
        simp at hpart
    | cons e done =>
        have he := hdone e List.mem_cons_self
        rw [List.flatten_cons] at hwire
        simp only [List.mem_cons, List.not_mem_nil, or_false] at he
        rcases he with rfl | rfl <;> simp at hwire

end AnotherWs
