/-
Module: AnotherWs.Proofs.Encoder
Purpose: generate_websocket_frame writes the frames of a message: the opcode on the first fragment,
  FIN on the last, 65520 bytes in every fragment before it.
Trusted boundary: none
Main exports: messageFrames, generateWebsocketFrameWithoutFragment_ok, generateWebsocketFrame_ok,
  KeptByAppends, generateWebsocketFrame_content, generateWebsocketFrame_small
-/
import AnotherWs.Spec.Conversation
import AnotherWs.Proofs.Parser
import AnotherWs.Proofs.Reserve

namespace AnotherWs

/-! ### One frame -/

theorem firstByte_eq : ∀ (fin : Bool) (op : Fin 16),
    (((if fin then finEnable else finDisable) <<< 7) ||| (UInt8.ofNat op.val &&& 0x0F)) =
      UInt8.ofNat ((if fin then 128 else 0) + op.val) := by
  decide

theorem secondByte_eq : ∀ (masked : Bool) (n : Fin 128),
    (((if masked then 1 else 0 : UInt8) <<< 7) ||| (UInt8.ofNat n.val &&& 0x7F)) =
      UInt8.ofNat ((if masked then 128 else 0) + n.val) := by
  decide

theorem headerMask_eq (masked : Bool) :
    headerMask (if masked then 1 else 0) =
      WireFrame.keyBytes (if masked then some staticMask else none) := by
  cases masked <;> rfl

/-- The encoder's header is the frame's header. -/
theorem generateHeader_eq {f : WireFrame} (masked : Bool)
    (hkey : f.key = if masked then some staticMask else none) (hlen : f.payload.length < 2 ^ 32) :
    generateHeader f.payload.length (UInt8.ofNat f.op.val) (if f.fin then finEnable else finDisable)
      (if masked then 1 else 0) = some f.header := by
  have hfirst := firstByte_eq f.fin f.op
  have hsome : f.key.isSome = masked := by
    rw [hkey]
    cases masked <;> rfl
  unfold generateHeader
  dsimp only
  rw [hfirst, headerMask_eq, ← hkey, WireFrame.header, WireFrame.firstByte, WireFrame.secondByte,
    hsome]
  by_cases hshort : f.payload.length ≤ 125
  · rw [if_pos hshort, secondByte_eq masked ⟨f.payload.length, by omega⟩, WireFrame.shortLength,
      WireFrame.longLength, if_pos hshort, if_pos hshort, List.append_nil]
  · by_cases hword : f.payload.length ≤ 65535
    · rw [if_neg hshort, if_pos hword, show (0x7E : UInt8) = UInt8.ofNat 126 from rfl,
        secondByte_eq masked ⟨126, by omega⟩, WireFrame.shortLength, WireFrame.longLength,
        if_neg hshort, if_pos hword, if_neg hshort, if_pos hword]
    · have hzero : writeFourByteLength (f.payload.length / 2 ^ 32) = [0, 0, 0, 0] := by
        rw [Nat.div_eq_of_lt hlen]
        rfl
      have hlast : ((if masked then 1 else 0 : UInt8) <<< 7) ||| (0x7F &&& 0x7F) =
          UInt8.ofNat ((if masked then 128 else 0) + 127) := secondByte_eq masked ⟨127, by omega⟩
      rw [if_neg hshort, if_neg hword, if_pos (by omega), hlast, WireFrame.shortLength,
        WireFrame.longLength, if_neg hshort, if_neg hword, if_neg hshort, if_neg hword, hzero]
      simp only [List.append_assoc]

/-- **One frame.** The encoder appends the frame to the buffer, masked or not. -/
theorem generateWebsocketFrameWithoutFragment_ok (buf : Membuf) {f : WireFrame} (masked : Bool)
    (hkey : f.key = if masked then some staticMask else none) {total : Nat} (room : HasRoom total buf)
    (within : buf.size + f.encode.length ≤ total) :
    ∃ buf', generateWebsocketFrameWithoutFragment buf f.payload (UInt8.ofNat f.op.val)
        (if f.fin then finEnable else finDisable) (if masked then 1 else 0) = .ok buf' ∧
      buf'.content = buf.content ++ f.encode ∧ HasRoom total buf' := by
  have hencode := WireFrame.encode_length f
  have hword := room.lt
  unfold generateWebsocketFrameWithoutFragment
  rw [generateHeader_eq masked hkey (by omega)]
  dsimp only
  obtain ⟨buf₁, hhead, hroom₁⟩ := membufAppendData_hasRoom room
    (show buf.size + f.header.length ≤ total by omega)
  have hcontent₁ := (membufAppendData_content hhead).1
  have hsize₁ : buf₁.size = buf.size + f.header.length := by
    rw [← buf₁.length_content, hcontent₁, List.length_append, Membuf.length_content]
  obtain ⟨buf₂, hbody, hroom₂⟩ := membufAppendData_hasRoom hroom₁
    (show buf₁.size + f.payload.length ≤ total by omega)
  have hcontent₂ := (membufAppendData_content hbody).1
  rw [hcontent₁] at hcontent₂
  have hsize₂ : buf₂.size = buf.size + f.header.length + f.payload.length := by
    rw [← buf₂.length_content, hcontent₂, List.length_append, List.length_append,
      Membuf.length_content]
  rw [hhead, ok_bind, hbody, ok_bind]
  cases masked with
  | false =>
      rw [if_neg (by decide)]
      refine ⟨buf₂, rfl, ?_, hroom₂⟩
      rw [hcontent₂, WireFrame.encode, hkey, List.append_assoc]
      rfl
  | true =>
      have hfront : buf₂.size - f.payload.length = (buf.content ++ f.header).length := by
        rw [List.length_append, Membuf.length_content]
        omega
      obtain ⟨buf₃, hmask, hcontent₃, -, hcap₃⟩ :=
        membufMask_ok buf₂ staticMask (n := buf₂.size - f.payload.length) (by omega)
      rw [if_pos (by decide), hmask]
      refine ⟨buf₃, rfl, ?_, hroom₂.congr hcap₃⟩
      rw [hcontent₃, hcontent₂, hfront, List.take_left, List.drop_left, WireFrame.encode, hkey,
        List.append_assoc]
      rfl

/-! ### A message -/

/-- The frames of a message from the given fragment on. -/
def fragmentFrames (op : UInt8) (first : Bool) (data : Bytes) : List WireFrame :=
  let op' : Fin 16 := if first then Fin.ofNat 16 op.toNat else 0
  if dataFrameMaxLen < data.length then
    ⟨false, op', none, data.take dataFrameMaxLen⟩ ::
      fragmentFrames op false (data.drop dataFrameMaxLen)
  else [⟨true, op', none, data⟩]
termination_by data.length
decreasing_by
  rename_i hlong
  rw [List.length_drop]
  have hpos : 0 < dataFrameMaxLen := by decide
  omega

/-- The frames of a message. -/
def messageFrames (op : UInt8) (data : Bytes) : List WireFrame :=
  if data = [] then [] else fragmentFrames op true data

/-- The opcode byte that the encoder is called with. -/
theorem opByte_eq {op : UInt8} (h : op.toNat < 16) : UInt8.ofNat (Fin.ofNat 16 op.toNat).val = op := by
  rw [← UInt8.toNat_inj, UInt8.toNat_ofNat', Fin.val_ofNat, Nat.mod_eq_of_lt h,
    Nat.mod_eq_of_lt op.toNat_lt]

/-- The number of fragments: the quotient rounded up. -/
theorem fragNum_eq {n : Nat} (h : 0 < n) :
    n / dataFrameMaxLen + (if n % dataFrameMaxLen = 0 then 0 else 1) =
      (n - 1) / dataFrameMaxLen + 1 := by
  unfold dataFrameMaxLen
  split <;> omega

/-- A fragment that is not the last. -/
theorem fragmentFrames_more {op : UInt8} {first : Bool} {data : Bytes}
    (h : dataFrameMaxLen < data.length) :
    fragmentFrames op first data =
      ⟨false, if first then Fin.ofNat 16 op.toNat else 0, none, data.take dataFrameMaxLen⟩ ::
        fragmentFrames op false (data.drop dataFrameMaxLen) := by
  rw [fragmentFrames, if_pos h]

/-- The last fragment. -/
theorem fragmentFrames_last {op : UInt8} {first : Bool} {data : Bytes}
    (h : data.length ≤ dataFrameMaxLen) :
    fragmentFrames op first data =
      [⟨true, if first then Fin.ofNat 16 op.toNat else 0, none, data⟩] := by
  rw [fragmentFrames, if_neg (Nat.not_lt.mpr h)]

/-- The opcode byte of a fragment. -/
theorem fragmentOp_eq {op : UInt8} (hop : op.toNat < 16) (first : Bool) :
    UInt8.ofNat (if first then Fin.ofNat 16 op.toNat else 0 : Fin 16).val =
      if first then op else wsContinueFrame := by
  cases first with
  | true => exact opByte_eq hop
  | false => rfl

/-- The frame that the loop wraps a part into. -/
def partFrame (op : UInt8) (first last : Bool) (part : Bytes) : WireFrame :=
  ⟨last, if first then Fin.ofNat 16 op.toNat else 0, none, part⟩

/-- The four ways of wrapping a part differ in the opcode of the first and the FIN of the last. -/
theorem wrapFragment_eq {op : UInt8} (hop : op.toNat < 16) (buf : Membuf) (part : Bytes)
    {fragNum counter : Nat} (inside : counter < fragNum) (last : Bool)
    (hlast : last = decide (counter = fragNum - 1)) :
    wrapFragment buf part op fragNum counter =
      generateWebsocketFrameWithoutFragment buf (partFrame op (counter = 0) last part).payload
        (UInt8.ofNat (partFrame op (counter = 0) last part).op.val)
        (if (partFrame op (counter = 0) last part).fin then finEnable else finDisable)
        (if false then 1 else 0) := by
  have hop' := fragmentOp_eq hop (decide (counter = 0))
  unfold partFrame wrapFragment
  simp only [hop', hlast]
  by_cases hone : fragNum = 1
  · have hzero : counter = 0 := by omega
    simp [hone, hzero]
  · by_cases hzero : counter = 0
    · have hmore : ¬ 0 = fragNum - 1 := by omega
      simp [hone, hzero, hmore]
    · by_cases hend : counter = fragNum - 1
      · simp [hone, hzero, ← hend]
      · simp [hone, hzero, hend]

/-- What the loop has to do from a fragment on: the part it wraps, and whether it is the last. -/
theorem fragmentLoop_step {data : Bytes} {op : UInt8} (hop : op.toNat < 16) (buf : Membuf)
    {fragNum counter : Nat} (hnum : fragNum = (data.length - 1) / dataFrameMaxLen + 1)
    (hinside : counter * dataFrameMaxLen < data.length) (fuel : Nat) :
    ∃ f : WireFrame, f.key = none ∧ f.payload.length < 2 ^ 32 ∧
      ((fragmentFrames op (counter = 0) (data.drop (counter * dataFrameMaxLen)) = [f] ∧
        fragmentLoop data op fragNum (fuel + 1) (counter * dataFrameMaxLen) counter buf =
          generateWebsocketFrameWithoutFragment buf f.payload (UInt8.ofNat f.op.val)
            (if f.fin then finEnable else finDisable) (if false then 1 else 0)) ∨
      ((counter + 1) * dataFrameMaxLen < data.length ∧
        fragmentFrames op (counter = 0) (data.drop (counter * dataFrameMaxLen)) =
          f :: fragmentFrames op (counter + 1 = 0) (data.drop ((counter + 1) * dataFrameMaxLen)) ∧
        fragmentLoop data op fragNum (fuel + 1) (counter * dataFrameMaxLen) counter buf =
          generateWebsocketFrameWithoutFragment buf f.payload (UInt8.ofNat f.op.val)
            (if f.fin then finEnable else finDisable) (if false then 1 else 0) >>=
          fragmentLoop data op fragNum fuel ((counter + 1) * dataFrameMaxLen) (counter + 1))) := by
  have hrest : (data.drop (counter * dataFrameMaxLen)).length =
      data.length - counter * dataFrameMaxLen := List.length_drop
  have hnext : (counter + 1) * dataFrameMaxLen = counter * dataFrameMaxLen + dataFrameMaxLen :=
    Nat.succ_mul ..
  have hcounter : counter < fragNum := by
    unfold dataFrameMaxLen at *
    omega
  by_cases hmore : dataFrameMaxLen < (data.drop (counter * dataFrameMaxLen)).length
  · -- a full fragment, with more to come
    have hinner : counter + 1 < fragNum := by
      unfold dataFrameMaxLen at *
      omega
    have hwrap := wrapFragment_eq hop buf
      ((data.drop (counter * dataFrameMaxLen)).take dataFrameMaxLen) hcounter false
      (decide_eq_false (by omega)).symm
    refine ⟨partFrame op (counter = 0) false
      ((data.drop (counter * dataFrameMaxLen)).take dataFrameMaxLen), rfl, ?_,
      Or.inr ⟨by omega, ?_, ?_⟩⟩
    · show ((data.drop (counter * dataFrameMaxLen)).take dataFrameMaxLen).length < 2 ^ 32
      rw [List.length_take]
      unfold dataFrameMaxLen
      omega
    · rw [fragmentFrames_more hmore, hnext, ← List.drop_drop]
      rfl
    · rw [fragmentLoop,
        if_pos (show data.length - counter * dataFrameMaxLen > dataFrameMaxLen by omega), hwrap]
      simp only [if_pos (show counter * dataFrameMaxLen + dataFrameMaxLen < data.length ∧
        counter + 1 < fragNum from ⟨by omega, hinner⟩), hnext]
  · -- the last fragment takes what is left
    have hlast : counter = fragNum - 1 := by
      unfold dataFrameMaxLen at *
      omega
    have hwrap := wrapFragment_eq hop buf (data.drop (counter * dataFrameMaxLen)) hcounter
      true (decide_eq_true hlast).symm
    refine ⟨partFrame op (counter = 0) true (data.drop (counter * dataFrameMaxLen)), rfl, ?_,
      Or.inl ⟨fragmentFrames_last (Nat.not_lt.mp hmore), ?_⟩⟩
    · show (data.drop (counter * dataFrameMaxLen)).length < 2 ^ 32
      unfold dataFrameMaxLen at *
      omega
    · rw [fragmentLoop,
        if_neg (show ¬ data.length - counter * dataFrameMaxLen > dataFrameMaxLen by omega),
        List.take_of_length_le (by omega), hwrap]
      simp only [if_neg (show ¬ (counter * dataFrameMaxLen +
        (data.length - counter * dataFrameMaxLen) < data.length ∧ counter + 1 < fragNum) by omega)]
      exact bind_pure _

/-- The loop writes the frames from the current fragment on. -/
theorem fragmentLoop_ok {data : Bytes} {op : UInt8} (hop : op.toNat < 16) (buf : Membuf)
    {fragNum : Nat} (counter fuel : Nat) (hnum : fragNum = (data.length - 1) / dataFrameMaxLen + 1)
    (hinside : counter * dataFrameMaxLen < data.length) (hfuel : fragNum - counter ≤ fuel)
    {total : Nat} (room : HasRoom total buf)
    (within : buf.size + (encodeAll (fragmentFrames op (counter = 0)
      (data.drop (counter * dataFrameMaxLen)))).length ≤ total) :
    ∃ buf', fragmentLoop data op fragNum fuel (counter * dataFrameMaxLen) counter buf = .ok buf' ∧
      buf'.content = buf.content ++ encodeAll (fragmentFrames op (counter = 0)
        (data.drop (counter * dataFrameMaxLen))) := by
  induction fuel generalizing counter buf with
  | zero =>
      unfold dataFrameMaxLen at hnum hinside
      omega
  | succ fuel ih =>
      obtain ⟨f, hkey, -, ⟨hframes, hloop⟩ | ⟨hmore, hframes, hloop⟩⟩ :=
        fragmentLoop_step hop buf hnum hinside fuel
      · rw [hframes, encodeAll_cons, encodeAll_nil, List.append_nil] at within ⊢
        rw [hloop]
        obtain ⟨buf', hframe, hcontent, -⟩ :=
          generateWebsocketFrameWithoutFragment_ok buf false hkey room within
        exact ⟨buf', hframe, hcontent⟩
      · rw [hframes, encodeAll_cons, List.length_append] at within
        obtain ⟨buf₁, hframe, hcontent, hroom⟩ :=
          generateWebsocketFrameWithoutFragment_ok buf false hkey room (by omega)
        have hsize : buf₁.size = buf.size + f.encode.length := by
          rw [← buf₁.length_content, hcontent, List.length_append, Membuf.length_content]
        obtain ⟨buf', hloop', hcontent'⟩ := ih buf₁ (counter + 1) hmore (by omega) hroom (by omega)
        rw [hloop, hframe, ok_bind, hframes, encodeAll_cons, ← List.append_assoc, ← hcontent]
        exact ⟨buf', hloop', hcontent'⟩

/-- **A message.** `generate_websocket_frame` appends the frames of the message, one after the
other, to a buffer that has room for them. -/
theorem generateWebsocketFrame_ok_of_room (buf : Membuf) {op : UInt8} (data : Bytes)
    (hop : op.toNat < 16) {total : Nat} (room : HasRoom total buf)
    (within : buf.size + (encodeAll (messageFrames op data)).length ≤ total) :
    ∃ buf', generateWebsocketFrame buf data op = .ok buf' ∧
      buf'.content = buf.content ++ encodeAll (messageFrames op data) := by
  unfold generateWebsocketFrame
  unfold messageFrames at within ⊢
  by_cases hnil : data = []
  · subst hnil
    exact ⟨buf, rfl, by simp⟩
  · have hpos := List.length_pos_iff.mpr hnil
    rw [if_neg hnil] at within ⊢
    rw [if_neg (by omega)]
    dsimp only
    rw [fragNum_eq hpos]
    have hloop := fragmentLoop_ok hop buf 0 ((data.length - 1) / dataFrameMaxLen + 1) rfl (by omega)
      (Nat.sub_le _ _) room
    rw [Nat.zero_mul, List.drop_zero] at hloop
    simpa using hloop (by simpa using within)

/-- Every buffer has room up to `2 ^ 31` bytes. -/
theorem generateWebsocketFrame_ok (buf : Membuf) {op : UInt8} (data : Bytes)
    (hop : op.toNat < 16) (small : buf.size + (encodeAll (messageFrames op data)).length ≤ 2 ^ 31) :
    ∃ buf', generateWebsocketFrame buf data op = .ok buf' ∧
      buf'.content = buf.content ++ encodeAll (messageFrames op data) :=
  generateWebsocketFrame_ok_of_room buf data hop (Or.inl (Nat.le_refl _)) small

/-! ### What a call leaves behind -/

/-- A property of buffers that no append ends. -/
def KeptByAppends (P : Membuf → Prop) : Prop :=
  ∀ {buf buf' : Membuf} {bytes : Bytes}, membufAppendData buf bytes = .ok buf' → P buf → P buf'

/-- Whatever one frame leaves behind, it is the frame, and what appends keep is kept. -/
theorem generateWebsocketFrameWithoutFragment_content {buf buf' : Membuf} {f : WireFrame}
    (hkey : f.key = none) (hlen : f.payload.length < 2 ^ 32)
    (call : generateWebsocketFrameWithoutFragment buf f.payload (UInt8.ofNat f.op.val)
      (if f.fin then finEnable else finDisable) (if false then 1 else 0) = .ok buf') :
    buf'.content = buf.content ++ f.encode ∧ ∀ {P}, KeptByAppends P → P buf → P buf' := by
  unfold generateWebsocketFrameWithoutFragment at call
  rw [generateHeader_eq false hkey hlen] at call
  obtain ⟨buf₁, hhead, call⟩ := bind_eq_ok.mp call
  obtain ⟨buf₂, hbody, call⟩ := bind_eq_ok.mp call
  rw [if_neg (by decide)] at call
  cases call
  refine ⟨?_, fun kept holds => kept hbody (kept hhead holds)⟩
  rw [(membufAppendData_content hbody).1, (membufAppendData_content hhead).1, WireFrame.encode,
    hkey, List.append_assoc]
  rfl

theorem fragmentLoop_content {data : Bytes} {op : UInt8} (hop : op.toNat < 16) {buf buf' : Membuf}
    {fragNum : Nat} (counter : Nat) {fuel : Nat}
    (hnum : fragNum = (data.length - 1) / dataFrameMaxLen + 1)
    (hinside : counter * dataFrameMaxLen < data.length)
    (call : fragmentLoop data op fragNum fuel (counter * dataFrameMaxLen) counter buf = .ok buf') :
    buf'.content = buf.content ++ encodeAll (fragmentFrames op (counter = 0)
      (data.drop (counter * dataFrameMaxLen))) ∧ ∀ {P}, KeptByAppends P → P buf → P buf' := by
  induction fuel generalizing counter buf with
  | zero => cases call
  | succ fuel ih =>
      obtain ⟨f, hkey, hlen, ⟨hframes, hloop⟩ | ⟨hmore, hframes, hloop⟩⟩ :=
        fragmentLoop_step hop buf hnum hinside fuel
      · rw [hloop] at call
        rw [hframes, encodeAll_cons, encodeAll_nil, List.append_nil]
        exact generateWebsocketFrameWithoutFragment_content hkey hlen call
      · rw [hloop] at call
        obtain ⟨buf₁, hframe, call⟩ := bind_eq_ok.mp call
        obtain ⟨hcontent, hkept⟩ :=
          generateWebsocketFrameWithoutFragment_content hkey hlen hframe
        obtain ⟨hcontent', hkept'⟩ := ih (counter + 1) hmore call
        rw [hframes, encodeAll_cons, ← List.append_assoc, ← hcontent]
        exact ⟨hcontent', fun kept holds => hkept' kept (hkept kept holds)⟩

/-- Whatever a message leaves behind, it is its frames, and what appends keep is kept. -/
theorem generateWebsocketFrame_content {buf buf' : Membuf} {op : UInt8} {data : Bytes}
    (hop : op.toNat < 16) (call : generateWebsocketFrame buf data op = .ok buf') :
    buf'.content = buf.content ++ encodeAll (messageFrames op data) ∧
      ∀ {P}, KeptByAppends P → P buf → P buf' := by
  unfold generateWebsocketFrame at call
  unfold messageFrames
  by_cases hnil : data = []
  · subst hnil
    cases call
    exact ⟨by simp, fun _ holds => holds⟩
  · have hpos := List.length_pos_iff.mpr hnil
    rw [if_neg hnil]
    rw [if_neg (by omega)] at call
    dsimp only at call
    rw [fragNum_eq hpos] at call
    have hloop := fragmentLoop_content hop 0 rfl
      (show 0 * dataFrameMaxLen < data.length by omega) (by rwa [Nat.zero_mul])
    rw [Nat.zero_mul, List.drop_zero] at hloop
    simpa only [decide_true] using hloop

/-- **A message too long to buffer** is not written: in a buffer that grew by doubling, the frames of a
written message take at most `2 ^ 31` bytes. -/
theorem generateWebsocketFrame_small {buf buf' : Membuf} {op : UInt8} {data : Bytes}
    (hop : op.toNat < 16) (call : generateWebsocketFrame buf data op = .ok buf')
    (doubled : buf.Doubled) :
    buf.size + (encodeAll (messageFrames op data)).length ≤ 2 ^ 31 := by
  obtain ⟨hcontent, hkept⟩ := generateWebsocketFrame_content hop call
  have hlen := congrArg List.length hcontent
  have hcap := (hkept membufAppendData_doubled doubled).size_le
  rw [List.length_append, Membuf.length_content, Membuf.length_content] at hlen
  omega

end AnotherWs
