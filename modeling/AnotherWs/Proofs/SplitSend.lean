/-
Module: AnotherWs.Proofs.SplitSend
Purpose: What a send call with a split function has queued when it returns, and when that is all of the
message or nothing.
Trusted boundary: none
Main exports: partContexts, sendParts_append, AllOrNothing, WholeOrNone, sendSplit_allOrNothing,
  splitSends_allOrNothing, sendDataWithAsyncSplit_run
-/
import AnotherWs.Core.SplitSend
import AnotherWs.Proofs.Pool

namespace AnotherWs

/-! ### One part -/

section Part

variable (env : SendEnv) (peer i size : Nat)

/-- The part makes the call return `false`. -/
def Refused : Prop :=
  size = 0 ∨ (env.checker (i + 1)).checkConnection peer = false ∨ env.mallocData i = false

/-- The part is queued. -/
def Passes : Prop := ¬ Refused env peer i size ∧ env.mallocContext i = true

variable {env peer i size} {call id : Nat} {dataptr : Bytes} {s : SendState}

theorem part_refused (refused : Refused env peer i size) :
    sendDataWithAsyncPart env call peer i id dataptr size s = .ok (false, s) := by
  unfold sendDataWithAsyncPart
  rcases refused with h | h | h
  · simp [h]
  · simp [h]
  · simp [h]

theorem part_passes (passes : Passes env peer i size) (enough : size ≤ dataptr.length) :
    sendDataWithAsyncPart env call peer i id dataptr size s =
      .ok (true, s.queue id ⟨peer, dataptr.take size, size % 2 ^ 32, call, i⟩) := by
  obtain ⟨hnot, hcontext⟩ := passes
  simp only [Refused, not_or, Bool.not_eq_false] at hnot
  obtain ⟨hsize, hcheck, hdata⟩ := hnot
  unfold sendDataWithAsyncPart
  simp [hsize, hcheck, hdata, hcontext, Nat.not_lt.mpr enough]

/-- Without memory for the context the call ends in a null pointer. -/
theorem part_null (accepted : ¬ Refused env peer i size) (null : env.mallocContext i = false)
    (enough : size ≤ dataptr.length) :
    sendDataWithAsyncPart env call peer i id dataptr size s = .error .nullPointer := by
  simp only [Refused, not_or, Bool.not_eq_false] at accepted
  obtain ⟨hsize, hcheck, hdata⟩ := accepted
  unfold sendDataWithAsyncPart
  simp [hsize, hcheck, hdata, null, Nat.not_lt.mpr enough]

end Part

/-! ### The loop -/

/-- What the loop queues when nothing stops it. -/
def partContexts (call peer : Nat) : Nat → List Nat → List Nat → Bytes → List (Nat × SendDataContext)
  | i, id :: ids, size :: sizes, data =>
      (id, ⟨peer, data.take size, size % 2 ^ 32, call, i⟩) ::
        partContexts call peer (i + 1) ids sizes (data.drop size)
  | _, _, _, _ => []

/-- The bytes that the loop thread takes from a context. -/
def SendDataContext.bytes (ctx : SendDataContext) : Bytes := ctx.data.take ctx.len

/-- Queue one after the other. -/
def SendState.queueAll (s : SendState) (contexts : List (Nat × SendDataContext)) : SendState :=
  contexts.foldl (fun s q => s.queue q.1 q.2) s

section Loop

variable {env : SendEnv} {call peer : Nat}

theorem SendState.queueAll_queued (s : SendState) (contexts : List (Nat × SendDataContext)) :
    (s.queueAll contexts).queued = s.queued ++ contexts := by
  induction contexts generalizing s with
  | nil => exact (List.append_nil _).symm
  | cons q rest ih =>
      show ((s.queue q.1 q.2).queueAll rest).queued = _
      rw [ih, SendState.queue, List.append_assoc]
      rfl

theorem partContexts_ids {i : Nat} {ids sizes : List Nat} {data : Bytes}
    (length_eq : ids.length = sizes.length) :
    (partContexts call peer i ids sizes data).map Prod.fst = ids := by
  induction sizes generalizing i ids data with
  | nil =>
      rw [List.length_eq_zero_iff.mp length_eq]
      rfl
  | cons size sizes ih =>
      cases ids with
      | nil => cases length_eq
      | cons id ids =>
          rw [partContexts, List.map_cons, ih (by simpa using length_eq)]

/-- The bytes of a part are its own, cut to a length of 32 bits. -/
theorem partContexts_length {i : Nat} {ids sizes : List Nat} {data : Bytes}
    (length_eq : ids.length = sizes.length) (enough : sizes.sum ≤ data.length) :
    ((partContexts call peer i ids sizes data).flatMap fun q => q.2.bytes).length =
      (sizes.map (· % 2 ^ 32)).sum := by
  induction sizes generalizing i ids data with
  | nil =>
      rw [List.length_eq_zero_iff.mp length_eq]
      rfl
  | cons size sizes ih =>
      cases ids with
      | nil => cases length_eq
      | cons id ids =>
          rw [List.sum_cons] at enough
          have hmod := Nat.mod_le size (2 ^ 32)
          rw [partContexts, List.flatMap_cons, List.length_append,
            ih (by simpa using length_eq) (by rw [List.length_drop]; omega), List.map_cons,
            List.sum_cons, SendDataContext.bytes, List.length_take, List.length_take]
          dsimp only
          omega

/-- Parts of less than 2^32 bytes carry the whole message. -/
theorem partContexts_bytes {i : Nat} {ids sizes : List Nat} {data : Bytes}
    (length_eq : ids.length = sizes.length) (short : ∀ size ∈ sizes, size < 2 ^ 32)
    (enough : sizes.sum = data.length) :
    ((partContexts call peer i ids sizes data).flatMap fun q => q.2.bytes) = data := by
  induction sizes generalizing i ids data with
  | nil =>
      rw [List.length_eq_zero_iff.mp length_eq]
      exact (List.length_eq_zero_iff.mp enough.symm).symm
  | cons size sizes ih =>
      cases ids with
      | nil => cases length_eq
      | cons id ids =>
          rw [List.sum_cons] at enough
          obtain ⟨hsize, hrest⟩ := List.forall_mem_cons.mp short
          rw [partContexts, List.flatMap_cons,
            ih (by simpa using length_eq) hrest (by rw [List.length_drop]; omega),
            SendDataContext.bytes, Nat.mod_eq_of_lt hsize, List.take_take, Nat.min_self]
          exact List.take_append_drop size data

/-- All parts pass, the first of them under the number `i`. -/
def PassAll (env : SendEnv) (peer : Nat) : Nat → List Nat → Prop
  | _, [] => True
  | i, size :: sizes => Passes env peer i size ∧ PassAll env peer (i + 1) sizes

/-- Either all parts pass, or there is a first one that does not. -/
theorem passAll_or (env : SendEnv) (peer i : Nat) (sizes : List Nat) :
    PassAll env peer i sizes ∨
      ∃ front size back, sizes = front ++ size :: back ∧ PassAll env peer i front ∧
        ¬ Passes env peer (i + front.length) size := by
  induction sizes generalizing i with
  | nil => exact Or.inl trivial
  | cons size sizes ih =>
      by_cases hpasses : Passes env peer i size
      · rcases ih (i + 1) with hall | ⟨front, stop, back, rfl, hfront, hstop⟩
        · exact Or.inl ⟨hpasses, hall⟩
        · refine Or.inr ⟨size :: front, stop, back, rfl, ⟨hpasses, hfront⟩, ?_⟩
          rwa [List.length_cons, Nat.add_comm front.length, ← Nat.add_assoc]
      · exact Or.inr ⟨[], size, sizes, rfl, trivial, hpasses⟩

/-- Parts that pass are queued, and the loop goes on behind them. -/
theorem sendParts_append {i : Nat} {ids ids' front back : List Nat} {data : Bytes} {s : SendState}
    (length_eq : ids.length = front.length) (enough : front.sum ≤ data.length)
    (passes : PassAll env peer i front) :
    sendParts env call peer i (ids ++ ids') (front ++ back) data s =
      sendParts env call peer (i + front.length) ids' back (data.drop front.sum)
        (s.queueAll (partContexts call peer i ids front data)) := by
  induction front generalizing i ids data s with
  | nil =>
      rw [List.length_eq_zero_iff.mp length_eq]
      rfl
  | cons size front ih =>
      cases ids with
      | nil => cases length_eq
      | cons id ids =>
          rw [List.sum_cons] at enough
          rw [List.cons_append, List.cons_append, sendParts, part_passes passes.1 (by omega), ok_bind]
          dsimp only
          rw [if_pos rfl, ih (by simpa using length_eq) (by rw [List.length_drop]; omega) passes.2,
            List.drop_drop, List.length_cons, List.sum_cons]
          rw [show i + 1 + front.length = i + (front.length + 1) by omega]
          rfl

/-- The outcome when every part passes. -/
theorem sendParts_all {i : Nat} {ids sizes : List Nat} {data : Bytes} {s : SendState}
    (length_eq : ids.length = sizes.length) (enough : sizes.sum ≤ data.length)
    (passes : PassAll env peer i sizes) :
    sendParts env call peer i ids sizes data s =
      .ok (true, s.queueAll (partContexts call peer i ids sizes data)) := by
  have hwalk := @sendParts_append env call peer i ids [] sizes [] data s length_eq enough passes
  rw [List.append_nil, List.append_nil] at hwalk
  rw [hwalk, sendParts]

/-- The outcome when a part does not pass. If it is refused, the parts in front of it are queued. -/
theorem sendParts_stop {i size : Nat} {ids front back : List Nat} {data : Bytes} {s : SendState}
    (length_eq : ids.length = (front ++ size :: back).length)
    (enough : (front ++ size :: back).sum ≤ data.length) (passes : PassAll env peer i front)
    (stops : ¬ Passes env peer (i + front.length) size) :
    (Refused env peer (i + front.length) size →
      sendParts env call peer i ids (front ++ size :: back) data s =
        .ok (false, s.queueAll (partContexts call peer i (ids.take front.length) front data))) ∧
    (¬ Refused env peer (i + front.length) size →
      sendParts env call peer i ids (front ++ size :: back) data s = .error .nullPointer) := by
  have hlen : front.length < ids.length := by
    rw [length_eq, List.length_append, List.length_cons]
    omega
  rw [List.sum_append, List.sum_cons] at enough
  have htake : (ids.take front.length).length = front.length := by
    rw [List.length_take]
    omega
  have hwalk := @sendParts_append env call peer i _ (ids.drop front.length) front (size :: back) data s
    htake (by omega) passes
  rw [List.take_append_drop, List.drop_eq_getElem_cons hlen, sendParts] at hwalk
  constructor
  · intro hrefused
    rw [hwalk, part_refused hrefused]
    rfl
  · intro haccepted
    have hnull : env.mallocContext (i + front.length) = false := by
      by_contra hmalloc
      exact stops ⟨haccepted, by simpa using hmalloc⟩
    rw [hwalk, part_null haccepted hnull (by rw [List.length_drop]; omega)]
    rfl

end Loop

/-! ### All or nothing -/

/-- A call that returns `false` has queued nothing. One that returns `true` has queued, on handles of
increasing ids, contexts whose bytes are the whole encoding. -/
structure AllOrNothing (encoded : Bytes) (out : Bool × SendState) : Prop where
  nothing : out.1 = false → out.2.queued = []
  ordered : out.1 = true → (out.2.queued.map Prod.fst).Pairwise (· < ·)
  all : out.1 = true → (out.2.queued.flatMap fun q => q.2.bytes) = encoded

/-- No part behind the first is the first to be refused, and if all parts pass, their lengths fit
into 32 bits. -/
structure WholeOrNone (env : SendEnv) (peer : Nat) (sizes : List Nat) : Prop where
  refused : ∀ front size back, sizes = front ++ size :: back → PassAll env peer 0 front →
    Refused env peer front.length size → front = []
  short : PassAll env peer 0 sizes → ∀ size ∈ sizes, size < 2 ^ 32

theorem lt_of_sum_mod {sizes : List Nat} (sum_eq : (sizes.map (· % 2 ^ 32)).sum = sizes.sum) :
    ∀ size ∈ sizes, size < 2 ^ 32 := by
  have hle : ∀ l : List Nat, (l.map (· % 2 ^ 32)).sum ≤ l.sum := by
    intro l
    induction l with
    | nil => exact le_rfl
    | cons size l ih =>
        have := Nat.mod_le size (2 ^ 32)
        rw [List.map_cons, List.sum_cons, List.sum_cons]
        omega
  induction sizes with
  | nil => exact fun _ h => absurd h List.not_mem_nil
  | cons size sizes ih =>
      rw [List.map_cons, List.sum_cons, List.sum_cons] at sum_eq
      have hrest := hle sizes
      have hsize := Nat.mod_le size (2 ^ 32)
      refine List.forall_mem_cons.mpr ⟨?_, ih (by omega)⟩
      have := Nat.mod_lt size (show 0 < 2 ^ 32 by decide)
      omega

/-- The loop over handles of increasing ids. -/
theorem sendParts_allOrNothing {env : SendEnv} {call peer : Nat} {ids sizes : List Nat}
    {data : Bytes} {pool : CAsyncs} (length_eq : ids.length = sizes.length)
    (increasing : ids.Pairwise (· < ·)) (sums : sizes.sum = data.length) :
    (∀ out, sendParts env call peer 0 ids sizes data ⟨pool, []⟩ = .ok out → AllOrNothing data out) ↔
      WholeOrNone env peer sizes := by
  constructor
  · intro h
    refine ⟨?_, fun hall => ?_⟩
    · rintro front size back rfl hfront hrefused
      have hstop := (@sendParts_stop env call peer 0 size ids front back data ⟨pool, []⟩ length_eq
        sums.le hfront (by rw [Nat.zero_add]; exact fun h => h.1 hrefused)).1 (by rwa [Nat.zero_add])
      have hqueued := (h _ hstop).nothing rfl
      rw [SendState.queueAll_queued, List.nil_append] at hqueued
      have hids := congrArg (List.map Prod.fst) hqueued
      rw [partContexts_ids (by rw [List.length_take, length_eq, List.length_append]; omega)] at hids
      have hlen := congrArg List.length hids
      rw [List.length_take, length_eq, List.length_append, List.length_cons] at hlen
      exact List.length_eq_zero_iff.mp (by simpa using hlen)
    · have hbytes := (h _ (sendParts_all length_eq sums.le hall)).all rfl
      rw [SendState.queueAll_queued, List.nil_append] at hbytes
      have hlen := @partContexts_length call peer 0 ids sizes data length_eq sums.le
      rw [hbytes, ← sums] at hlen
      exact lt_of_sum_mod hlen.symm
  · intro whole out hout
    rcases passAll_or env peer 0 sizes with hall | ⟨front, size, back, rfl, hfront, hstops⟩
    · rw [sendParts_all length_eq sums.le hall] at hout
      cases hout
      refine ⟨fun h => (by cases h), fun _ => ?_, fun _ => ?_⟩
      · rw [SendState.queueAll_queued, List.nil_append, partContexts_ids length_eq]
        exact increasing
      · rw [SendState.queueAll_queued, List.nil_append]
        exact partContexts_bytes length_eq (whole.short hall) sums
    · obtain ⟨hrefused, hnull⟩ := @sendParts_stop env call peer 0 size ids front back data ⟨pool, []⟩
        length_eq sums.le hfront hstops
      by_cases h : Refused env peer (0 + front.length) size
      · rw [hrefused h] at hout
        cases hout
        rw [Nat.zero_add] at h
        obtain rfl := whole.refused front size back rfl hfront h
        refine ⟨fun _ => ?_, fun h => (by cases h), fun h => (by cases h)⟩
        rw [SendState.queueAll_queued]
        rfl
      · rw [hnull h] at hout
        cases hout

/-- The call gets to its parts: the connection is there at the entry and the handles are found. -/
def Reaches (env : SendEnv) (peer : Nat) (sizes : List Nat) (pool : CAsyncs) : Prop :=
  (env.checker 0).checkConnection peer = true ∧ (acquireManyInto sizes.length [] pool).1 = true

theorem AllOrNothing.of_idle (encoded : Bytes) (pool : CAsyncs) :
    AllOrNothing encoded (false, ⟨pool, []⟩) :=
  ⟨fun _ => rfl, fun h => (by cases h), fun h => (by cases h)⟩

section Calls

variable {n : Nat} {actions : List PoolAction} {pool : CAsyncs} {env : SendEnv} {call peer : Nat}
  {split : Nat → List Nat}

theorem sendSplit_eq (data : Bytes) :
    sendSplit env call peer data split pool =
      match acquireManyUvAsync (split data.length).length pool with
      | (some ids, pool') => sendParts env call peer 0 ids (split data.length) data ⟨pool', []⟩
      | (none, pool') => .ok (false, ⟨pool', []⟩) := by
  simp only [sendSplit, acquireManyInto_eq]
  rcases acquireManyUvAsync (split data.length).length pool with ⟨_ | ids, pool'⟩ <;> rfl

theorem sendSplit_allOrNothing (run : poolMachine.exec (CAsyncs.init n) actions = some pool)
    {data : Bytes} (sums : (split data.length).sum = data.length) :
    (∀ out, sendSplit env call peer data split pool = .ok out → AllOrNothing data out) ↔
      ((acquireManyInto (split data.length).length [] pool).1 = true →
        WholeOrNone env peer (split data.length)) := by
  have hrotated := (rotated_of_run run).2
  obtain ⟨hspec, hlength⟩ := acquireMany_spec (split data.length).length hrotated
  rw [sendSplit_eq, acquireManyInto_eq]
  rcases hcall : acquireManyUvAsync (split data.length).length pool with ⟨_ | ids, pool'⟩
  · refine ⟨fun _ h => (by cases h), fun _ out hout => ?_⟩
    cases hout
    exact .of_idle data pool'
  · rw [hcall] at hspec hlength
    obtain ⟨a, hids, -⟩ := (hspec.window ids rfl).consecutive
    have hincreasing : ids.Pairwise (· < ·) := by
      rw [hids]
      exact List.pairwise_lt_range' ..
    have hloop := @sendParts_allOrNothing env call peer ids (split data.length) data pool'
      (hlength ids rfl) hincreasing sums
    exact hloop.trans ⟨fun h _ => h, fun h => h rfl⟩

/-- **Split sends.** Both calls queue the whole encoding or nothing exactly when, should the call
get to its parts, no part behind the first is the first to be refused, and no part that is queued is
too long for its length field. -/
theorem splitSends_allOrNothing (run : poolMachine.exec (CAsyncs.init n) actions = some pool) :
    (∀ data : Bytes, (split data.length).sum = data.length →
      ((∀ out, sendDataWithAsyncSplit env call peer (some data) split pool = .ok out →
          AllOrNothing data out) ↔
        (data ≠ [] → Reaches env peer (split data.length) pool →
          WholeOrNone env peer (split data.length)))) ∧
    (∀ (buffer : Bytes) (op : UInt8) (buf : Membuf),
      generateWebsocketFrame (membufInit 128) buffer op = .ok buf →
      (split buf.content.length).sum = buf.content.length →
      ((∀ out, sendWebsocketMsgSplit env call peer (some buffer) op split pool = .ok out →
          AllOrNothing buf.content out) ↔
        (buffer ≠ [] → Reaches env peer (split buf.content.length) pool →
          WholeOrNone env peer (split buf.content.length)))) := by
  constructor
  · intro data sums
    have hsplit := @sendSplit_allOrNothing n actions pool env call peer split run data sums
    unfold sendDataWithAsyncSplit Reaches
    by_cases hcheck : (env.checker 0).checkConnection peer = true
    · by_cases hempty : data = []
      · simp [hcheck, hempty, AllOrNothing.of_idle]
      · simpa [hcheck, hempty] using hsplit
    · simp [hcheck, AllOrNothing.of_idle]
  · intro buffer op buf hbuf sums
    have hsplit := @sendSplit_allOrNothing n actions pool env call peer split run buf.content sums
    unfold sendWebsocketMsgSplit Reaches
    by_cases hcheck : (env.checker 0).checkConnection peer = true
    · by_cases hempty : buffer = []
      · simp [hcheck, hempty, AllOrNothing.of_idle]
      · simpa [hcheck, hempty, hbuf] using hsplit
    · simp [hcheck, AllOrNothing.of_idle]

end Calls

/-- Enough memory, and a connection that stays for the first `checks` checks. -/
def closingEnv (peer checks : Nat) : SendEnv :=
  ⟨fun k => if k < checks then ⟨[peer]⟩ else ⟨[]⟩, fun _ => true, fun _ => true⟩

theorem splitSends_allOrNothing_two :
    (∀ data : Bytes, ((fun _ => [2, 1] : Nat → List Nat) data.length).sum = data.length →
      ((∀ out, sendDataWithAsyncSplit (closingEnv 7 3) 0 7 (some data) (fun _ => [2, 1])
          (CAsyncs.init 3) = .ok out → AllOrNothing data out) ↔
        (data ≠ [] → Reaches (closingEnv 7 3) 7 [2, 1] (CAsyncs.init 3) →
          WholeOrNone (closingEnv 7 3) 7 [2, 1]))) ∧
    (∀ (buffer : Bytes) (op : UInt8) (buf : Membuf),
      generateWebsocketFrame (membufInit 128) buffer op = .ok buf →
      ((fun _ => [2, 1] : Nat → List Nat) buf.content.length).sum = buf.content.length →
      ((∀ out, sendWebsocketMsgSplit (closingEnv 7 3) 0 7 (some buffer) op (fun _ => [2, 1])
          (CAsyncs.init 3) = .ok out → AllOrNothing buf.content out) ↔
        (buffer ≠ [] → Reaches (closingEnv 7 3) 7 [2, 1] (CAsyncs.init 3) →
          WholeOrNone (closingEnv 7 3) 7 [2, 1]))) :=
  @splitSends_allOrNothing 3 [] _ (closingEnv 7 3) 0 7 (fun _ => [2, 1]) rfl

/-- A message of one byte in two parts. The connection goes between them: the call returns `false`
and the first two bytes of the frame are queued. -/
theorem splitSends_cutShort :
    (∃ buf, generateWebsocketFrame (membufInit 128) [0x41] wsTextFrame = .ok buf ∧
      buf.content = [0x81, 1, 0x41]) ∧
    ∃ out, sendWebsocketMsgSplit (closingEnv 7 2) 0 7 (some [0x41]) wsTextFrame (fun _ => [2, 1])
        (CAsyncs.init 3) = .ok out ∧
      out.1 = false ∧ out.2.queued = [(0, ⟨7, [0x81, 1], 2, 0, 0⟩)] ∧
      ¬ AllOrNothing [0x81, 1, 0x41] out := by
  refine ⟨⟨_, rfl, by decide⟩, _, rfl, rfl, rfl, fun h => ?_⟩
  cases h.nothing rfl

/-! ### The call among the others

A call whose allocations succeed is what one thread of the machine does when no other step comes in
between.
-/

section Machine

variable {s : SendSystem} {thread : Nat} {c : SendCall}

/-- One part: the context is stored and the handle is woken. -/
theorem part_run (sending : s.senders thread = some c) (unfilled : c.filled = false)
    (nonempty : c.part c.i ≠ []) :
    ∃ s', sendMachine.exec s [.fill thread, .notify thread] = some s' ∧
      s'.pool = { s.pool with
        asyncs := Function.update s.pool.asyncs (c.async c.i) ⟨some (c.context c.i), true⟩ } ∧
      s'.stored = s.stored ++ [c.context c.i] ∧
      s'.senders thread =
        if c.i + 1 < c.asyncResult.length then some { c with i := c.i + 1, filled := false }
        else none := by
  have hfill : s.step (.fill thread) = some (s.fill thread c) := by
    simp [SendSystem.step, sending, unfilled]
  have hsender : (s.fill thread c).senders thread = some { c with filled := true } := by
    simp [SendSystem.fill, nonempty]
  have hnotify : (s.fill thread c).step (.notify thread) =
      some ((s.fill thread c).notify thread { c with filled := true }) := by
    simp [SendSystem.step, hsender]
  have hpool : ∀ s' : SendSystem, (s'.setAsync (c.async c.i)
      { s'.pool.asyncs (c.async c.i) with pending := true }).pool = { s'.pool with
        asyncs := Function.update s'.pool.asyncs (c.async c.i)
          { s'.pool.asyncs (c.async c.i) with pending := true } } := fun _ => rfl
  refine ⟨_, Machines.Machine.exec_cons.mpr ⟨_, hfill, Machines.Machine.exec_cons.mpr
    ⟨_, hnotify, rfl⟩⟩, ?_, ?_, ?_⟩
  · unfold SendSystem.notify SendSystem.fill
    rw [if_neg nonempty]
    dsimp only
    split <;> simp [SendSystem.setAsync, SendSystem.setSender, SendCall.async, SendCall.context]
  · unfold SendSystem.notify SendSystem.fill
    rw [if_neg nonempty]
    dsimp only
    split <;> rfl
  · unfold SendSystem.notify
    dsimp only
    split <;> simp

/-- A part that is refused ends the call: an empty part at its turn, a missing connection once it is
closed. -/
theorem refused_run {env : SendEnv} (memory : ∀ i, env.mallocData i = true) {size : Nat} {data : Bytes}
    (sending : s.senders thread = some c) (unfilled : c.filled = false)
    (part_eq : c.part c.i = data.take size) (refused : Refused env c.peer c.i size) :
    ∃ actions s', sendMachine.exec s actions = some s' ∧ s'.pool = s.pool ∧ s'.stored = s.stored ∧
      s'.senders thread = none := by
  rcases refused with hsize | hcheck | hmalloc
  · have hempty : c.part c.i = [] := by rw [part_eq, hsize, List.take_zero]
    have hfill : s.step (.fill thread) = some (s.setSender thread none) := by
      simp [SendSystem.step, SendSystem.fill, sending, unfilled, hempty]
    exact ⟨[.fill thread], s.setSender thread none, Machines.Machine.exec_cons.mpr ⟨_, hfill, rfl⟩,
      rfl, rfl, by simp⟩
  · let gone : SendSystem := { s with connected := Function.update s.connected c.peer false }
    have hrefuse : gone.step (.refuse thread) = some (gone.setSender thread none) := by
      simp [gone, SendSystem.step, sending, unfilled]
    exact ⟨[.close c.peer, .refuse thread], gone.setSender thread none,
      Machines.Machine.exec_cons.mpr ⟨gone, rfl,
        Machines.Machine.exec_cons.mpr ⟨_, hrefuse, rfl⟩⟩,
      rfl, rfl, by simp⟩
  · rw [memory c.i] at hmalloc
    cases hmalloc

/-- The loop from a part on is a run of the thread. -/
theorem sendParts_run {env : SendEnv}
    (memory : ∀ i, env.mallocData i = true ∧ env.mallocContext i = true)
    {ids sizes : List Nat} {data : Bytes} {queued : List (Nat × SendDataContext)}
    {out : Bool × SendState} (sending : s.senders thread = some c) (unfilled : c.filled = false)
    (handles : c.asyncResult.drop c.i = ids) (parts : c.parts.drop c.i = splitParts sizes data)
    (length_eq : ids.length = sizes.length) (more : sizes ≠ []) (enough : sizes.sum ≤ data.length)
    (returned : sendParts env c.call c.peer c.i ids sizes data ⟨s.pool, queued⟩ = .ok out) :
    ∃ actions s' contexts, sendMachine.exec s actions = some s' ∧ s'.pool = out.2.pool ∧
      out.2.queued = queued ++ contexts ∧ s'.stored = s.stored ++ contexts.map Prod.snd ∧
      s'.senders thread = none := by
  induction sizes generalizing s c ids data queued with
  | nil => exact absurd rfl more
  | cons size sizes ih =>
      cases ids with
      | nil => cases length_eq
      | cons id ids =>
          rw [List.sum_cons] at enough
          have hasync : c.async c.i = id := by
            rw [SendCall.async, List.getD_eq_getElem?_getD, ← List.head?_drop, handles]
            rfl
          have hpart : c.part c.i = data.take size := by
            rw [SendCall.part, List.getD_eq_getElem?_getD, ← List.head?_drop, parts]
            rfl
          obtain ⟨⟨ret, mid⟩, hone, hrest⟩ := bind_eq_ok.mp returned
          by_cases hrefused : Refused env c.peer c.i size
          · rw [part_refused hrefused] at hone
            cases hone
            cases hrest
            obtain ⟨actions, s', hrun, hpool, hstored, hsender⟩ :=
              refused_run (fun i => (memory i).1) sending unfilled hpart hrefused
            exact ⟨actions, s', [], hrun, hpool, (List.append_nil _).symm,
              hstored.trans (List.append_nil _).symm, hsender⟩
          · have hpasses : Passes env c.peer c.i size := ⟨hrefused, (memory c.i).2⟩
            have hsize : size ≠ 0 := fun h => hrefused (Or.inl h)
            have hlen : (data.take size).length = size := by
              rw [List.length_take]
              omega
            have hnonempty : c.part c.i ≠ [] := by
              rw [hpart]
              exact List.ne_nil_of_length_pos (by omega)
            have hcontext : c.context c.i = ⟨c.peer, data.take size, size % 2 ^ 32, c.call, c.i⟩ := by
              rw [SendCall.context, hpart, hlen]
            rw [part_passes hpasses (by omega), ← hcontext] at hone
            cases hone
            change sendParts env c.call c.peer (c.i + 1) ids sizes (data.drop size)
              ((⟨s.pool, queued⟩ : SendState).queue id (c.context c.i)) = .ok out at hrest
            obtain ⟨s', hrun, hpool, hstored, hsender⟩ := part_run sending unfilled hnonempty
            rw [hasync] at hpool
            have hlength := congrArg List.length handles
            rw [List.length_drop, List.length_cons] at hlength
            cases sizes with
            | nil =>
                obtain rfl : ids = [] := List.length_eq_zero_iff.mp (by simpa using length_eq)
                cases hrest
                rw [if_neg (by rw [List.length_nil] at hlength; omega)] at hsender
                exact ⟨_, s', [(id, c.context c.i)], hrun, hpool, rfl, hstored, hsender⟩
            | cons size' sizes =>
                have hmore : 0 < ids.length := by
                  rw [List.length_cons, List.length_cons, List.length_cons] at length_eq
                  omega
                rw [if_pos (by omega)] at hsender
                have hmid : ((⟨s.pool, queued⟩ : SendState).queue id (c.context c.i)) =
                    ⟨s'.pool, queued ++ [(id, c.context c.i)]⟩ := by
                  rw [hpool]
                  rfl
                rw [hmid] at hrest
                obtain ⟨actions, s'', contexts, hrun', hpool', hqueued, hstored', hsender'⟩ :=
                  @ih s' { c with i := c.i + 1, filled := false } ids (data.drop size) _ hsender rfl
                    (by rw [← List.drop_drop, handles]; rfl)
                    (by rw [← List.drop_drop, parts]; rfl)
                    (by simpa using length_eq) (List.cons_ne_nil _ _)
                    (by rw [List.length_drop]; omega) hrest
                refine ⟨_, s'', (id, c.context c.i) :: contexts,
                  Machines.Machine.exec_append hrun hrun', hpool', ?_, ?_, hsender'⟩
                · rw [hqueued, List.append_assoc]
                  rfl
                · rw [hstored', hstored, List.append_assoc]
                  rfl

/-- **One call.** What a call with a split function does to the pool, and the contexts it stores,
are those of a run of the machine in which one thread makes the call. -/
theorem sendDataWithAsyncSplit_run {env : SendEnv} {peer : Nat} {data : Bytes}
    {split : Nat → List Nat} {out : Bool × SendState}
    (memory : ∀ i, env.mallocData i = true ∧ env.mallocContext i = true)
    (rotated : s.pool.Rotated) (idle : s.senders thread = none)
    (connected : s.connected peer = (env.checker 0).checkConnection peer)
    (sums : (split data.length).sum = data.length)
    (returned : sendDataWithAsyncSplit env s.calls peer (some data) split s.pool = .ok out) :
    ∃ actions s', sendMachine.exec s actions = some s' ∧ s'.pool = out.2.pool ∧
      s'.stored = s.stored ++ out.2.queued.map Prod.snd ∧ s'.senders thread = none := by
  unfold sendDataWithAsyncSplit at returned
  rw [← connected] at returned
  cases hconnected : s.connected peer with
  | false =>
      rw [hconnected] at returned
      cases returned
      exact ⟨[], s, rfl, rfl, (List.append_nil _).symm, idle⟩
  | true =>
      rw [hconnected] at returned
      by_cases hempty : data = []
      · simp only [hempty, Bool.not_true, Bool.false_eq_true, if_false, if_true] at returned
        cases returned
        exact ⟨[], s, rfl, rfl, (List.append_nil _).symm, idle⟩
      · simp only [hempty, Bool.not_true, Bool.false_eq_true, if_false, sendSplit_eq] at returned
        let req : Request := ⟨peer, data, some split⟩
        have hcall : s.step (.call thread req) = some (s.call thread req) := by
          simp [SendSystem.step, idle]
        obtain ⟨-, hlength⟩ := acquireMany_spec (split data.length).length rotated
        have hsizes : split data.length ≠ [] := by
          intro hnil
          rw [hnil] at sums
          exact hempty (List.length_eq_zero_iff.mp sums.symm)
        rcases hacquire : acquireManyUvAsync (split data.length).length s.pool with ⟨_ | ids, pool'⟩
        · rw [hacquire] at returned
          cases returned
          have hpool : s.call thread req = { s with pool := pool' } := by
            simp [SendSystem.call, Request.acquire, req, hconnected, hempty, hacquire]
          rw [hpool] at hcall
          exact ⟨[.call thread req], _, Machines.Machine.exec_cons.mpr ⟨_, hcall, rfl⟩, rfl,
            (List.append_nil _).symm, idle⟩
        · rw [hacquire] at returned hlength
          have hids : ids.length = (split data.length).length := hlength ids rfl
          have hne : ids ≠ [] := by
            rintro rfl
            exact hsizes (List.length_eq_zero_iff.mp hids.symm)
          let first : SendCall := ⟨s.calls, peer, ids, splitParts (split data.length) data, 0, false⟩
          have hpool : s.call thread req =
              { s with pool := pool', calls := s.calls + 1 }.setSender thread (some first) := by
            obtain ⟨id, rest, rfl⟩ := List.exists_cons_of_ne_nil hne
            simp [SendSystem.call, Request.acquire, req, first, hconnected, hempty, hacquire]
          rw [hpool] at hcall
          obtain ⟨actions, s', contexts, hrun, hpool', hqueued, hstored, hsender⟩ :=
            @sendParts_run ({ s with pool := pool', calls := s.calls + 1 }.setSender thread
              (some first))
              thread first env memory ids (split data.length) data [] out (by simp) rfl rfl rfl hids
              hsizes sums.le returned
          rw [List.nil_append] at hqueued
          rw [← hqueued] at hstored
          exact ⟨.call thread req :: actions, s', Machines.Machine.exec_cons.mpr ⟨_, hcall, hrun⟩,
            hpool', hstored, hsender⟩

end Machine

end AnotherWs
