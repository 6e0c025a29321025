/-
Module: AnotherWs.Proofs.SizedRead
Purpose: Reads that are served from a buffer and from fresh data are reads of one stream, and no counter
  wraps around.
Trusted boundary: none
Main exports: sizedRead_eq, sizedRead_ok, CursorAt.streamed, StreamRead, readCalls_stream
-/
import AnotherWs.Core.SizedRead
import AnotherWs.Proofs.Reader

namespace AnotherWs

theorem sizeAddChecked_ok {a b : Nat} (word : a + b < 2 ^ 64) : sizeAddChecked a b = .ok (a + b) :=
  if_pos word

theorem sizeSubChecked_ok {a b : Nat} (le : b ≤ a) : sizeSubChecked a b = .ok (a - b) := if_pos le

/-- While its counters are within the buffer and the data, a read with checked counters is the read
without. -/
theorem sizedRead_eq {cursor : ReadCursor} {data : Bytes} {readlen : Nat}
    (bufRead_le : cursor.bufRead ≤ cursor.buf.size) (dataRead_le : cursor.dataRead ≤ data.length)
    (real : cursor.dataRead = cursor.realReadNum) (small : cursor.buf.size ≤ 2 ^ 31)
    (few : data.length ≤ 2 ^ 31) (short : readlen < 2 ^ 32) :
    sizedRead cursor data readlen = (readCharFromBufOrData cursor data readlen).mapError .fault := by
  obtain ⟨buf, bufRead, dataRead, realReadNum⟩ := cursor
  dsimp only at bufRead_le dataRead_le real small
  subst real
  unfold sizedRead readCharFromBufOrData
  dsimp only
  rw [sizeAddChecked_ok (by omega), ok_bind]
  by_cases hbuf : bufRead + readlen ≤ buf.size
  · rw [if_pos hbuf, if_pos hbuf]
    rfl
  · rw [if_neg hbuf, if_neg hbuf, sizeSubChecked_ok bufRead_le, ok_bind, sizeAddChecked_ok (by omega),
      ok_bind, sizeAddChecked_ok (by omega), ok_bind, sizeSubChecked_ok (by omega), ok_bind]
    by_cases hdata : dataRead + readlen - (buf.size - bufRead) ≤ data.length
    · rw [if_pos hdata, if_pos hdata, sizeSubChecked_ok (by omega), ok_bind, appendChecked]
      cases membufAppendData buf ((data.drop dataRead).take (readlen - (buf.size - bufRead))) with
      | error fault => rfl
      | ok buf' =>
          simp only [Except.mapError, ok_bind]
          rw [sizeAddChecked_ok (by omega), ok_bind, sizeAddChecked_ok (by omega), ok_bind, ok_bind]
    · rw [if_neg hdata, if_neg hdata, sizeSubChecked_ok dataRead_le, ok_bind]
      by_cases havail : 0 < data.length - dataRead
      · rw [if_pos havail, if_pos havail, appendChecked]
        cases membufAppendData buf ((data.drop dataRead).take (data.length - dataRead)) with
        | error fault => rfl
        | ok buf' =>
            simp only [Except.mapError, ok_bind]
            rw [sizeAddChecked_ok (by omega), ok_bind, sizeAddChecked_ok (by omega), ok_bind, ok_bind]
      · rw [if_neg havail, if_neg havail]
        rfl

section Stream

variable {cursor : ReadCursor} {p d : Bytes} {k n : Nat}

/-- A read at a place of the stream. -/
theorem sizedRead_ok (at_ : CursorAt cursor p d k) (small : p.length + d.length ≤ 2 ^ 31)
    (short : n < 2 ^ 32) :
    ∃ cursor', sizedRead cursor d n =
        .ok ⟨decide (k + n ≤ p.length + d.length), ((p ++ d).drop k).take n, cursor'⟩ ∧
      CursorAt cursor' p d (min (k + n) (p.length + d.length)) := by
  have hsize := at_.size_eq
  have hle := at_.le
  obtain ⟨cursor', hread, hat, -, -⟩ := @readCharFromBufOrData_ok cursor p d k n at_ (by omega)
  refine ⟨cursor', ?_, hat⟩
  rw [sizedRead_eq (by rw [at_.bufRead_eq]; omega) (by rw [at_.dataRead_eq]; omega)
    (at_.dataRead_eq.trans at_.realReadNum_eq.symm) (by omega) (by omega) short, hread]
  rfl

/-- What the counters say of the buffer and the data. -/
structure Streamed (p d : Bytes) (cursor : ReadCursor) : Prop where
  content_eq : cursor.buf.content = p ++ d.take cursor.dataRead
  real : cursor.dataRead = cursor.realReadNum
  dataRead_le : cursor.dataRead ≤ d.length
  bufRead_le : cursor.bufRead ≤ cursor.buf.size
  bufRead_eq : 0 < cursor.dataRead → cursor.bufRead = cursor.buf.size

theorem CursorAt.streamed (at_ : CursorAt cursor p d k) : Streamed p d cursor := by
  have hle := at_.le
  have hsize := at_.size_eq
  have hdata := at_.dataRead_eq
  have hbuf := at_.bufRead_eq
  refine ⟨?_, hdata.trans at_.realReadNum_eq.symm, by omega, by omega, fun hpos => by omega⟩
  rw [hdata]
  exact at_.content_eq

end Stream

/-- The answer of call `i` when the lengths are `lens`. -/
structure StreamRead (p d : Bytes) (lens : List Nat) (i : Nat) (read : ReadResult) : Prop where
  ret_iff : read.ret = true ↔ (lens.take (i + 1)).sum ≤ p.length + d.length
  stored_eq : read.ret = true →
    read.stored = ((p ++ d).drop (lens.take i).sum).take ((lens.take (i + 1)).sum - (lens.take i).sum)
  streamed : Streamed p d read.cursor
  exhausted : read.ret = false → read.cursor.dataRead = d.length

/-- A call behind others is the read at the place where they ended. -/
theorem streamRead_of_cursorAt {cursor : ReadCursor} {p d : Bytes} {front rest : List Nat} {n : Nat}
    (at_ : CursorAt cursor p d (min (front.sum + n) (p.length + d.length))) :
    StreamRead p d (front ++ n :: rest) front.length
      ⟨decide (front.sum + n ≤ p.length + d.length), ((p ++ d).drop front.sum).take n, cursor⟩ := by
  have hfront : ((front ++ n :: rest).take front.length).sum = front.sum := by rw [List.take_left]
  have hnext : ((front ++ n :: rest).take (front.length + 1)).sum = front.sum + n := by
    rw [List.take_length_add_append, List.sum_append, List.take_succ_cons, List.take_zero,
      List.sum_cons, List.sum_nil, Nat.add_zero]
  refine ⟨?_, fun _ => ?_, at_.streamed, fun hret => ?_⟩
  · rw [hnext, decide_eq_true_iff]
  · rw [hnext, hfront, Nat.add_sub_cancel_left]
  · have hpast := of_decide_eq_false hret
    have hdata := at_.dataRead_eq
    show cursor.dataRead = d.length
    omega

/-- Calls from a place of the stream on. -/
theorem readCalls_from {cursor : ReadCursor} {p d : Bytes} {lens front : List Nat}
    (at_ : CursorAt cursor p d front.sum) (small : p.length + d.length ≤ 2 ^ 31)
    (short : ∀ n ∈ lens, n < 2 ^ 32) :
    ∃ reads, readCalls d cursor lens = .ok reads ∧
      (∀ i read, reads[i]? = some read →
        StreamRead p d (front ++ lens) (front.length + i) read ∧
          (read.ret = true ∨ i + 1 = reads.length)) ∧
      (reads.length = lens.length ∨ ∃ read, reads.getLast? = some read ∧ read.ret = false) := by
  induction lens generalizing cursor front with
  | nil =>
      refine ⟨[], rfl, ?_, Or.inl rfl⟩
      intro i read hget
      cases hget
  | cons n rest ih =>
      obtain ⟨hshort, hrest⟩ := List.forall_mem_cons.mp short
      obtain ⟨cursor', hread, hat⟩ := sizedRead_ok at_ small hshort
      have hfirst := @streamRead_of_cursorAt _ _ _ _ rest _ hat
      rw [readCalls, hread, ok_bind]
      by_cases hin : front.sum + n ≤ p.length + d.length
      · rw [Nat.min_eq_left hin] at hat
        have hsum : front.sum + n = (front ++ [n]).sum := by simp
        rw [hsum] at hat
        obtain ⟨reads, hreads, hall, hend⟩ := ih hat hrest
        simp only [hin, decide_true, if_true, hreads, ok_bind]
        simp only [hin, decide_true] at hfirst
        refine ⟨_, rfl, ?_, ?_⟩
        · intro i read hget
          cases i with
          | zero =>
              rw [List.getElem?_cons_zero, Option.some.injEq] at hget
              subst hget
              exact ⟨hfirst, Or.inl rfl⟩
          | succ i =>
              rw [List.getElem?_cons_succ] at hget
              obtain ⟨hstream, hlast⟩ := hall i read hget
              rw [List.append_assoc, List.singleton_append, List.length_append, List.length_singleton]
                at hstream
              rw [show front.length + (i + 1) = front.length + 1 + i by omega]
              exact ⟨hstream, hlast.imp id fun h => by rw [h, List.length_cons]⟩
        · rcases hend with hlen | ⟨read, hlast, hret⟩
          · exact Or.inl (by rw [List.length_cons, List.length_cons, hlen])
          · exact Or.inr ⟨read, by rw [List.getLast?_cons, hlast]; rfl, hret⟩
      · simp only [hin, decide_false, Bool.false_eq_true, if_false]
        simp only [hin, decide_false] at hfirst
        refine ⟨_, rfl, ?_, Or.inr ⟨_, rfl, rfl⟩⟩
        intro i read hget
        cases i with
        | zero =>
            rw [List.getElem?_cons_zero, Option.some.injEq] at hget
            subst hget
            exact ⟨hfirst, Or.inr rfl⟩
        | succ i => cases hget

/-- **One stream.** Calls with any lengths answer as reads of the buffered bytes followed by the
data, until one of them returns 0; no counter wraps around. -/
theorem readCalls_stream {buf : Membuf} {data : Bytes} {lens : List Nat}
    (small : buf.size + data.length ≤ 2 ^ 31) (short : ∀ n ∈ lens, n < 2 ^ 32) :
    ∃ reads, readCalls data ⟨buf, 0, 0, 0⟩ lens = .ok reads ∧
      (∀ i read, reads[i]? = some read →
        StreamRead buf.content data lens i read ∧ (read.ret = true ∨ i + 1 = reads.length)) ∧
      (reads.length = lens.length ∨ ∃ read, reads.getLast? = some read ∧ read.ret = false) := by
  have hstart : CursorAt ⟨buf, 0, 0, 0⟩ buf.content data ([] : List Nat).sum := CursorAt.start buf data
  rw [← buf.length_content] at small
  obtain ⟨reads, hreads, hall, hend⟩ := readCalls_from hstart small short
  refine ⟨reads, hreads, fun i read hget => ?_, hend⟩
  have hread := hall i read hget
  rwa [List.nil_append, List.length_nil, Nat.zero_add] at hread

theorem readCalls_stream_two :
    (membufInit 128).size + ([1, 2, 3] : Bytes).length ≤ 2 ^ 31 ∧ (∀ n ∈ [1, 1], n < 2 ^ 32) ∧
    ∃ reads, readCalls [1, 2, 3] ⟨membufInit 128, 0, 0, 0⟩ [1, 1] = .ok reads ∧
      (∀ i read, reads[i]? = some read →
        StreamRead (membufInit 128).content [1, 2, 3] [1, 1] i read ∧
          (read.ret = true ∨ i + 1 = reads.length)) ∧
      (reads.length = ([1, 1] : List Nat).length ∨
        ∃ read, reads.getLast? = some read ∧ read.ret = false) :=
  ⟨by decide, by decide, readCalls_stream (by decide) (by decide)⟩

end AnotherWs
