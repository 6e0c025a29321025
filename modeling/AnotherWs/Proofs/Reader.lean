/-
Module: AnotherWs.Proofs.Reader
Purpose: The mixed-source reader behaves as a reader of one stream, the buffered bytes followed by the
  fresh ones.
Trusted boundary: none
Main exports: CursorAt, readCharFromBufOrData_ok, readCharFromBufOrData_error
-/
import AnotherWs.Core.Protocol

namespace AnotherWs

/-- The cursor stands `k` bytes into the stream `p ++ d`, where `p` was buffered before the call and
`d` is the fresh data. -/
structure CursorAt (cursor : ReadCursor) (p d : Bytes) (k : Nat) : Prop where
  bufRead_eq : cursor.bufRead = k
  dataRead_eq : cursor.dataRead = k - p.length
  realReadNum_eq : cursor.realReadNum = k - p.length
  content_eq : cursor.buf.content = p ++ d.take (k - p.length)
  le : k ≤ p.length + d.length

theorem CursorAt.start (buf : Membuf) (d : Bytes) :
    CursorAt ⟨buf, 0, 0, 0⟩ buf.content d 0 := by
  constructor <;> simp

/-- The buffer holds the old bytes and whatever has been read beyond them. -/
theorem CursorAt.size_eq {cursor : ReadCursor} {p d : Bytes} {k : Nat}
    (at_ : CursorAt cursor p d k) : cursor.buf.size = max p.length k := by
  have hle := at_.le
  rw [← cursor.buf.length_content, at_.content_eq, List.length_append, List.length_take]
  omega

/-- A slice of the stream is what is left of the buffer followed by a slice of the data. -/
theorem slice_append (p d : Bytes) (k n : Nat) :
    ((p ++ d).drop k).take n =
      (p.drop k).take n ++ (d.drop (k - p.length)).take (n - (p.length - k)) := by
  rw [List.drop_append, List.take_append, List.length_drop]

/-- The unread bytes of the buffer are the unread bytes of `p`. -/
theorem CursorAt.drop_content {cursor : ReadCursor} {p d : Bytes} {k : Nat}
    (at_ : CursorAt cursor p d k) : cursor.buf.content.drop k = p.drop k := by
  rw [at_.content_eq]
  rcases Nat.lt_or_ge k p.length with hlt | hge
  · rw [Nat.sub_eq_zero_of_le (Nat.le_of_lt hlt), List.take_zero, List.append_nil]
  · rw [List.drop_append, List.drop_eq_nil_of_le hge, List.nil_append]
    exact List.drop_eq_nil_of_le (by rw [List.length_take]; omega)

/-- Copying the next data bytes into the buffer moves the cursor over them. -/
theorem CursorAt.append {cursor : ReadCursor} {p d : Bytes} {k : Nat}
    (at_ : CursorAt cursor p d k) {rest : Nat} {buf : Membuf}
    (hrest : max p.length k + rest ≤ p.length + d.length)
    (appended : membufAppendData cursor.buf ((d.drop (k - p.length)).take rest) = .ok buf) :
    CursorAt
      { buf := buf
        bufRead := k + (p.length - k) + rest
        dataRead := k - p.length + rest
        realReadNum := k - p.length + rest } p d (max p.length k + rest) where
  bufRead_eq := by simp only; omega
  dataRead_eq := by simp only; omega
  realReadNum_eq := by simp only; omega
  content_eq := by
    have hsum : max p.length k + rest - p.length = k - p.length + rest := by omega
    rw [hsum, List.take_add, (membufAppendData_content appended).1, at_.content_eq,
      List.append_assoc]
  le := hrest

/-- A read within the stream returns 1 with the next bytes; a read past its end returns 0 with what
was left, and has consumed everything. It succeeds whenever the buffer stays within `2 ^ 31`. -/
theorem readCharFromBufOrData_ok {cursor : ReadCursor} {p d : Bytes} {k n : Nat}
    (at_ : CursorAt cursor p d k)
    (small : max p.length (min (k + n) (p.length + d.length)) ≤ 2 ^ 31) :
    ∃ cursor', readCharFromBufOrData cursor d n =
        .ok ⟨decide (k + n ≤ p.length + d.length), ((p ++ d).drop k).take n, cursor'⟩ ∧
      CursorAt cursor' p d (min (k + n) (p.length + d.length)) ∧
      cursor'.buf.flag = cursor.buf.flag ∧ (cursor.buf.Doubled → cursor'.buf.Doubled) := by
  have hsize := at_.size_eq
  have hle := at_.le
  have hunread : cursor.buf.size - k = p.length - k := by omega
  rw [slice_append]
  unfold readCharFromBufOrData
  simp only [at_.bufRead_eq, at_.dataRead_eq, at_.realReadNum_eq, at_.drop_content, hunread]
  by_cases hbuf : k + n ≤ cursor.buf.size
  · -- served from the buffer alone
    rw [if_pos hbuf]
    have hdata : (d.drop (k - p.length)).take (n - (p.length - k)) = [] := by
      have hnone : n - (p.length - k) = 0 := by omega
      rw [hnone, List.take_zero]
    have hin : k + n ≤ p.length + d.length := by omega
    refine ⟨{ cursor with bufRead := k + n }, ?_, ?_, rfl, id⟩
    · rw [hdata, List.append_nil, decide_eq_true hin]
      cases cursor
      have := at_.dataRead_eq
      have := at_.realReadNum_eq
      simp_all
    · rw [Nat.min_eq_left hin]
      have hsame : k + n - p.length = k - p.length := by omega
      constructor
      · rfl
      · rw [hsame]
        exact at_.dataRead_eq
      · rw [hsame]
        exact at_.realReadNum_eq
      · rw [hsame]
        exact at_.content_eq
      · exact hin
  · rw [if_neg hbuf]
    have hall : (p.drop k).take (p.length - k) = p.drop k :=
      List.take_of_length_le (by rw [List.length_drop])
    have hmore : (p.drop k).take n = p.drop k :=
      List.take_of_length_le (by rw [List.length_drop]; omega)
    rw [hall, hmore]
    by_cases hin : k + n ≤ p.length + d.length
    · -- the data holds the rest
      rw [if_pos (by omega), decide_eq_true hin]
      have hroom : cursor.buf.size +
          ((d.drop (k - p.length)).take (n - (p.length - k))).length ≤ 2 ^ 31 := by
        rw [List.length_take, List.length_drop]
        omega
      obtain ⟨buf, happend, hdoubled⟩ := membufAppendData_ok _ _ hroom
      have hend : min (k + n) (p.length + d.length) =
          max p.length k + (n - (p.length - k)) := by omega
      simp only [happend, ok_bind]
      rw [hend]
      exact ⟨_, rfl, at_.append (by omega) happend, (membufAppendData_content happend).2, hdoubled⟩
    · -- the data runs out
      rw [if_neg (by omega), decide_eq_false hin]
      have hend : min (k + n) (p.length + d.length) =
          max p.length k + (d.length - (k - p.length)) := by omega
      have htake : (d.drop (k - p.length)).take (n - (p.length - k)) =
          (d.drop (k - p.length)).take (d.length - (k - p.length)) := by
        rw [List.take_of_length_le (by rw [List.length_drop]; omega),
          List.take_of_length_le (by rw [List.length_drop])]
      rw [htake, hend]
      by_cases havail : 0 < d.length - (k - p.length)
      · rw [if_pos havail]
        have hroom : cursor.buf.size +
            ((d.drop (k - p.length)).take (d.length - (k - p.length))).length ≤ 2 ^ 31 := by
          rw [List.length_take, List.length_drop]
          omega
        obtain ⟨buf, happend, hdoubled⟩ := membufAppendData_ok _ _ hroom
        simp only [happend, ok_bind]
        exact ⟨_, rfl, at_.append (by omega) happend, (membufAppendData_content happend).2,
          hdoubled⟩
      · rw [if_neg havail]
        have hnone : d.length - (k - p.length) = 0 := by omega
        rw [hnone, List.take_zero, List.append_nil]
        refine ⟨_, rfl, ?_, rfl, id⟩
        have hsame : max p.length k - p.length = k - p.length := by omega
        constructor
        · simp only
          omega
        · simp only
          omega
        · simp only
          omega
        · rw [Nat.add_zero, hsame]
          exact at_.content_eq
        · omega

/-- A buffer that has only grown by doubling cannot be read into past `2 ^ 31` bytes. -/
theorem readCharFromBufOrData_error {cursor : ReadCursor} {p d : Bytes} {k n : Nat}
    (at_ : CursorAt cursor p d k) (doubled : cursor.buf.Doubled)
    (large : 2 ^ 31 < min (k + n) (p.length + d.length)) :
    ∃ fault, readCharFromBufOrData cursor d n = .error fault := by
  have hsize := at_.size_eq
  have hcap := doubled.size_le
  have hle := at_.le
  have hunread : cursor.buf.size - k = p.length - k := by omega
  unfold readCharFromBufOrData
  simp only [at_.bufRead_eq, at_.dataRead_eq, hunread]
  rw [if_neg (by omega)]
  by_cases hin : k + n ≤ p.length + d.length
  · rw [if_pos (by omega)]
    have hroom : 2 ^ 31 < cursor.buf.size +
        ((d.drop (k - p.length)).take (n - (p.length - k))).length := by
      rw [List.length_take, List.length_drop]
      omega
    obtain ⟨fault, happend⟩ := membufAppendData_error doubled hroom
    exact ⟨fault, by rw [happend, error_bind]⟩
  · rw [if_neg (by omega), if_pos (by omega)]
    have hroom : 2 ^ 31 < cursor.buf.size +
        ((d.drop (k - p.length)).take (d.length - (k - p.length))).length := by
      rw [List.length_take, List.length_drop]
      omega
    obtain ⟨fault, happend⟩ := membufAppendData_error doubled hroom
    exact ⟨fault, by rw [happend, error_bind]⟩

end AnotherWs
