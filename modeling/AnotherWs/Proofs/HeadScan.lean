/-
Module: AnotherWs.Proofs.HeadScan
Purpose: How far parse_http_heads gets into the buffer of a read, and when the bytes that were received
  settle its result.
Trusted boundary: none
Main exports: strstrScan_run, skipSpacesScan_run, strchrScan_run, parseHttpHeadsScan_run,
  parseHttpHeadsScan_of_ok, Settled, handshakeScan_settled
-/
import AnotherWs.Core.HeadScan
import AnotherWs.Proofs.HttpHead

namespace AnotherWs

open Scans

/-! ### Single scans -/

section Scans

variable {mem : Bytes}

theorem getElem?_of_drop {p : Nat} {c : UInt8} {rest : Bytes} (h : mem.drop p = c :: rest) :
    mem[p]? = some c ∧ mem.drop (p + 1) = rest := by
  constructor
  · rw [← List.head?_drop, h]
    rfl
  · rw [← List.drop_drop, h]
    rfl

theorem getElem?_of_drop_nil {p : Nat} (h : mem.drop p = []) : mem[p]? = none := by
  rw [← List.head?_drop, h]
  rfl

/-- A pattern is there, differs somewhere, or the memory ends before either is known. -/
theorem matchAt_run (pattern : Bytes) (p : Nat) :
    (matchAt p pattern).run mem =
      if pattern <+: mem.drop p then some (true, mem)
      else if mem.drop p <+: pattern then none else some (false, mem) := by
  induction pattern generalizing p with
  | nil => simp [matchAt, Scan.run]
  | cons c pattern ih =>
      rw [matchAt, Scan.run]
      cases hdrop : mem.drop p with
      | nil =>
          rw [getElem?_of_drop_nil hdrop]
          simp
      | cons d rest =>
          obtain ⟨hread, hnext⟩ := getElem?_of_drop hdrop
          rw [hread]
          dsimp only
          by_cases hd : d = c
          · subst hd
            rw [if_pos rfl, ih, hnext]
            simp only [List.cons_prefix_cons, true_and]
          · simp [hd, Ne.symm hd, Scan.run]

/-- A pattern without a zero does not reach across a zero. -/
theorem prefix_takeWhile_iff {pattern rest : Bytes} (text : 0 ∉ pattern) :
    pattern <+: rest.takeWhile (· ≠ 0) ↔ pattern <+: rest := by
  constructor
  · exact fun h => h.trans (List.takeWhile_prefix _)
  · rintro ⟨tail, rfl⟩
    rw [takeWhile_text text]
    exact List.prefix_append _ _

/-- `strstr` finds the first occurrence in the string, or the end of the string; without an end it runs
out of the memory. -/
theorem strstrScan_run {pattern : Bytes} (text : 0 ∉ pattern) (nonempty : pattern ≠ []) {steps p : Nat}
    (enough : mem.length ≤ p + steps) :
    (strstrScan pattern steps p).run mem =
      match Search.offset pattern ((mem.drop p).takeWhile (· ≠ 0)) with
      | some n => some (some (p + n), mem)
      | none => if 0 ∈ mem.drop p then some (none, mem) else none := by
  induction steps generalizing p with
  | zero =>
      have hdrop : mem.drop p = [] := List.drop_eq_nil_iff.mpr enough
      rw [strstrScan, Scan.run, getElem?_of_drop_nil hdrop, hdrop]
      simp [Search.offset, nonempty]
  | succ steps ih =>
      rw [strstrScan, Scan.run_bind, matchAt_run]
      cases hdrop : mem.drop p with
      | nil => simp [Search.offset, nonempty]
      | cons c rest =>
          obtain ⟨hread, hnext⟩ := getElem?_of_drop hdrop
          by_cases hfound : pattern <+: c :: rest
          · rw [if_pos hfound, Search.offset_of_isPrefix ((prefix_takeWhile_iff text).mpr hfound)]
            simp [Scan.run]
          · rw [if_neg hfound]
            by_cases hshort : c :: rest <+: pattern
            · -- the memory ends in the middle of an occurrence
              have hzero : 0 ∉ c :: rest := fun h => text (hshort.subset h)
              have hwhole : (c :: rest).takeWhile (· ≠ 0) = c :: rest := by
                have := takeWhile_text hzero []
                simpa using this
              have hnone : Search.offset pattern (c :: rest) = none := by
                rw [Search.offset_eq_none_iff]
                intro hin
                have hle := hin.length_le
                exact hfound ((hshort.eq_of_length_le hle).symm ▸ List.prefix_refl _)
              rw [if_pos hshort, hwhole, hnone, if_neg hzero]
              rfl
            · rw [if_neg hshort]
              simp only [Option.bind_some, Bool.false_eq_true, if_false, Scan.run, hread]
              by_cases hc : c = 0
              · subst hc
                simp [Search.offset, nonempty, Scan.run]
              · have htake : (c :: rest).takeWhile (· ≠ 0) = c :: rest.takeWhile (· ≠ 0) :=
                  List.takeWhile_cons_of_pos (by simpa using hc)
                have hnot : ¬ pattern <+: c :: rest.takeWhile (· ≠ 0) := by
                  rw [← htake, prefix_takeWhile_iff text]
                  exact hfound
                have hoffset : Search.offset pattern (c :: rest.takeWhile (· ≠ 0)) =
                    (Search.offset pattern (rest.takeWhile (· ≠ 0))).map fun n => n + 1 := by
                  rw [Search.offset, if_neg hnot]
                rw [if_neg hc, ih (by omega), hnext, htake, hoffset]
                cases Search.offset pattern (rest.takeWhile (· ≠ 0)) with
                | none => simp [Ne.symm hc]
                | some n =>
                    simp only [Option.map_some]
                    rw [show p + 1 + n = p + (n + 1) by omega]

/-- White space ends at the first other byte. -/
theorem skipSpacesScan_run {steps p : Nat} (enough : mem.length ≤ p + steps) :
    (skipSpacesScan steps p).run mem =
      if (mem.drop p).dropWhile isspace = [] then none
      else some (p + ((mem.drop p).takeWhile isspace).length, mem) := by
  induction steps generalizing p with
  | zero =>
      have hdrop : mem.drop p = [] := List.drop_eq_nil_iff.mpr enough
      rw [skipSpacesScan, Scan.run, getElem?_of_drop_nil hdrop, hdrop]
      rfl
  | succ steps ih =>
      rw [skipSpacesScan, Scan.run]
      cases hdrop : mem.drop p with
      | nil =>
          rw [getElem?_of_drop_nil hdrop]
          rfl
      | cons c rest =>
          obtain ⟨hread, hnext⟩ := getElem?_of_drop hdrop
          rw [hread]
          dsimp only
          cases hc : isspace c with
          | true =>
              rw [if_pos rfl, ih (by omega), hnext, List.takeWhile_cons_of_pos hc,
                List.dropWhile_cons_of_pos hc, List.length_cons,
                show p + 1 + (rest.takeWhile isspace).length =
                  p + ((rest.takeWhile isspace).length + 1) by omega]
          | false =>
              rw [List.takeWhile_cons_of_neg (by rw [hc]; exact Bool.false_ne_true),
                List.dropWhile_cons_of_neg (by rw [hc]; exact Bool.false_ne_true)]
              simp [Scan.run]

/-- What ends a value: a carriage return or the end of the string. -/
def StopsValue (c : UInt8) : Prop := c = 0x0d ∨ c = 0

/-- `strchr` passes what stands in front of the first byte that stops a value. -/
theorem strchrScan_run {steps p : Nat} (enough : mem.length ≤ p + steps) :
    (strchrScan 0x0d steps p).run mem =
      match (mem.drop p).dropWhile (fun c => c ≠ 0x0d && c ≠ 0) with
      | [] => none
      | c :: _ => some (((mem.drop p).takeWhile (fun c => c ≠ 0x0d && c ≠ 0), c = 0x0d), mem) := by
  induction steps generalizing p with
  | zero =>
      have hdrop : mem.drop p = [] := List.drop_eq_nil_iff.mpr enough
      rw [strchrScan, Scan.run, getElem?_of_drop_nil hdrop, hdrop]
      rfl
  | succ steps ih =>
      rw [strchrScan, Scan.run]
      cases hdrop : mem.drop p with
      | nil =>
          rw [getElem?_of_drop_nil hdrop]
          rfl
      | cons c rest =>
          obtain ⟨hread, hnext⟩ := getElem?_of_drop hdrop
          rw [hread]
          dsimp only
          by_cases hreturn : c = 0x0d
          · subst hreturn
            simp [Scan.run]
          · by_cases hzero : c = 0
            · subst hzero
              simp [Scan.run]
            · rw [if_neg hreturn, if_neg hzero, Scan.run_bind, ih (by omega), hnext,
                List.takeWhile_cons_of_pos (by simp [hreturn, hzero]),
                List.dropWhile_cons_of_pos (by simp [hreturn, hzero])]
              cases rest.dropWhile (fun c => c ≠ 0x0d && c ≠ 0) with
              | nil => rfl
              | cons d tail => rfl

end Scans

/-! ### The whole function -/

section Heads

/-- The bytes that were received settle what is found in them: a string without the end of a head, a
head without the field, a field with a character behind it in the head, or a field at the very end
of the head and a value behind the empty line that ends in the bytes as well. -/
inductive Settled (name recv : Bytes) : Prop where
  | unended (open_ : Search.offset headEnd (recv.takeWhile (· ≠ 0)) = none) (terminated : 0 ∈ recv)
  | absent {k : Nat} (ended : Search.offset headEnd (recv.takeWhile (· ≠ 0)) = some k)
      (missing : Search.offset name (recv.take k) = none)
  | inside {k j : Nat} (ended : Search.offset headEnd (recv.takeWhile (· ≠ 0)) = some k)
      (found : Search.offset name (recv.take k) = some j) (more : j + name.length < k)
  | behind {k j : Nat} (ended : Search.offset headEnd (recv.takeWhile (· ≠ 0)) = some k)
      (found : Search.offset name (recv.take k) = some j) (last : j + name.length = k)
      (stops : ∃ c ∈ (recv.drop (k + 1)).dropWhile isspace, StopsValue c)

variable {name mem : Bytes} {k j : Nat}

/-- They find the value of the line if something stops it. -/
theorem valueScan_run {cap : Nat} (enough : mem.length ≤ cap) (q : Nat) :
    ((∃ c ∈ (mem.drop q).dropWhile isspace, StopsValue c) →
      ∃ mem', (valueScan cap q).run mem = some (some (lineValue (mem.drop q)), mem')) ∧
    ((¬ ∃ c ∈ (mem.drop q).dropWhile isspace, StopsValue c) →
      (valueScan cap q).run mem = none) := by
  have hskip := @skipSpacesScan_run mem cap q (by omega)
  have hscan := @strchrScan_run mem cap (q + ((mem.drop q).takeWhile isspace).length) (by omega)
  rw [← List.drop_drop, drop_length_takeWhile] at hscan
  have hstops : (∃ c ∈ (mem.drop q).dropWhile isspace, StopsValue c) ↔
      ((mem.drop q).dropWhile isspace).dropWhile (fun c => c ≠ 0x0d && c ≠ 0) ≠ [] := by
    rw [Ne, List.dropWhile_eq_nil_iff]
    simp only [StopsValue, not_forall, exists_prop]
    refine exists_congr fun c => and_congr_right fun _ => ?_
    by_cases hreturn : c = 0x0d <;> by_cases hzero : c = 0 <;> simp [hreturn, hzero]
  rw [valueScan, Scan.run_bind, hskip, hstops]
  constructor
  · intro hstop
    have hline : (mem.drop q).dropWhile isspace ≠ [] := by
      intro hnil
      rw [hnil] at hstop
      exact hstop rfl
    obtain ⟨c, rest, hcons⟩ := List.exists_cons_of_ne_nil hstop
    have hread := List.takeWhile_append_dropWhile (p := fun c => c ≠ 0x0d && c ≠ 0)
      (l := (mem.drop q).dropWhile isspace)
    rw [hcons] at hread
    have hlen := congrArg List.length hread
    rw [← drop_length_takeWhile isspace, List.drop_drop, List.length_append, List.length_drop,
      List.length_cons, ← List.drop_drop, drop_length_takeWhile] at hlen
    rw [if_neg hline, Option.bind_some, Scan.run_bind, hscan, hcons]
    dsimp only
    rw [Option.bind_some]
    cases hc : decide (c = 0x0d) with
    | true => exact ⟨_, by rw [if_pos rfl, Scan.run, if_pos (by dsimp only; omega)]; rfl⟩
    | false => exact ⟨_, rfl⟩
  · intro hstop
    rw [not_not] at hstop
    by_cases hline : (mem.drop q).dropWhile isspace = []
    · rw [if_pos hline]
      rfl
    · rw [if_neg hline, Option.bind_some, Scan.run_bind, hscan, hstop]
      rfl

/-- What stands behind the name stops the scans when the bytes settle the result. -/
theorem stops_of_settled (ended : Search.offset headEnd (mem.takeWhile (· ≠ 0)) = some k)
    (found : Search.offset name (mem.take k) = some j) :
    Settled name mem ↔
      ∃ c ∈ ((mem.set k 0).drop (j + (name.length + 1))).dropWhile isspace, StopsValue c := by
  obtain ⟨hk, -⟩ := offset_headEnd ended
  have hlen : j + name.length ≤ k := by
    obtain ⟨before, after, hsplit, hj⟩ := Search.offset_split found
    have hlength := congrArg List.length hsplit
    rw [List.length_append, List.length_append, List.length_take] at hlength
    omega
  rw [set_cut (by omega)]
  rcases Nat.eq_or_lt_of_le hlen with hlast | hmore
  · -- the name ends the head, so the scans start behind its end
    have hdrop : (mem.take k ++ 0 :: mem.drop (k + 1)).drop (j + (name.length + 1)) =
        mem.drop (k + 1) := by
      rw [show j + (name.length + 1) = (mem.take k).length + 1 by rw [List.length_take]; omega,
        ← List.drop_drop, List.drop_left]
      rfl
    rw [hdrop]
    constructor
    · intro settled
      cases settled with
      | unended open_ _ => rw [ended] at open_; cases open_
      | absent ended' missing =>
          rw [ended] at ended'
          cases ended'
          rw [found] at missing
          cases missing
      | inside ended' found' more =>
          rw [ended] at ended'
          cases ended'
          rw [found] at found'
          cases found'
          omega
      | behind ended' found' last stops =>
          rw [ended] at ended'
          cases ended'
          exact stops
    · exact fun stops => .behind ended found hlast stops
  · -- the zero that cuts the head stops them
    refine iff_of_true (.inside ended found hmore) ⟨0, ?_, Or.inr rfl⟩
    rw [List.drop_append_of_le_length (by rw [List.length_take]; omega), List.dropWhile_append]
    split
    · exact List.mem_cons_self
    · exact List.mem_append_right _ List.mem_cons_self

/-- **The whole scan.** It stays inside the buffer exactly when the bytes of the buffer settle the
result, and then it returns the value of the field. -/
theorem parseHttpHeadsScan_run (text : 0 ∉ name) (nonempty : name ≠ []) {cap : Nat}
    (enough : mem.length ≤ cap) :
    (Settled name mem →
      ∃ mem', (parseHttpHeadsScan cap name).run mem = some (headValue name mem, mem')) ∧
    (¬ Settled name mem → (parseHttpHeadsScan cap name).run mem = none) := by
  have hfirst := @strstrScan_run mem headEnd (by decide) (by decide) cap 0 (by omega)
  rw [List.drop_zero] at hfirst
  rw [parseHttpHeadsScan, Scan.run_bind, hfirst]
  cases hend : Search.offset headEnd (mem.takeWhile (· ≠ 0)) with
  | none =>
      have hsettled : Settled name mem ↔ 0 ∈ mem := by
        constructor
        · intro settled
          cases settled with
          | unended _ terminated => exact terminated
          | absent ended _ => rw [hend] at ended; cases ended
          | inside ended _ _ => rw [hend] at ended; cases ended
          | behind ended _ _ _ => rw [hend] at ended; cases ended
        · exact fun terminated => .unended hend terminated
      dsimp only
      rw [hsettled]
      refine ⟨fun hzero => ⟨mem, ?_⟩, fun hzero => ?_⟩
      · rw [if_pos hzero, headValue, hend]
        rfl
      · rw [if_neg hzero]
        rfl
  | some k =>
      obtain ⟨hk, -⟩ := offset_headEnd hend
      have hsecond := @strstrScan_run (mem.set k 0) name text nonempty cap 0 (by
        rw [List.length_set]
        omega)
      have hzero : (0 : UInt8) ∈ mem.set k 0 := List.mem_set (by omega) 0
      rw [List.drop_zero, takeWhile_cut hend, if_pos hzero] at hsecond
      simp only [Option.bind_some, Scan.run, Nat.zero_add, show k < mem.length by omega, if_true]
      rw [Scan.run_bind, hsecond]
      cases hname : Search.offset name (mem.take k) with
      | none =>
          refine ⟨fun _ => ⟨mem.set k 0, ?_⟩, fun h => absurd (.absent hend hname) h⟩
          rw [headValue, hend]
          simp only [Option.bind_some, hname]
          rfl
      | some j =>
          have hvalue := @valueScan_run (mem.set k 0) cap (by rw [List.length_set]; omega)
            (j + (name.length + 1))
          simp only [Option.bind_some, Nat.zero_add]
          rw [stops_of_settled hend hname, headValue, hend, Option.bind_some, hname, Option.map_some,
            ← set_cut (by omega)]
          exact hvalue

/-- A zero in the buffer settles the result. -/
theorem settled_of_zero (terminated : 0 ∈ mem) (name : Bytes) : Settled name mem := by
  cases hend : Search.offset headEnd (mem.takeWhile (· ≠ 0)) with
  | none => exact .unended hend terminated
  | some k =>
      cases hname : Search.offset name (mem.take k) with
      | none => exact .absent hend hname
      | some j =>
          exact (stops_of_settled hend hname).mpr
            ⟨0, zero_behind_spaces (zero_behind terminated hend hname), Or.inr rfl⟩

/-- A result of the calls of the C library is the result of the scan. -/
theorem settled_of_ok {value : Option Bytes} (ok : parseHttpHeads mem name = .ok value) :
    Settled name mem ∧ value = headValue name mem := by
  have hzero : 0 ∈ mem := by
    obtain ⟨text, htext, -⟩ := bind_eq_ok.mp ok
    rw [cString, List.drop_zero] at htext
    split at htext
    · assumption
    · cases htext
  rw [parseHttpHeads_terminated hzero] at ok
  cases ok
  exact ⟨settled_of_zero hzero name, rfl⟩

/-- So both models of `parse_http_heads` agree wherever the calls of the C library are defined. -/
theorem parseHttpHeadsScan_of_ok (text : 0 ∉ name) (nonempty : name ≠ []) {cap : Nat}
    (enough : mem.length ≤ cap) {value : Option Bytes} (ok : parseHttpHeads mem name = .ok value) :
    ∃ mem', (parseHttpHeadsScan cap name).run mem = some (value, mem') := by
  obtain ⟨hsettled, rfl⟩ := settled_of_ok ok
  exact (parseHttpHeadsScan_run text nonempty enough).1 hsettled

end Heads

/-! ### Reads of the handshake -/

/-- What follows the received bytes in the buffer: anything for the client, zeros for the server. -/
def Residue (endpoint : EndpointType) (room : Nat) (rest : Bytes) : Prop :=
  rest.length = room ∧ (endpoint = .server → ∀ c ∈ rest, c = 0)

/-- The received bytes alone decide: every two residues lead to the same decision with the same
text, and `parse_http_heads` looks at no byte behind those received. -/
def DecidedBy (endpoint : EndpointType) (recv : Bytes) (room : Nat) : Prop :=
  (∀ rest other, Residue endpoint room rest → Residue endpoint room other →
    ((handshakeScan endpoint (recv.length + room)).run (recv ++ rest)).map Prod.fst =
      ((handshakeScan endpoint (recv.length + room)).run (recv ++ other)).map Prod.fst) ∧
  ∀ rest, Residue endpoint room rest →
    (parseHttpHeadsScan (recv.length + room) (handshakeField endpoint)).reach (recv ++ rest) ≤
      recv.length

theorem handshakeField_text (endpoint : EndpointType) :
    0 ∉ handshakeField endpoint ∧ handshakeField endpoint ≠ [] := by
  cases endpoint <;> exact ⟨by decide +kernel, by decide +kernel⟩

/-- **Decisions.** The received bytes alone decide exactly when they settle what is found in them. -/
theorem handshakeScan_settled (endpoint : EndpointType) (recv : Bytes) (room : Nat) :
    DecidedBy endpoint recv room ↔ Settled (handshakeField endpoint) recv := by
  obtain ⟨htext, hnonempty⟩ := handshakeField_text endpoint
  have hrun := parseHttpHeadsScan_run htext hnonempty
    (show recv.length ≤ recv.length + room by omega)
  constructor
  · intro h
    have hzeros : Residue endpoint room (List.replicate room 0) :=
      ⟨List.length_replicate, fun _ c hc => (List.mem_replicate.mp hc).2⟩
    obtain ⟨value, front', -, hvalue, -⟩ := Scan.run_local (h.2 _ hzeros)
    by_contra hnot
    rw [hrun.2 hnot] at hvalue
    cases hvalue
  · intro hsettled
    obtain ⟨mem', hvalue⟩ := hrun.1 hsettled
    have hinside := (Scan.run_isSome_iff _ _).mp (show (_ : Option _).isSome by rw [hvalue]; rfl)
    obtain ⟨value, front', hreach, -, hother⟩ := @Scan.run_local _ _ _ recv [] (by
      rwa [List.append_nil])
    rw [← hreach] at hother
    refine ⟨fun rest other _ _ => ?_, fun rest _ => ?_⟩
    · unfold handshakeScan
      rw [Scan.run_bind, Scan.run_bind, (hother rest).2, (hother other).2]
      rfl
    · rw [(hother rest).1]
      exact hinside

/-- What an earlier read may have left in the memory of the client's buffer. -/
def staleResponse : Bytes := ascii "\r\nSec-WebSocket-Accept: abc\r\n\r\n" ++ [0]

/-- The first byte of a response arrives alone. What the buffer held before makes the client take it for
the whole handshake; with zeros behind it the client waits. -/
theorem handshakeScan_residue :
    ((handshakeScan .client 33).run (ascii "H" ++ staleResponse)).map Prod.fst =
      some (.accept (ascii "abc")) ∧
    ((handshakeScan .client 33).run (ascii "H" ++ List.replicate 32 0)).map Prod.fst = some .wait ∧
    ¬ DecidedBy .client (ascii "H") 32 := by
  have hstale : ((handshakeScan .client 33).run (ascii "H" ++ staleResponse)).map Prod.fst =
      some (.accept (ascii "abc")) := by decide +kernel
  have hzeros : ((handshakeScan .client 33).run (ascii "H" ++ List.replicate 32 0)).map Prod.fst =
      some .wait := by decide +kernel
  refine ⟨hstale, hzeros, fun h => ?_⟩
  have hsame := h.1 staleResponse (List.replicate 32 0) ⟨by decide +kernel, fun h => (by cases h)⟩
    ⟨List.length_replicate, fun h => (by cases h)⟩
  rw [show (ascii "H").length + 32 = 33 by decide +kernel, hstale, hzeros] at hsame
  cases hsame

end AnotherWs
