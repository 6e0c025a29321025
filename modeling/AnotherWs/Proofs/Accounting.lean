/-
Module: AnotherWs.Proofs.Accounting
Purpose: What one call of try_parse_protocol takes from its chunk. It always takes something, it stops
  behind the first complete frame, and what it has taken is what its buffer or its frame consists of.
Trusted boundary: none
Main exports: FirstUnit, ParseReachable, Accounts, tryParseProtocol_accounts
-/
import AnotherWs.Proofs.ReadLoop

namespace AnotherWs

open Framing

/-- One whole frame, and no shorter prefix of it is one. -/
structure FirstUnit (u : Bytes) : Prop where
  whole : frameScan u = .unit u.length
  shortest : ∀ m < u.length, frameScan (u.take m) = .more

/-- The handles that `try_parse_protocol` leaves behind, on whatever it is called with. -/
inductive ParseReachable : WebsocketHandle → Prop where
  | allocated {hd : WebsocketHandle} (allocated : Allocated hd) : ParseReachable hd
  | parsed {hd hd' : WebsocketHandle} {data : Bytes} {ret : Bool} (before : ParseReachable hd)
      (call : tryParseProtocol hd data = .ok (ret, hd')) : ParseReachable hd'

/-- What a call accounts for: the bytes that it took are the front of its chunk. -/
structure Accounts (hd : WebsocketHandle) (data : Bytes) (ret : Bool) (hd' : WebsocketHandle) :
    Prop where
  positive : 1 ≤ hd'.readCount
  inside : hd'.readCount ≤ data.length
  returns : ret = true ↔ hd'.parseState = .complete
  incomplete : hd'.parseState = .incomplete →
    hd'.readCount = data.length ∧ hd'.protoBuf.content = hd.pending ++ data
  complete : hd'.parseState = .complete →
    FirstUnit (hd.pending ++ data.take hd'.readCount) ∧
      hd'.toFrameHeader = applyHeader hd.base (hd.pending ++ data.take hd'.readCount) ∧
      hd'.protoBuf.content = frameContent (hd.pending ++ data.take hd'.readCount)
  failed : hd'.parseState = .failed →
    Malformed (hd.pending ++ data.take hd'.readCount) ∧
      hd'.protoBuf.content = hd.pending ++ data.take hd'.readCount
  /-- What lies behind the bytes that were taken does not matter. -/
  unseen : hd'.parseState ≠ .incomplete → ∀ rest, ∃ hd'',
    tryParseProtocol hd (data.take hd'.readCount ++ rest) = .ok (ret, hd'') ∧
      hd''.readCount = hd'.readCount ∧ hd''.view = hd'.view

/-! ### The handle between two calls -/

/-- What a handle carries from one call into the next: an open frame or a malformed length, in a buffer
that has grown by doubling. -/
structure Parsing (hd : WebsocketHandle) : Prop where
  doubled : hd.protoBuf.Doubled
  unfinished : frameScan hd.pending = .more ∨ (Malformed hd.pending ∧ hd.pending.length = 6)
  failed_iff : hd.parseState = .failed ↔ Malformed hd.pending
  small : hd.pending.length ≤ 2 ^ 31

theorem Malformed.ne_nil {w : Bytes} (h : Malformed w) : w ≠ [] := by
  rintro rfl
  exact absurd h.2.1 (by simp)

/-- Between two frames nothing is carried. -/
theorem Parsing.of_complete {hd : WebsocketHandle} (doubled : hd.protoBuf.Doubled)
    (complete : hd.parseState = .complete) : Parsing hd := by
  have hnil : hd.pending = [] := if_pos complete
  refine ⟨doubled, ?_, ?_, ?_⟩
  · rw [hnil]
    exact Or.inl rfl
  · rw [hnil, complete]
    constructor
    · intro h
      cases h
    · intro hbad
      exact absurd rfl hbad.ne_nil
  · rw [hnil]
    exact Nat.zero_le _

theorem Allocated.parsing {hd : WebsocketHandle} (allocated : Allocated hd) : Parsing hd :=
  .of_complete allocated.sized.1 allocated.parseState_eq

namespace Parsing

variable {hd hd' : WebsocketHandle} {data : Bytes} {ret : Bool}

/-- A handle that is not in `PARSE_FAILED` carries an open frame. -/
theorem open_of_alive (parsing : Parsing hd) (alive : hd.parseState ≠ .failed) :
    frameScan hd.pending = .more := by
  rcases parsing.unfinished with hmore | ⟨hbad, -⟩
  · exact hmore
  · exact absurd (parsing.failed_iff.mpr hbad) alive

/-- A verdict on the bytes at hand lies behind what the handle carries, unless it carries a malformed
length. -/
theorem length_le (parsing : Parsing hd) {n : Nat}
    (settled : (frameScan (hd.pending ++ data)).size = some n) : hd.pending.length ≤ n := by
  rcases parsing.unfinished with hmore | ⟨hbad, hsix⟩
  · exact Nat.le_of_lt (Scanner.lt_of_more (S := frameScanner) hmore settled)
  · rw [frameScan_of_malformed (hbad.congr (agreeTo_append data (by omega))
      (by rw [List.length_append]; omega))] at settled
    cases settled
    omega

/-- What a call leaves of its handle when it has not completed a frame. -/
theorem of_parsedAs (parsing : Parsing hd) {header : FrameHeader} {content : Bytes} {count : Nat}
    {state : ParseState} (parsed : ParsedAs hd hd' header content state count)
    (unfinished : (state = .incomplete ∧ frameScan content = .more) ∨
      (state = .failed ∧ Malformed content ∧ content.length = 6))
    (small : content.length ≤ 2 ^ 31) : Parsing hd' := by
  have hpending : hd'.pending = content := by
    rw [WebsocketHandle.pending, parsed.state_eq, parsed.content_eq, if_neg]
    rcases unfinished with ⟨rfl, -⟩ | ⟨rfl, -⟩
    · intro h
      cases h
    · intro h
      cases h
  refine ⟨parsed.doubled parsing.doubled, ?_, ?_, by rwa [hpending]⟩
  · rw [hpending]
    rcases unfinished with ⟨-, hmore⟩ | ⟨-, hbad⟩
    · exact Or.inl hmore
    · exact Or.inr hbad
  · rw [hpending, parsed.state_eq]
    rcases unfinished with ⟨rfl, hmore⟩ | ⟨rfl, hbad, -⟩
    · constructor
      · intro h
        cases h
      · intro hbad
        rw [frameScan_of_malformed hbad] at hmore
        cases hmore
    · exact ⟨fun _ => hbad, fun _ => rfl⟩

/-- The bytes that a malformed length takes. -/
theorem take_six (parsing : Parsing hd) (hbad : Malformed (hd.pending ++ data)) :
    hd.pending.length ≤ 6 ∧
      hd.pending ++ data.take (6 - hd.pending.length) = (hd.pending ++ data).take 6 ∧
      Malformed ((hd.pending ++ data).take 6) ∧ ((hd.pending ++ data).take 6).length = 6 := by
  have hsix : hd.pending.length ≤ 6 :=
    parsing.length_le (by rw [frameScan_of_malformed hbad]; rfl)
  have hlen : ((hd.pending ++ data).take 6).length = 6 := by
    have := hbad.2.1
    rw [List.length_take]
    omega
  refine ⟨hsix, ?_, hbad.congr (agreeTo_take _ 6) (by omega), hlen⟩
  rw [List.take_append, List.take_of_length_le hsix]

end Parsing

/-! ### One call -/

/-- What a call that comes back has found in the carried bytes and the chunk. -/
inductive ParseCase (hd : WebsocketHandle) (data : Bytes) (ret : Bool) (hd' : WebsocketHandle) :
    Prop where
  | empty (nothing : data = []) (returned : ret = false)
      (same : hd' = { hd with readCount := 0 })
  | more (scan : frameScan (hd.pending ++ data) = .more) (returned : ret = false)
      (small : (hd.pending ++ data).length ≤ 2 ^ 31)
      (parsed : ParsedAs hd hd' (applyHeader hd.base (hd.pending ++ data)) (hd.pending ++ data)
        .incomplete data.length)
  | bad (malformed : Malformed (hd.pending ++ data)) (returned : ret = false)
      (parsed : ParsedAs hd hd' (applyHeader hd.base (hd.pending ++ data))
        (hd.pending ++ data.take (6 - hd.pending.length)) .failed (6 - hd.pending.length))
  | unit (n : Nat) (scan : frameScan (hd.pending ++ data) = .unit n) (returned : ret = true)
      (parsed : ParsedAs hd hd' (applyHeader hd.base (hd.pending ++ data))
        (frameContent ((hd.pending ++ data).take n)) .complete (n - hd.pending.length))

/-- A call that comes back has found no frame that its buffer could not hold. -/
theorem tryParseProtocol_cases {hd hd' : WebsocketHandle} {data : Bytes} {ret : Bool}
    (parsing : Parsing hd) (call : tryParseProtocol hd data = .ok (ret, hd')) :
    ParseCase hd data ret hd' := by
  by_cases nonempty : data = []
  · subst nonempty
    rw [tryParseProtocol, if_pos rfl] at call
    cases call
    exact .empty rfl rfl rfl
  · have hlen : (hd.pending ++ data).length = hd.pending.length + data.length := List.length_append
    have herror : ¬ Overlong (hd.pending ++ data) := by
      rintro ⟨hfield, good, hlarge⟩
      rw [hlen] at hlarge
      obtain ⟨fault, hfault⟩ :=
        tryParseProtocol_error nonempty parsing.doubled parsing.small hfield good hlarge
      rw [hfault] at call
      cases call
    cases hscan : frameScan (hd.pending ++ data) with
    | more =>
        have hsmall : (hd.pending ++ data).length ≤ 2 ^ 31 :=
          Nat.le_of_not_lt fun hlarge => herror (.of_more hscan hlarge)
        obtain ⟨hd₁, hcall, hparsed⟩ := tryParseProtocol_more nonempty hscan (by omega)
        rw [hcall] at call
        cases call
        exact .more hscan rfl hsmall hparsed
    | bad m =>
        have hbad := (frameScan_bad hscan).1
        obtain ⟨hd₁, hcall, hparsed⟩ := tryParseProtocol_bad nonempty hbad parsing.small
        rw [hcall] at call
        cases call
        exact .bad hbad rfl hparsed
    | unit n =>
        have hsmall : n ≤ 2 ^ 31 := Nat.le_of_not_lt fun hlarge => herror (.of_unit hscan hlarge)
        have hle := parsing.length_le (n := n) (by rw [hscan]; rfl)
        obtain ⟨hd₁, hcall, hparsed⟩ := tryParseProtocol_unit nonempty hscan hle hsmall
        rw [hcall] at call
        cases call
        exact .unit n hscan rfl hparsed

/-- Every call keeps what its handle carries in order. -/
theorem Parsing.step {hd hd' : WebsocketHandle} {data : Bytes} {ret : Bool} (parsing : Parsing hd)
    (call : tryParseProtocol hd data = .ok (ret, hd')) : Parsing hd' := by
  cases tryParseProtocol_cases parsing call with
  | empty nothing returned same =>
      subst same
      exact ⟨parsing.doubled, parsing.unfinished, parsing.failed_iff, parsing.small⟩
  | more scan returned small parsed => exact parsing.of_parsedAs parsed (Or.inl ⟨rfl, scan⟩) small
  | bad malformed returned parsed =>
      obtain ⟨-, htake, hcut, hlen⟩ := parsing.take_six malformed
      rw [htake] at parsed
      exact parsing.of_parsedAs parsed (Or.inr ⟨rfl, hcut, hlen⟩) (by omega)
  | unit n scan returned parsed =>
      exact .of_complete (parsed.doubled parsing.doubled) parsed.state_eq

/-- What every reachable handle carries. -/
theorem ParseReachable.parsing {hd : WebsocketHandle} (reachable : ParseReachable hd) :
    Parsing hd := by
  induction reachable with
  | allocated allocated => exact allocated.parsing
  | parsed before call ih => exact ih.step call

/-- Calls with one result leave handles of one view. -/
theorem ParsedAs.view_eq {hd hd₁ hd₂ : WebsocketHandle} {header : FrameHeader} {content : Bytes}
    {state : ParseState} {count : Nat} (first : ParsedAs hd hd₁ header content state count)
    (second : ParsedAs hd hd₂ header content state count) : hd₂.view = hd₁.view := by
  simp only [WebsocketHandle.view, first.header_eq, second.header_eq, first.content_eq,
    second.content_eq, first.state_eq, second.state_eq, first.flag_eq, second.flag_eq,
    first.mergeBuf_eq, second.mergeBuf_eq]

/-- A verdict that the whole stream settles is open on every shorter prefix. -/
theorem firstUnit_take {w : Bytes} {n : Nat} (scan : frameScan w = .unit n) :
    FirstUnit (w.take n) := by
  have hle : n ≤ w.length := Scanner.unit_le (S := frameScanner) scan
  have hlen : (w.take n).length = n := by
    rw [List.length_take]
    omega
  constructor
  · rw [hlen, ← scan]
    exact frameScanner.scan_take (by rw [show frameScanner.scan w = _ from scan]; rfl)
  · intro m hm
    rw [hlen] at hm
    rw [List.take_take, Nat.min_eq_left (Nat.le_of_lt hm)]
    exact Scanner.more_of_lt (S := frameScanner)
      (by rw [show frameScanner.scan w = _ from scan]; rfl) hm

/-- The bytes that a verdict rests on determine the header. -/
theorem applyHeader_front (base : FrameHeader) {v w : Bytes} {n : Nat}
    (settled : (frameScan w).size = some n) (settled' : (frameScan v).size = some n)
    (same : v.take n = w.take n) : applyHeader base v = applyHeader base w := by
  rw [← applyHeader_take base settled, ← applyHeader_take base settled', same]

/-- A complete frame is taken whatever lies behind it. -/
theorem unit_unseen {hd hd' : WebsocketHandle} {data : Bytes} {n : Nat} (small : n ≤ 2 ^ 31)
    (scan : frameScan (hd.pending ++ data) = .unit n)
    (parsed : ParsedAs hd hd' (applyHeader hd.base (hd.pending ++ data))
      (frameContent ((hd.pending ++ data).take n)) .complete (n - hd.pending.length))
    (lt : hd.pending.length < n) (rest : Bytes) :
    ∃ hd'', tryParseProtocol hd (data.take (n - hd.pending.length) ++ rest) = .ok (true, hd'') ∧
      hd''.readCount = hd'.readCount ∧ hd''.view = hd'.view := by
  have hsettled : (frameScan (hd.pending ++ data)).size = some n := by
    rw [scan]
    rfl
  have hfront : hd.pending ++ data.take (n - hd.pending.length) = (hd.pending ++ data).take n := by
    rw [List.take_append, List.take_of_length_le (Nat.le_of_lt lt)]
  have hunit := (firstUnit_take scan).whole
  have hle : n ≤ (hd.pending ++ data).length := Scanner.unit_le (S := frameScanner) scan
  have hlen : ((hd.pending ++ data).take n).length = n := by
    rw [List.length_take]
    omega
  rw [hlen] at hunit
  have hagain : frameScan (hd.pending ++ (data.take (n - hd.pending.length) ++ rest)) = .unit n := by
    rw [← List.append_assoc, hfront]
    exact Scanner.unit_append (S := frameScanner) hunit rest
  obtain ⟨hd'', hcall, hparsed⟩ := tryParseProtocol_unit (by
      intro hnil
      have hnone := (List.append_eq_nil_iff.mp hnil).1
      rw [hnone, List.append_nil] at hfront
      rw [← hfront] at hlen
      omega) hagain (Nat.le_of_lt lt) small
  have hheader : applyHeader hd.base (hd.pending ++ (data.take (n - hd.pending.length) ++ rest)) =
      applyHeader hd.base (hd.pending ++ data) := by
    apply applyHeader_front hd.base hsettled
    · rw [hagain]
      rfl
    · rw [← List.append_assoc, hfront, List.take_left' hlen]
  have hcontent : (hd.pending ++ (data.take (n - hd.pending.length) ++ rest)).take n =
      (hd.pending ++ data).take n := by
    rw [← List.append_assoc, hfront, List.take_left' hlen]
  rw [hheader, hcontent] at hparsed
  exact ⟨hd'', hcall, hparsed.readCount_eq.trans parsed.readCount_eq.symm,
    parsed.view_eq hparsed⟩

/-- And so is a malformed length. -/
theorem bad_unseen {hd hd' : WebsocketHandle} {data : Bytes} (parsing : Parsing hd)
    (alive : hd.pending.length < 6) (malformed : Malformed (hd.pending ++ data))
    (parsed : ParsedAs hd hd' (applyHeader hd.base (hd.pending ++ data))
      (hd.pending ++ data.take (6 - hd.pending.length)) .failed (6 - hd.pending.length))
    (rest : Bytes) :
    ∃ hd'', tryParseProtocol hd (data.take (6 - hd.pending.length) ++ rest) = .ok (false, hd'') ∧
      hd''.readCount = hd'.readCount ∧ hd''.view = hd'.view := by
  obtain ⟨-, hfront, hcut, hlen⟩ := parsing.take_six malformed
  have hsame : hd.pending ++ (data.take (6 - hd.pending.length) ++ rest) =
      (hd.pending ++ data).take 6 ++ rest := by
    rw [← List.append_assoc, hfront]
  have hagain : Malformed (hd.pending ++ (data.take (6 - hd.pending.length) ++ rest)) := by
    rw [hsame]
    apply hcut.congr (agreeTo_append rest (by omega))
    rw [List.length_append]
    omega
  have hnonempty : data.take (6 - hd.pending.length) ++ rest ≠ [] := by
    intro hnil
    rw [(List.append_eq_nil_iff.mp hnil).1, List.append_nil] at hfront
    rw [← hfront] at hlen
    omega
  obtain ⟨hd'', hcall, hparsed⟩ := tryParseProtocol_bad hnonempty hagain parsing.small
  have hheader : applyHeader hd.base (hd.pending ++ (data.take (6 - hd.pending.length) ++ rest)) =
      applyHeader hd.base (hd.pending ++ data) := by
    apply applyHeader_front hd.base (n := 6)
    · rw [frameScan_of_malformed malformed]
      rfl
    · rw [frameScan_of_malformed hagain]
      rfl
    · rw [hsame, List.take_left' hlen]
  have hcontent : hd.pending ++
      (data.take (6 - hd.pending.length) ++ rest).take (6 - hd.pending.length) =
      hd.pending ++ data.take (6 - hd.pending.length) := by
    have htake : (data.take (6 - hd.pending.length)).length = 6 - hd.pending.length := by
      have := congrArg List.length hfront
      rw [List.length_append, hlen] at this
      omega
    rw [List.take_left' htake]
  rw [hheader, hcontent] at hparsed
  exact ⟨hd'', hcall, hparsed.readCount_eq.trans parsed.readCount_eq.symm, parsed.view_eq hparsed⟩

/-- **Every byte is accounted for.** A call on a handle that has not failed takes at least one byte of a
chunk that fits its buffer; it keeps all of them while the frame is open, and otherwise stops behind the
frame or the malformed length that they complete. -/
theorem tryParseProtocol_accounts {hd : WebsocketHandle} (reachable : ParseReachable hd)
    (alive : hd.parseState ≠ .failed) {data : Bytes} (nonempty : data ≠ [])
    (small : hd.pending.length + data.length ≤ 2 ^ 31) :
    ∃ ret hd', tryParseProtocol hd data = .ok (ret, hd') ∧ Accounts hd data ret hd' := by
  have parsing := reachable.parsing
  have hopen := parsing.open_of_alive alive
  have hpos := List.length_pos_iff.mpr nonempty
  have hlen : (hd.pending ++ data).length = hd.pending.length + data.length := List.length_append
  cases hscan : frameScan (hd.pending ++ data) with
  | more =>
      obtain ⟨hd', hcall, hparsed⟩ := tryParseProtocol_more nonempty hscan small
      have hcount := hparsed.readCount_eq
      have hstate := hparsed.state_eq
      refine ⟨false, hd', hcall, ⟨by omega, by omega, ?_, ?_, ?_, ?_, ?_⟩⟩
      · rw [hstate]
        exact ⟨fun h => (by cases h), fun h => (by cases h)⟩
      · exact fun _ => ⟨hcount, hparsed.content_eq⟩
      · rw [hstate]
        intro h
        cases h
      · rw [hstate]
        intro h
        cases h
      · exact fun h => absurd hstate h
  | bad m =>
      obtain ⟨hbad, rfl⟩ := frameScan_bad hscan
      have hlt : hd.pending.length < 6 :=
        Scanner.lt_of_more (S := frameScanner) hopen
          (by rw [show frameScanner.scan _ = _ from hscan]; rfl)
      have hsix := hbad.2.1
      obtain ⟨hd', hcall, hparsed⟩ := tryParseProtocol_bad nonempty hbad parsing.small
      obtain ⟨-, hfront, hcut, -⟩ := parsing.take_six hbad
      have hcount := hparsed.readCount_eq
      have hstate := hparsed.state_eq
      have hunseen := bad_unseen parsing hlt hbad hparsed
      refine ⟨false, hd', hcall, ⟨by omega, by omega, ?_, ?_, ?_, ?_, ?_⟩⟩
      · rw [hstate]
        exact ⟨fun h => (by cases h), fun h => (by cases h)⟩
      · rw [hstate]
        intro h
        cases h
      · rw [hstate]
        intro h
        cases h
      · rw [hcount, hfront]
        exact fun _ => ⟨hcut, hparsed.content_eq.trans hfront⟩
      · rw [hcount] at hunseen ⊢
        exact fun _ => hunseen
  | unit n =>
      have hlt : hd.pending.length < n :=
        Scanner.lt_of_more (S := frameScanner) hopen
          (by rw [show frameScanner.scan _ = _ from hscan]; rfl)
      have hle : n ≤ (hd.pending ++ data).length := Scanner.unit_le (S := frameScanner) hscan
      obtain ⟨hd', hcall, hparsed⟩ :=
        tryParseProtocol_unit nonempty hscan (Nat.le_of_lt hlt) (by omega)
      have hcount := hparsed.readCount_eq
      have hstate := hparsed.state_eq
      have hunseen := unit_unseen (by omega) hscan hparsed hlt
      have hfront : hd.pending ++ data.take (n - hd.pending.length) =
          (hd.pending ++ data).take n := by
        rw [List.take_append, List.take_of_length_le (Nat.le_of_lt hlt)]
      refine ⟨true, hd', hcall, ⟨by omega, by omega, ?_, ?_, ?_, ?_, ?_⟩⟩
      · exact ⟨fun _ => hstate, fun _ => rfl⟩
      · rw [hstate]
        intro h
        cases h
      · rw [hcount, hfront]
        refine fun _ => ⟨firstUnit_take hscan, ?_, hparsed.content_eq⟩
        rw [hparsed.header_eq, applyHeader_take hd.base (by rw [hscan]; rfl)]
      · rw [hstate]
        intro h
        cases h
      · rw [hcount] at hunseen ⊢
        exact fun _ => hunseen

/-- A one-byte message with the first byte of the next frame behind it. -/
theorem tryParseProtocol_accounts_two :
    ∃ ret hd', tryParseProtocol (newHandle .server) [0x81, 0x01, 0x61, 0x81] = .ok (ret, hd') ∧
      Accounts (newHandle .server) [0x81, 0x01, 0x61, 0x81] ret hd' :=
  tryParseProtocol_accounts (.allocated (newHandle_allocated .server))
    (show ParseState.complete ≠ .failed by decide) (by simp)
    (show ([] : Bytes).length + 4 ≤ 2 ^ 31 by decide)

end AnotherWs
