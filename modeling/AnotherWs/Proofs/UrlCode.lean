/-
Module: AnotherWs.Proofs.UrlCode
Purpose: When url_encode escapes a string, says how long the text is, and url_decode reads it back.
Trusted boundary: none
Main exports: unsafeByte, urlEncodeLoop_cons, urlEncodeLoop_ok, urlEncodeLoop_split, urlDecode_escape,
  EncodesUrl, CanEncode, urlEncode_iff
-/
import AnotherWs.Core.UrlCode
import AnotherWs.Lib.Percent
import AnotherWs.Proofs.Encode
import AnotherWs.Proofs.Reserve

namespace AnotherWs

open Percent

/-! ### Bytes -/

/-- The bytes that may not stand in a URL: everything outside the printable characters, and the
characters of the list. -/
def unsafeByte (c : UInt8) : Bool := c < 0x20 || 0x7e < c || urlUnsafe.contains c

theorem needsEscape_eq (c : UInt8) : needsEscape c = unsafeByte c := by
  revert c
  apply forall_byte
  decide +kernel

theorem unsafeByte_of_wide (c : UInt8) : ¬ c < 0x80 → unsafeByte c = true := by
  revert c
  apply forall_byte
  decide +kernel

/-- The two digits of a byte below 128 are in the table. -/
theorem tableAt_hex (c : UInt8) : c < 0x80 →
    tableAt hexTable (charValue c >>> (4 : Nat)) = .ok (hexDigit (c.toNat / 16)) ∧
      tableAt hexTable ((c &&& 0x0f).toNat : Int) = .ok (hexDigit (c.toNat % 16)) := by
  revert c
  apply forall_byte
  decide +kernel

/-- For the other bytes the index is negative. -/
theorem tableAt_wide (c : UInt8) : ¬ c < 0x80 →
    tableAt hexTable (charValue c >>> (4 : Nat)) = .error .outOfBounds := by
  revert c
  apply forall_byte
  decide +kernel

/-! ### The encoder -/

section Loop

variable {uints : List UInt32} {len : Int}

/-- One character: it is appended, escaped or not, unless it is past the limit. -/
theorem urlEncodeLoop_cons {c : UInt8} (plain : c < 0x80) (buf : Membuf) (pos : Nat) (rest : Bytes) :
    urlEncodeLoop uints len buf pos (c :: rest) =
      loadUint uints len >>= fun limit =>
        if limit.toNat < pos then .ok buf
        else membufAppendData buf (piece unsafeByte c) >>= fun buf =>
          urlEncodeLoop uints len buf (pos + 1) rest := by
  obtain ⟨hhigh, hlow⟩ := tableAt_hex c plain
  rw [urlEncodeLoop, needsEscape_eq, hhigh, hlow]
  unfold piece
  cases unsafeByte c with
  | true => rfl
  | false => rfl

/-- A wide character within the limit reads in front of the table. -/
theorem urlEncodeLoop_wide {c : UInt8} (wide : ¬ c < 0x80) (buf : Membuf) (pos : Nat) (rest : Bytes) :
    urlEncodeLoop uints len buf pos (c :: rest) =
      loadUint uints len >>= fun limit =>
        if limit.toNat < pos then .ok buf else .error .outOfBounds := by
  rw [urlEncodeLoop, needsEscape_eq, unsafeByte_of_wide c wide, tableAt_wide c wide]
  rfl

/-- Within the limit, and with room for the whole text, the characters are appended. -/
theorem urlEncodeLoop_ok {total : Nat} {limit : UInt32} {buf : Membuf} {pos : Nat} {url : Bytes}
    (loaded : loadUint uints len = .ok limit) (within : pos + url.length ≤ limit.toNat + 1)
    (plain : ∀ c ∈ url, c < 0x80) (growable : Growable total buf) (padded : buf.Padded)
    (room : buf.size + (escape unsafeByte url).length ≤ total) :
    ∃ buf', urlEncodeLoop uints len buf pos url = .ok buf' ∧
      buf'.content = buf.content ++ escape unsafeByte url ∧ buf'.Padded := by
  induction url generalizing buf pos with
  | nil => exact ⟨buf, rfl, by rw [escape_nil, List.append_nil], padded⟩
  | cons c rest ih =>
      rw [List.length_cons] at within
      rw [escape_cons, List.length_append] at room
      obtain ⟨hplain, hrest⟩ := List.forall_mem_cons.mp plain
      obtain ⟨mid, happend, hgrowable⟩ := membufAppendData_growable growable
        (show buf.size + (piece unsafeByte c).length ≤ total by omega)
      obtain ⟨hcontent, -⟩ := membufAppendData_content happend
      have hsize := congrArg List.length hcontent
      rw [List.length_append, Membuf.length_content, Membuf.length_content] at hsize
      obtain ⟨buf', hloop, hcontent', hpadded⟩ :=
        ih (show pos + 1 + rest.length ≤ limit.toNat + 1 by omega)
        hrest hgrowable (membufAppendData_padded padded happend) (by omega)
      refine ⟨buf', ?_, ?_, hpadded⟩
      · rw [urlEncodeLoop_cons hplain, loaded, ok_bind, if_neg (by omega), happend, ok_bind, hloop]
      · rw [hcontent', hcontent, escape_cons, List.append_assoc]

/-- What a loop that came to its end has appended: a part of the string, of plain characters within the
limit. -/
theorem urlEncodeLoop_split {buf buf' : Membuf} {pos : Nat} {url : Bytes}
    (ok : urlEncodeLoop uints len buf pos url = .ok buf') (padded : buf.Padded) :
    buf'.Padded ∧ ∃ done rest, url = done ++ rest ∧
      buf'.content = buf.content ++ escape unsafeByte done ∧ (∀ c ∈ done, c < 0x80) ∧
      ∀ limit, loadUint uints len = .ok limit → done ≠ [] → pos + done.length ≤ limit.toNat + 1 := by
  induction url generalizing buf pos with
  | nil =>
      cases ok
      exact ⟨padded, [], [], rfl, by rw [escape_nil, List.append_nil],
        fun _ h => absurd h List.not_mem_nil, fun _ _ h => absurd rfl h⟩
  | cons c url ih =>
      have hstopped : ∀ {buf' : Membuf}, buf = buf' → buf'.Padded ∧ ∃ done rest,
        c :: url = done ++ rest ∧
          buf'.content = buf.content ++ escape unsafeByte done ∧ (∀ c ∈ done, c < 0x80) ∧
          ∀ limit, loadUint uints len = .ok limit → done ≠ [] →
            pos + done.length ≤ limit.toNat + 1 := by
        rintro _ rfl
        exact ⟨padded, [], c :: url, rfl, by rw [escape_nil, List.append_nil],
          fun _ h => absurd h List.not_mem_nil, fun _ _ h => absurd rfl h⟩
      by_cases hplain : c < 0x80
      · rw [urlEncodeLoop_cons hplain] at ok
        obtain ⟨limit, hload, ok⟩ := bind_eq_ok.mp ok
        split at ok
        · exact hstopped (Except.ok.inj ok)
        · rename_i hwithin
          obtain ⟨mid, happend, ok⟩ := bind_eq_ok.mp ok
          obtain ⟨hpadded, done, rest, hsplit, hcontent, hdone, hlimit⟩ :=
            ih ok (membufAppendData_padded padded happend)
          refine ⟨hpadded, c :: done, rest, by rw [hsplit, List.cons_append], ?_,
            List.forall_mem_cons.mpr ⟨hplain, hdone⟩, ?_⟩
          · rw [hcontent, (membufAppendData_content happend).1, escape_cons, List.append_assoc]
          · intro limit' hload' _
            have hsame := hload.symm.trans hload'
            cases hsame
            rw [List.length_cons]
            by_cases hnil : done = []
            · rw [hnil, List.length_nil]
              omega
            · have hlast := hlimit limit hload hnil
              omega
      · rw [urlEncodeLoop_wide hplain] at ok
        obtain ⟨limit, hload, ok⟩ := bind_eq_ok.mp ok
        split at ok
        · exact hstopped (Except.ok.inj ok)
        · cases ok

/-- A property of capacities that every append of up to three bytes preserves. -/
theorem urlEncodeLoop_bufferSize (p : Nat → Prop)
    (preserved : ∀ {buf buf' : Membuf} {bytes : Bytes}, bytes.length ≤ 3 → p buf.bufferSize →
      membufAppendData buf bytes = .ok buf' → p buf'.bufferSize)
    {buf buf' : Membuf} {pos : Nat} {url : Bytes}
    (ok : urlEncodeLoop uints len buf pos url = .ok buf') (initial : p buf.bufferSize) :
    p buf'.bufferSize := by
  induction url generalizing buf pos with
  | nil =>
      cases ok
      exact initial
  | cons c url ih =>
      by_cases hplain : c < 0x80
      · rw [urlEncodeLoop_cons hplain] at ok
        obtain ⟨limit, -, ok⟩ := bind_eq_ok.mp ok
        split at ok
        · cases ok
          exact initial
        · obtain ⟨mid, happend, ok⟩ := bind_eq_ok.mp ok
          have hthree : (piece unsafeByte c).length ≤ 3 := by
            rw [length_piece]
            split <;> omega
          exact ih ok (preserved hthree initial happend)
      · rw [urlEncodeLoop_wide hplain] at ok
        obtain ⟨limit, -, ok⟩ := bind_eq_ok.mp ok
        split at ok
        · cases ok
          exact initial
        · cases ok

end Loop

/-! ### The decoder -/

theorem hexValue_hexDigit : ∀ n < 16, hexValue (hexDigit n) = some n := by decide

theorem hexDigit_solid : ∀ n < 16, isspace (hexDigit n) = false ∧ hexDigit n ≠ 0x78 ∧
    hexDigit n ≠ 0x58 := by
  decide

/-- Two digits are read as their byte. -/
theorem sscanf2x_escape (b : UInt8) (rest : Bytes) :
    sscanf2x (hexDigit (b.toNat / 16) :: hexDigit (b.toNat % 16) :: rest) = some b.toNat := by
  have hlt := b.toNat_lt
  have hhigh : b.toNat / 16 < 16 := by omega
  have hlow : b.toNat % 16 < 16 := by omega
  obtain ⟨hspace, -⟩ := hexDigit_solid _ hhigh
  obtain ⟨-, hx, hX⟩ := hexDigit_solid _ hlow
  have hsum : 16 * (b.toNat / 16) + b.toNat % 16 = b.toNat := Nat.div_add_mod _ _
  rw [sscanf2x, List.dropWhile_cons_of_neg (by rw [hspace]; exact Bool.false_ne_true)]
  simp only [hexValue_hexDigit _ hhigh, hexValue_hexDigit _ hlow, hsum]
  rw [if_neg]
  rintro ⟨-, h | h⟩
  · exact hx h
  · exact hX h

/-- The write cursor overwrites what stands right behind the decoded part. -/
theorem set_behind {α : Type} (front : List α) (x y : α) (rest : List α) :
    (front ++ x :: rest).set front.length y = front ++ y :: rest := by
  rw [List.set_append_right _ _ (Nat.le_refl _), Nat.sub_self, List.set_cons_zero]

theorem percent_escaped : unsafeByte 0x25 = true := by decide

/-- One piece is read, and its byte goes over the first byte behind the write cursor. -/
theorem urlDecodeLoop_piece {c : UInt8} {s : Bytes} (text : 0 ∉ c :: s) (fuel : Nat)
    (front gap tail : Bytes) :
    ∃ rest, rest.length + 1 = gap.length + (piece unsafeByte c).length ∧
      urlDecodeLoop (fuel + 1) (front ++ (gap ++ (escape unsafeByte (c :: s) ++ 0 :: tail)))
        front.length
          (front.length + gap.length) =
        urlDecodeLoop fuel (front ++ c :: (rest ++ (escape unsafeByte s ++ 0 :: tail)))
          (front.length + 1)
          (front.length + gap.length + (piece unsafeByte c).length) := by
  have hread := cString_append (escape_text unsafeByte text) (front ++ gap) tail
  rw [List.length_append, List.append_assoc] at hread
  obtain ⟨x, rest, hrest⟩ : ∃ x rest, gap ++ piece unsafeByte c = x :: rest := by
    apply List.exists_cons_of_ne_nil
    unfold piece
    split <;> simp [escapeByte]
  have hmem : front ++ (gap ++ (escape unsafeByte (c :: s) ++ 0 :: tail)) =
      front ++ x :: (rest ++ (escape unsafeByte s ++ 0 :: tail)) := by
    rw [escape_cons, ← List.cons_append, ← hrest, List.append_assoc, List.append_assoc]
  have hgap := congrArg List.length hrest
  rw [List.length_append, List.length_cons] at hgap
  refine ⟨rest, hgap.symm, ?_⟩
  rw [urlDecodeLoop, hread, ok_bind, hmem]
  cases hescaped : unsafeByte c with
  | true =>
      have hpiece : piece unsafeByte c = escapeByte c := by rw [piece, if_pos hescaped]
      have hscan := sscanf2x_escape c (escape unsafeByte s)
      rw [escape_cons, hpiece]
      simp only [escapeByte, List.cons_append, List.nil_append, List.length_cons]
      rw [if_pos ⟨trivial, by omega⟩, hscan]
      simp only [set_behind, UInt8.ofNat_toNat]
      rfl
  | false =>
      have hpiece : piece unsafeByte c = [c] := by
        rw [piece, if_neg (by rw [hescaped]; exact Bool.false_ne_true)]
      have hne : c ≠ 0x25 := by
        rintro rfl
        rw [percent_escaped] at hescaped
        cases hescaped
      rw [escape_cons, hpiece]
      simp only [List.cons_append, List.nil_append]
      rw [if_neg fun h => hne h.1]
      simp only [set_behind]
      rfl

/-- The decoder reads an escaped text back, whatever stands between its two cursors. -/
theorem urlDecodeLoop_escape {s : Bytes} (text : 0 ∉ s) {fuel : Nat} (enough : s.length < fuel)
    (front gap tail : Bytes) :
    ∃ tail', urlDecodeLoop fuel (front ++ (gap ++ (escape unsafeByte s ++ 0 :: tail))) front.length
      (front.length + gap.length) = .ok (front ++ (s ++ 0 :: tail')) := by
  induction s generalizing fuel front gap with
  | nil =>
      obtain ⟨fuel, rfl⟩ : ∃ n, fuel = n + 1 := ⟨fuel - 1, by omega⟩
      have hread := @cString_append [] List.not_mem_nil (front ++ gap) tail
      rw [List.length_append, List.append_assoc] at hread
      rw [urlDecodeLoop, escape_nil, hread, ok_bind]
      obtain ⟨x, rest, hrest⟩ : ∃ x rest, gap ++ ([] ++ 0 :: tail) = x :: rest :=
        List.exists_cons_of_ne_nil (by simp)
      exact ⟨rest, by rw [hrest, set_behind, List.nil_append]⟩
  | cons c s ih =>
      rw [List.length_cons] at enough
      obtain ⟨fuel, rfl⟩ : ∃ n, fuel = n + 1 := ⟨fuel - 1, by omega⟩
      obtain ⟨rest, hgap, hstep⟩ := urlDecodeLoop_piece text fuel front gap tail
      rw [List.mem_cons, not_or] at text
      -- the write cursor moves over the byte, the read cursor over the piece
      obtain ⟨tail', htail⟩ := ih text.2 (show s.length < fuel by omega) (front ++ [c]) rest
      rw [List.length_append, List.length_singleton, List.append_assoc, List.append_assoc,
        show front.length + 1 + rest.length =
          front.length + gap.length + (piece unsafeByte c).length by omega] at htail
      exact ⟨tail', hstep.trans htail⟩

/-- An escaped text is decoded in place. -/
theorem urlDecode_escape {s : Bytes} (text : 0 ∉ s) (tail : Bytes) :
    ∃ mem, urlDecode (escape unsafeByte s ++ 0 :: tail) = .ok mem ∧ cString mem 0 = .ok s := by
  have henough : s.length < (escape unsafeByte s ++ 0 :: tail).length + 1 := by
    rw [List.length_append, length_escape]
    omega
  obtain ⟨tail', htail⟩ := urlDecodeLoop_escape text henough [] [] tail
  exact ⟨_, htail, cString_start text tail'⟩

/-! ### Both -/

/-- What is asked of `url_encode(s, &n)`, with `n` at entry `len` of an array: no access outside,
the text with its unsafe bytes escaped and a zero behind it, its length in `n`, and the way back. -/
def EncodesUrl (url : Bytes) (uints : List UInt32) (len : Nat) : Prop :=
  ∃ mem uints', urlEncode url uints len = .ok (mem, uints') ∧
    cString mem 0 = .ok (escape unsafeByte url) ∧
    (∃ n, uints'[len]? = some n ∧ n.toNat = (escape unsafeByte url).length) ∧
    ∃ mem', urlDecode mem = .ok mem' ∧ cString mem' 0 = .ok url

/-- The conditions under which it does that. -/
structure CanEncode (url : Bytes) (uints : List UInt32) (len : Nat) (n : UInt32) : Prop where
  /-- There is an entry in front of `n`, and as a limit it covers the string. -/
  front : ∃ limit, 0 < len ∧ uints[len - 1]? = some limit ∧ url.length ≤ limit.toNat + 1
  plain : ∀ c ∈ url, c < 0x80
  /-- `n` holds the length of the text before the call. -/
  already : n.toNat = url.length + 2 * url.countP unsafeByte
  /-- The initial capacity can be doubled to that length. -/
  room : ∃ j, n.toNat ≤ 2 ^ j * (url.length + 1) % 2 ^ 32

section Whole

variable {url : Bytes} {uints : List UInt32} {len : Nat}

theorem loadUint_front (uints : List UInt32) (len : Nat) (limit : UInt32) :
    loadUint uints ((len : Int) - 1) = .ok limit ↔ 0 < len ∧ uints[len - 1]? = some limit := by
  unfold loadUint
  by_cases hin : 0 ≤ (len : Int) - 1 ∧ (len : Int) - 1 < uints.length
  · have hindex : ((len : Int) - 1).toNat = len - 1 := by omega
    rw [if_pos hin, hindex, Except.ok.injEq, List.getD_eq_getElem _ _ (by omega),
      List.getElem?_eq_getElem (by omega), Option.some.injEq]
    exact (and_iff_right (by omega)).symm
  · rw [if_neg hin]
    refine iff_of_false (by simp) ?_
    rintro ⟨hpos, hget⟩
    obtain ⟨hlt, -⟩ := List.getElem?_eq_some_iff.mp hget
    omega

theorem storeUint_front {value : UInt32} (inside : 0 < len ∧ len - 1 < uints.length) :
    storeUint uints ((len : Int) - 1) value = .ok (uints.set (len - 1) value) := by
  rw [storeUint, if_pos (by omega), show ((len : Int) - 1).toNat = len - 1 by omega]

/-- The text behind the loop ends with four zeros. -/
theorem membufTrunc_data {buf : Membuf} (padded : buf.Padded) :
    (membufTrunc buf).data = buf.content ++ List.replicate 4 0 := by
  unfold membufTrunc
  split
  · rfl
  · rename_i hsame
    have hfour : buf.bufferSize - buf.size = 4 := by omega
    rw [← hfour, ← show buf.data.drop buf.size = _ from padded, Membuf.content, List.take_append_drop]

/-- An odd length just below `2 ^ 32` is out of reach for a buffer without an allocation. -/
theorem append_three_bufferSize {buf buf' : Membuf} {bytes : Bytes} (three : bytes.length ≤ 3)
    (before : buf.bufferSize < 2 ^ 32 - 1) (appended : membufAppendData buf bytes = .ok buf') :
    buf'.bufferSize < 2 ^ 32 - 1 := by
  rcases membufAppendData_bufferSize appended with hsame | ⟨-, j, hj⟩
  · rw [hsame]
    exact before
  · have hword := Nat.mod_lt (2 ^ j * ((if buf.bufferSize = 0 then bytes.length
      else 2 * buf.bufferSize) % 2 ^ 32)) (show 0 < 2 ^ 32 by decide)
    cases j with
    | zero =>
        rw [Nat.pow_zero, Nat.one_mul, Nat.mod_mod] at hj
        split at hj
        · omega
        · omega
    | succ j =>
        have heven : buf'.bufferSize % 2 = 0 := by
          rw [hj, Nat.mod_mod_of_dvd _ (by decide), Nat.pow_succ, Nat.mul_right_comm]
          exact Nat.mul_mod_left _ _
        omega

/-- The capacity of a loop that came to its end is a doubling of the initial one. -/
theorem urlEncodeLoop_doubling {uints : List UInt32} {len : Int} {buf' : Membuf} {pos n : Nat}
    {url : Bytes}
    (ok : urlEncodeLoop uints len (membufInit n) pos url = .ok buf') (positive : 0 < n)
    (word : n < 2 ^ 32) : ∃ j, buf'.bufferSize = 2 ^ j * n % 2 ^ 32 := by
  refine (urlEncodeLoop_bufferSize (fun b => b ≠ 0 ∧ ∃ j, b = 2 ^ j * n % 2 ^ 32) ?_ ok
    ⟨positive.ne', 0, ?_⟩).2
  · rintro buf buf' bytes - ⟨hne, j, hj⟩ appended
    rcases membufAppendData_bufferSize appended with hsame | ⟨hne', i, hi⟩
    · rw [hsame]
      exact ⟨hne, j, hj⟩
    · rw [if_neg hne, double_mod, hj, two_pow_mul_mod_mul] at hi
      exact ⟨hne', _, hi⟩
  · rw [Nat.pow_zero, Nat.one_mul, Nat.mod_eq_of_lt word]
    rfl

/-- A part of a string whose encoding is as long is the whole string. -/
theorem eq_nil_of_length_escape {done rest : Bytes}
    (same : (escape unsafeByte done).length = (escape unsafeByte (done ++ rest)).length) :
    rest = [] := by
  rw [escape_append, List.length_append, length_escape unsafeByte rest] at same
  exact List.length_eq_zero_iff.mp (by omega)

/-- When the text of `n` characters fits the buffer of a loop that came to its end, a doubling of
the initial capacity reaches `n`. -/
theorem urlEncodeLoop_room {uints : List UInt32} {len : Int} {buf' : Membuf} {pos : Nat} {n : UInt32}
    (ok : urlEncodeLoop uints len (membufInit ((url.length + 1) % 2 ^ 32)) pos url = .ok buf')
    (limited : url.length ≤ n.toNat) (fits : n.toNat ≤ buf'.bufferSize) :
    ∃ j, n.toNat ≤ 2 ^ j * (url.length + 1) % 2 ^ 32 := by
  have hword := n.toNat_lt
  rcases Nat.lt_or_ge (url.length + 1) (2 ^ 32) with hin | hwraps
  · rw [Nat.mod_eq_of_lt hin] at ok
    obtain ⟨j, hj⟩ := urlEncodeLoop_doubling ok (Nat.succ_pos _) hin
    exact ⟨j, hj ▸ fits⟩
  · -- a string of 2 ^ 32 - 1 characters starts without an allocation
    have hzero : (url.length + 1) % 2 ^ 32 = 0 := by
      rw [show url.length + 1 = 2 ^ 32 by omega, Nat.mod_self]
    rw [hzero] at ok
    have hsmall := urlEncodeLoop_bufferSize (fun b => b < 2 ^ 32 - 1)
      (fun hthree hbefore happend => append_three_bufferSize hthree hbefore happend) ok
      (show (membufInit 0).bufferSize < 2 ^ 32 - 1 by decide)
    omega

theorem EncodesUrl.canEncode {n : UInt32} (encodes : EncodesUrl url uints len) (text : 0 ∉ url)
    (passed : uints[len]? = some n) (limited : url.length ≤ n.toNat) : CanEncode url uints len n := by
  obtain ⟨mem, uints', hok, htext, ⟨n', hn', hlength⟩, -⟩ := encodes
  obtain ⟨buf, hloop, hok⟩ := bind_eq_ok.mp hok
  obtain ⟨stored, hstore, hok⟩ := bind_eq_ok.mp hok
  cases hok
  obtain ⟨hpadded, done, rest, hsplit, hcontent, hplain, hlimit⟩ :=
    urlEncodeLoop_split hloop (membufInit_padded _)
  rw [membufInit_content, List.nil_append] at hcontent
  have hdone : 0 ∉ done := fun h => text (by rw [hsplit]; exact List.mem_append_left _ h)
  -- the string that is read back is the part that was escaped
  have hread : cString (membufTrunc buf).data 0 = .ok (escape unsafeByte done) := by
    rw [membufTrunc_data hpadded, hcontent]
    exact cString_start (escape_text unsafeByte hdone) _
  rw [htext, Except.ok.injEq] at hread
  have hrest : rest = [] := by
    refine @eq_nil_of_length_escape done rest ?_
    rw [← hsplit, hread]
  subst hrest
  rw [List.append_nil] at hsplit
  subst hsplit
  -- the store went to the entry in front
  unfold storeUint at hstore
  split at hstore
  · rename_i hin
    cases hstore
    rw [List.getElem?_set_ne (by omega), passed, Option.some.injEq] at hn'
    subst hn'
    have hlt : len - 1 < uints.length := by omega
    have hfront : uints[len - 1]? = some uints[len - 1] := List.getElem?_eq_getElem hlt
    have hsize := buf.size_le
    rw [← buf.length_content, hcontent, ← hlength] at hsize
    rw [length_escape] at hlength
    refine ⟨⟨uints[len - 1], by omega, hfront, ?_⟩, hplain, hlength,
      urlEncodeLoop_room hloop limited hsize⟩
    rcases List.eq_nil_or_concat url with hnil | ⟨_, _, hcat⟩
    · rw [hnil]
      exact Nat.zero_le _
    · have hne : url ≠ [] := by
        rw [hcat]
        simp
      have hlast := hlimit _ ((loadUint_front uints len _).mpr ⟨by omega, hfront⟩) hne
      omega
  · cases hstore

theorem CanEncode.encodesUrl {n : UInt32} (can : CanEncode url uints len n) (text : 0 ∉ url)
    (passed : uints[len]? = some n) : EncodesUrl url uints len := by
  obtain ⟨⟨limit, hpos, hfront, hcovers⟩, hplain, halready, j, hj⟩ := can
  have hload := (loadUint_front uints len limit).mpr ⟨hpos, hfront⟩
  obtain ⟨hlt, -⟩ := List.getElem?_eq_some_iff.mp hfront
  have htotal : (escape unsafeByte url).length = n.toNat := by rw [length_escape, halready]
  have hfits : url.length + 1 < 2 ^ 32 := by
    have hword := n.toNat_lt
    by_contra hwraps
    rw [show url.length + 1 = 2 ^ 32 by omega, Nat.mul_mod_left] at hj
    omega
  have hcap : (url.length + 1) % 2 ^ 32 = url.length + 1 := Nat.mod_eq_of_lt hfits
  have hgrowable : Growable n.toNat (membufInit ((url.length + 1) % 2 ^ 32)) := by
    rw [hcap]
    exact ⟨Nat.succ_ne_zero _, hfits, j, hj⟩
  have hroom : (membufInit ((url.length + 1) % 2 ^ 32)).size + (escape unsafeByte url).length ≤
      n.toNat := by
    rw [htotal]
    exact Nat.le_of_eq (Nat.zero_add _)
  obtain ⟨buf, hloop, hcontent, hpadded⟩ := urlEncodeLoop_ok hload
    (show 0 + url.length ≤ limit.toNat + 1 by omega) hplain hgrowable (membufInit_padded _) hroom
  rw [membufInit_content, List.nil_append] at hcontent
  have hdata : (membufTrunc buf).data = escape unsafeByte url ++ 0 :: List.replicate 3 0 := by
    rw [membufTrunc_data hpadded, hcontent]
    rfl
  obtain ⟨mem', hdecode, hback⟩ := urlDecode_escape text (List.replicate 3 0)
  have hcall : urlEncode url uints len = .ok (escape unsafeByte url ++ 0 :: List.replicate 3 0,
      uints.set (len - 1) (UInt32.ofNat (membufTrunc buf).size)) := by
    rw [urlEncode]
    simp only [hloop, ok_bind]
    rw [storeUint_front ⟨hpos, hlt⟩, ok_bind, hdata]
  have hkept : (uints.set (len - 1) (UInt32.ofNat (membufTrunc buf).size))[len]? = some n := by
    rw [List.getElem?_set_ne (by omega), passed]
  exact ⟨_, _, hcall, cString_start (escape_text unsafeByte text) _, ⟨n, hkept, htotal.symm⟩, mem',
    hdecode, hback⟩

/-- **`url_encode`.** For every string and every limit it does what is asked of it exactly under these
conditions. -/
theorem urlEncode_iff {n : UInt32} (text : 0 ∉ url) (passed : uints[len]? = some n)
    (limited : url.length ≤ n.toNat) : EncodesUrl url uints len ↔ CanEncode url uints len n := by
  constructor
  · intro encodes
    exact encodes.canEncode text passed limited
  · intro can
    exact can.encodesUrl text passed

end Whole

theorem urlEncode_iff_space :
    0 ∉ ascii "a b" ∧ ([7, 5] : List UInt32)[1]? = some 5 ∧ (ascii "a b").length ≤ (5 : UInt32).toNat ∧
    (EncodesUrl (ascii "a b") [7, 5] 1 ↔ CanEncode (ascii "a b") [7, 5] 1 5) :=
  ⟨by decide +kernel, rfl, by decide +kernel, urlEncode_iff (by decide +kernel) rfl (by decide +kernel)⟩

/-- A limit of ten for a string of one character: `n` stays ten, and the entry in front of it is
overwritten; where there is none, the call leaves the array. A byte of 128 reads in front of the
table. -/
theorem urlEncode_misses :
    urlEncode (ascii "a") [7, 10] 1 = .ok ([0x61, 0, 0, 0, 0], [1, 10]) ∧
    ¬ EncodesUrl (ascii "a") [7, 10] 1 ∧
    urlEncode (ascii "a") [10] 0 = .error .outOfBounds ∧
    urlEncode [0x80] [7, 3] 1 = .error .outOfBounds := by
  have hcall : urlEncode (ascii "a") [7, 10] 1 = .ok ([0x61, 0, 0, 0, 0], [1, 10]) := by decide +kernel
  refine ⟨hcall, ?_, by decide +kernel, by decide +kernel⟩
  rintro ⟨mem, uints', hok, -, ⟨n, hn, hlength⟩, -⟩
  rw [hcall] at hok
  cases hok
  cases hn
  have hone : (escape unsafeByte (ascii "a")).length = 1 := by decide +kernel
  rw [hone] at hlength
  cases hlength

end AnotherWs
