/-
Module: AnotherWs.Proofs.Decode
Purpose: base64_decode undoes no encoding: a lookup gives the character itself and not its place in the
  alphabet, so the first byte is always another one.
Trusted boundary: none
Main exports: lookUp_self, lookUpDigits_front, decodeLoop_front, base64Decode_wrong, base64Decode_never
-/
import AnotherWs.Core.Decode
import AnotherWs.Proofs.Encode

namespace AnotherWs

/-! ### Lookups -/

/-- What is found of a string that starts with a character is that character. -/
theorem strstr_self {table needle : Bytes} {c : UInt8} {p : Nat}
    (found : strstr table (c :: needle) = some p) : table.getD p 0 = c := by
  obtain ⟨front, rest, hsplit, hlen⟩ := Search.offset_split found
  rw [hsplit, ← hlen, List.append_assoc, List.getD_append_right _ _ _ _ (Nat.le_refl _), Nat.sub_self]
  rfl

/-- A lookup of a character gives the character. -/
theorem lookUp_self {charArray4 behind : Bytes} {j : Nat} {c found : UInt8}
    (inside : charArray4[j]? = some c)
    (text : c ≠ 0) (ok : lookUp charArray4 behind j = .ok found) : found = c := by
  obtain ⟨needle, hneedle, hfound⟩ := bind_eq_ok.mp ok
  obtain ⟨hj, hget⟩ := List.getElem?_eq_some_iff.mp inside
  have hdrop : (charArray4 ++ behind).drop j = c :: (charArray4 ++ behind).drop (j + 1) := by
    rw [List.drop_eq_getElem_cons (by rw [List.length_append]; omega), List.getElem_append_left hj,
      hget]
  rw [cString, hdrop, List.takeWhile_cons_of_pos (by simpa using text)] at hneedle
  split at hneedle
  · cases hneedle
    cases hstr : strstr base64Table
        (c :: ((charArray4 ++ behind).drop (j + 1)).takeWhile (· ≠ 0)) with
    | none =>
        rw [hstr] at hfound
        cases hfound
    | some p =>
        rw [hstr] at hfound
        cases hfound
        exact strstr_self hstr
  · cases hneedle

/-- The four lookups leave the first two characters as they were. -/
theorem lookUpDigits_front {behind : Nat → Bytes} {c0 c1 c2 c3 : UInt8} {found : Bytes} (text0 : c0 ≠ 0)
    (text1 : c1 ≠ 0) (ok : lookUpDigits behind [c0, c1, c2, c3] = .ok found) :
    ∃ d2 d3, found = [c0, c1, d2, d3] := by
  simp only [lookUpDigits, show List.range 4 = [0, 1, 2, 3] from rfl, List.foldlM_cons,
    List.foldlM_nil] at ok
  obtain ⟨_, h0, ok⟩ := bind_eq_ok.mp ok
  obtain ⟨d0, hd0, h0⟩ := bind_eq_ok.mp h0
  cases h0
  rw [lookUp_self rfl text0 hd0] at ok
  obtain ⟨_, h1, ok⟩ := bind_eq_ok.mp ok
  obtain ⟨d1, hd1, h1⟩ := bind_eq_ok.mp h1
  cases h1
  rw [lookUp_self rfl text1 hd1] at ok
  obtain ⟨_, h2, ok⟩ := bind_eq_ok.mp ok
  obtain ⟨d2, -, h2⟩ := bind_eq_ok.mp h2
  cases h2
  obtain ⟨_, h3, ok⟩ := bind_eq_ok.mp ok
  obtain ⟨d3, -, h3⟩ := bind_eq_ok.mp h3
  cases h3
  cases ok
  exact ⟨d2, d3, rfl⟩

/-! ### The first byte -/

/-- The first byte that is put together from two characters. -/
def firstByte (c0 c1 : UInt8) : UInt8 := (c0 <<< 2) + ((c1 &&& 0x30) >>> 4)

theorem charArray3_front (c0 c1 c2 c3 : UInt8) :
    ∃ rest, charArray3 [c0, c1, c2, c3] = firstByte c0 c1 :: rest := ⟨_, rfl⟩

theorem appendEach_content {ret ret' : Membuf} {chars : Bytes} (ok : appendEach ret chars = .ok ret') :
    ret'.content = ret.content ++ chars := by
  induction chars generalizing ret with
  | nil =>
      cases ok
      rw [List.append_nil]
  | cons c rest ih =>
      obtain ⟨mid, happend, hrest⟩ := bind_eq_ok.mp ok
      rw [ih hrest, (membufAppendData_content happend).1, List.append_assoc, List.singleton_append]

/-- The loop only adds bytes. -/
theorem decodeLoop_prefix {behind : Nat → Nat → Bytes} {ret ret' : Membuf}
    {charArray4 charArray4' chars : Bytes} {in_ : Nat}
    (ok : decodeLoop behind ret charArray4 in_ chars = .ok (ret', charArray4')) :
    ret.content <+: ret'.content := by
  induction chars generalizing ret charArray4 in_ with
  | nil =>
      cases ok
      exact List.prefix_refl _
  | cons c rest ih =>
      rw [decodeLoop] at ok
      split at ok
      · dsimp only at ok
        split at ok
        · obtain ⟨found, -, ok⟩ := bind_eq_ok.mp ok
          obtain ⟨mid, happend, ok⟩ := bind_eq_ok.mp ok
          have hmid := ih ok
          rw [appendEach_content happend] at hmid
          exact (List.prefix_append _ _).trans hmid
        · exact ih ok
      · cases ok
        exact List.prefix_refl _

/-- Once two characters have been collected, their byte is the first to go out, or they are still
held when the loop ends. -/
theorem decodeLoop_front {behind : Nat → Nat → Bytes} {ret ret' : Membuf} {c0 c1 : UInt8}
    {more charArray4' chars : Bytes} {in_ : Nat} (text0 : c0 ≠ 0) (text1 : c1 ≠ 0)
    (empty : ret.content = []) (short : more.length ≤ 1)
    (ok : decodeLoop behind ret (c0 :: c1 :: more) in_ chars = .ok (ret', charArray4')) :
    (∃ rest, ret'.content = firstByte c0 c1 :: rest) ∨
      ret'.content = [] ∧ ∃ more', charArray4' = c0 :: c1 :: more' ∧ more'.length ≤ 1 := by
  induction chars generalizing more in_ with
  | nil =>
      cases ok
      exact Or.inr ⟨empty, more, rfl, short⟩
  | cons c rest ih =>
      rw [decodeLoop] at ok
      split at ok
      · dsimp only at ok
        split at ok
        · rename_i hfull
          obtain ⟨c2, rfl⟩ : ∃ c2, more = [c2] := by
            apply List.length_eq_one_iff.mp
            simp only [List.length_append, List.length_cons] at hfull
            simpa using hfull
          obtain ⟨found, hfound, ok⟩ := bind_eq_ok.mp ok
          obtain ⟨d2, d3, rfl⟩ := lookUpDigits_front text0 text1 hfound
          obtain ⟨mid, happend, ok⟩ := bind_eq_ok.mp ok
          obtain ⟨tail, htail⟩ := charArray3_front c0 c1 d2 d3
          have hfront := decodeLoop_prefix ok
          rw [appendEach_content happend, empty, List.nil_append, htail] at hfront
          obtain ⟨after, hafter⟩ := hfront
          exact Or.inl ⟨tail ++ after, hafter.symm⟩
        · rename_i hpart
          simp only [List.length_append, List.length_cons, List.length_nil] at hpart
          have hnil : more = [] := List.length_eq_zero_iff.mp (by omega)
          subst hnil
          have hone : ([c] : Bytes).length ≤ 1 := Nat.le_refl 1
          exact ih hone ok
      · cases ok
        exact Or.inr ⟨empty, more, rfl, short⟩

/-- Whatever `base64_decode` returns for a text of two characters and more starts with their byte. -/
theorem base64Decode_front {behind : Nat → Nat → Bytes} {ret ret' : Membuf} {c0 c1 : UInt8}
    {more : Bytes}
    (digit0 : c0 ≠ base64End ∧ isBase64 c0 = true) (digit1 : c1 ≠ base64End ∧ isBase64 c1 = true)
    (text0 : c0 ≠ 0) (text1 : c1 ≠ 0)
    (ok : base64Decode behind (c0 :: c1 :: more) ret = .ok ret') :
    ∃ rest, ret'.content = firstByte c0 c1 :: rest := by
  obtain ⟨⟨mid, held⟩, hloop, ok⟩ := bind_eq_ok.mp ok
  rw [decodeLoop, if_pos digit0] at hloop
  simp only [List.nil_append, List.length_singleton, Nat.reduceEqDiff, if_false] at hloop
  rw [decodeLoop, if_pos digit1] at hloop
  simp only [List.singleton_append, List.length_cons, List.length_nil, Nat.reduceAdd,
    Nat.reduceEqDiff, if_false] at hloop
  have hnone : ([] : Bytes).length ≤ 1 := Nat.zero_le 1
  rcases decodeLoop_front text0 text1 (membufClear_content ret 0) hnone hloop with
    ⟨rest, hrest⟩ | ⟨hempty, more', rfl, hshort⟩
  · dsimp only at ok
    split at ok
    · obtain ⟨found, -, ok⟩ := bind_eq_ok.mp ok
      exact ⟨_, by rw [appendEach_content ok, hrest, List.cons_append]⟩
    · cases ok
      exact ⟨rest, hrest⟩
  · dsimp only at ok
    rw [if_pos (List.cons_ne_nil _ _)] at ok
    obtain ⟨found, hfound, ok⟩ := bind_eq_ok.mp ok
    obtain ⟨c2, c3, hpadded⟩ : ∃ c2 c3, c0 :: c1 :: more' ++
        List.replicate (4 - (c0 :: c1 :: more').length) 0 = [c0, c1, c2, c3] := by
      match more', hshort with
      | [], _ => exact ⟨0, 0, rfl⟩
      | [c2], _ => exact ⟨c2, 0, rfl⟩
    rw [hpadded] at hfound
    obtain ⟨d2, d3, rfl⟩ := lookUpDigits_front text0 text1 hfound
    obtain ⟨tail, htail⟩ := charArray3_front c0 c1 d2 d3
    have hone : (c0 :: c1 :: more').length - 1 = more'.length + 1 := rfl
    exact ⟨tail.take more'.length, by
      rw [appendEach_content ok, hempty, htail, hone, List.take_succ_cons, List.nil_append]⟩

/-! ### Encodings -/

theorem digit_isBase64 : ∀ v < 64, (Base64.digit v ≠ base64End ∧ isBase64 (Base64.digit v) = true) ∧
    Base64.digit v ≠ 0 := by decide +kernel

/-- Four times a digit and four times its value never differ by less than four. -/
theorem shifted_digit_ne : ∀ v < 64, ∀ a < 4, ∀ b < 4,
    (Base64.digit v <<< 2) + UInt8.ofNat a ≠ UInt8.ofNat (4 * v + b) := by decide +kernel

theorem middle_two (c : UInt8) : ∃ a < 4, (c &&& 0x30) >>> 4 = UInt8.ofNat a := by
  revert c
  apply forall_byte
  decide +kernel

theorem firstByte_ne {v0 v1 : Nat} (lt0 : v0 < 64) (lt1 : v1 < 64) :
    firstByte (Base64.digit v0) (Base64.digit v1) ≠ UInt8.ofNat (4 * v0 + v1 / 16) := by
  obtain ⟨a, ha, hmiddle⟩ := middle_two (Base64.digit v1)
  rw [firstByte, hmiddle]
  exact shifted_digit_ne v0 lt0 a ha (v1 / 16) (by omega)

/-- An encoding starts with two digits that make up the first byte. -/
theorem encode_front {bytes : Bytes} (nonempty : bytes ≠ []) :
    ∃ v0 v1 more rest, v0 < 64 ∧ v1 < 64 ∧
      Base64.encode bytes = Base64.digit v0 :: Base64.digit v1 :: more ∧
      bytes = UInt8.ofNat (4 * v0 + v1 / 16) :: rest := by
  have hfront : ∀ b₀ b₁ b₂ : UInt8, Base64.group b₀ b₁ b₂ / 2 ^ 18 < 64 ∧
      b₀ = UInt8.ofNat (4 * (Base64.group b₀ b₁ b₂ / 2 ^ 18) +
        Base64.group b₀ b₁ b₂ / 2 ^ 12 % 64 / 16) := by
    intro b₀ b₁ b₂
    have hlt := Base64.group_lt b₀ b₁ b₂
    have hfirst := Base64.group_first b₀ b₁ b₂
    have hsplit : 4 * (Base64.group b₀ b₁ b₂ / 2 ^ 18) + Base64.group b₀ b₁ b₂ / 2 ^ 12 % 64 / 16 =
        Base64.group b₀ b₁ b₂ / 2 ^ 16 := by omega
    exact ⟨by omega, by rw [hsplit, hfirst]⟩
  match bytes, nonempty with
  | [b₀], _ =>
      obtain ⟨hlt, hb⟩ := hfront b₀ 0 0
      exact ⟨_, _, _, [], hlt, Nat.mod_lt _ (by decide), rfl, congrArg (· :: []) hb⟩
  | [b₀, b₁], _ =>
      obtain ⟨hlt, hb⟩ := hfront b₀ b₁ 0
      exact ⟨_, _, _, [b₁], hlt, Nat.mod_lt _ (by decide), rfl, congrArg (· :: [b₁]) hb⟩
  | b₀ :: b₁ :: b₂ :: rest, _ =>
      obtain ⟨hlt, hb⟩ := hfront b₀ b₁ b₂
      exact ⟨_, _, _, b₁ :: b₂ :: rest, hlt, Nat.mod_lt _ (by decide), rfl,
        congrArg (· :: b₁ :: b₂ :: rest) hb⟩

/-- **Decoding.** `base64_decode` leaves the bytes that were encoded in no case. -/
theorem base64Decode_never {bytes : Bytes} (nonempty : bytes ≠ []) (small : 3 * bytes.length < 2 ^ 32)
    (behind : Nat → Nat → Bytes) (ret : Membuf) :
    ¬ ∃ text ret', base64Encode bytes = .ok (some text) ∧ base64Decode behind text ret = .ok ret' ∧
      ret'.content = bytes := by
  rintro ⟨text, ret', hencode, hdecode, hcontent⟩
  rw [base64Encode_eq (List.length_pos_iff.mpr nonempty) (by omega)] at hencode
  cases hencode
  obtain ⟨v0, v1, more, rest, hlt0, hlt1, htext, hbytes⟩ := encode_front nonempty
  obtain ⟨hdigit0, hzero0⟩ := digit_isBase64 v0 hlt0
  obtain ⟨hdigit1, hzero1⟩ := digit_isBase64 v1 hlt1
  rw [htext] at hdecode
  obtain ⟨after, hafter⟩ := base64Decode_front hdigit0 hdigit1 hzero0 hzero1 hdecode
  rw [hcontent, hbytes, List.cons.injEq] at hafter
  exact firstByte_ne hlt0 hlt1 hafter.1.symm

/-- One round of the loop over three bytes, and two bytes behind it. -/
theorem base64Decode_never_five :
    ascii "Hello" ≠ [] ∧ 3 * (ascii "Hello").length < 2 ^ 32 ∧
    ¬ ∃ text ret', base64Encode (ascii "Hello") = .ok (some text) ∧
      base64Decode (fun _ _ => []) text (membufInit 16) = .ok ret' ∧ ret'.content = ascii "Hello" :=
  ⟨by decide, by decide, base64Decode_never (by decide) (by decide) _ _⟩

/-- `=` is encoded as `PQ==`, which is decoded as `A`; `Man` is encoded as `TWFu`, which is not
found in the table. -/
theorem base64Decode_wrong :
    base64Encode [0x3d] = .ok (some (ascii "PQ==")) ∧
    (base64Decode (fun _ _ => []) (ascii "PQ==") (membufInit 16)).map Membuf.content = .ok [0x41] ∧
    base64Encode (ascii "Man") = .ok (some (ascii "TWFu")) ∧
    base64Decode (fun _ _ => [0]) (ascii "TWFu") (membufInit 16) = .error .nullPointer ∧
    ¬ ∃ text ret', base64Encode [0x3d] = .ok (some text) ∧
      base64Decode (fun _ _ => []) text (membufInit 16) = .ok ret' ∧ ret'.content = [0x3d] := by
  have hencode : base64Encode [0x3d] = .ok (some (ascii "PQ==")) := by decide +kernel
  have hdecode : (base64Decode (fun _ _ => []) (ascii "PQ==") (membufInit 16)).map Membuf.content =
      .ok [0x41] := by decide +kernel
  refine ⟨hencode, hdecode, by decide +kernel, by decide +kernel, ?_⟩
  rintro ⟨text, ret', htext, hret, hcontent⟩
  rw [hencode] at htext
  cases htext
  rw [hret] at hdecode
  have hsame := Except.ok.inj hdecode
  rw [hcontent] at hsame
  cases hsame

end AnotherWs
