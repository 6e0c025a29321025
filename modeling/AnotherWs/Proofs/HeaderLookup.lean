/-
Module: AnotherWs.Proofs.HeaderLookup
Purpose: What parse_http_heads finds in a whole HTTP message, and when that is the value of the field.
Trusted boundary: none
Main exports: FirstIn, readBehind, HeadLines, parseHttpHeads_first, ReadsRight, parseHttpHeads_lookup,
  ReadsRight.plain
-/
import AnotherWs.Spec.HttpMessage
import AnotherWs.Proofs.HeadScan

namespace AnotherWs

/-! ### Lines -/

/-- The first of some lines in which the pattern stands: what follows the pattern on the line, and the
lines behind it. -/
inductive FirstIn (pattern : Bytes) : List Bytes → Bytes → List Bytes → Prop where
  | here {line : Bytes} {rest : List Bytes} {j : Nat} (found : Search.offset pattern line = some j) :
      FirstIn pattern (line :: rest) (line.drop (j + pattern.length)) rest
  | later {line tail : Bytes} {rest after : List Bytes} (missing : Search.offset pattern line = none)
      (further : FirstIn pattern rest tail after) : FirstIn pattern (line :: rest) tail after

/-- Either no line holds the pattern, or there is a first one. -/
theorem firstIn_or (pattern : Bytes) (lines : List Bytes) :
    (∀ line ∈ lines, Search.offset pattern line = none) ∨
      ∃ tail after, FirstIn pattern lines tail after := by
  induction lines with
  | nil => exact Or.inl fun _ h => absurd h List.not_mem_nil
  | cons line rest ih =>
      cases hfound : Search.offset pattern line with
      | some j => exact Or.inr ⟨_, _, .here hfound⟩
      | none =>
          rcases ih with hnone | ⟨tail, after, hfirst⟩
          · exact Or.inl (List.forall_mem_cons.mpr ⟨hfound, hnone⟩)
          · exact Or.inr ⟨tail, after, .later hfound hfirst⟩

/-- What stands between a line and the end of the head. -/
def follow : List Bytes → Bytes
  | [] => []
  | next :: rest => crlf ++ joinLines next rest

theorem joinLines_eq (line : Bytes) (rest : List Bytes) :
    joinLines line rest = line ++ follow rest := by
  cases rest with
  | nil => rw [joinLines, follow, List.append_nil]
  | cons next rest => rw [joinLines, follow, List.append_assoc]

section Lines

variable {pattern : Bytes}

/-- A search over lines goes through them one by one. -/
theorem offset_joinLines (nonempty : pattern ≠ []) (text : LineText pattern) (line next : Bytes)
    (rest : List Bytes) :
    Search.offset pattern (joinLines line (next :: rest)) =
      (Search.offset pattern line).orElse fun _ =>
        (Search.offset pattern (joinLines next rest)).map fun n => n + (line.length + 2) := by
  have hnil : Search.offset pattern [] = none := by rw [Search.offset, if_neg nonempty]
  have hjoin : joinLines line (next :: rest) = line ++ 0x0d :: ([] ++ 0x0a :: joinLines next rest) := by
    rw [joinLines, List.append_assoc]
    rfl
  rw [hjoin, Search.offset_append_cons text.1 nonempty, Search.offset_append_cons text.2.1 nonempty,
    hnil]
  cases Search.offset pattern line with
  | some j => rfl
  | none =>
      simp only [Option.orElse, Option.map_map]
      congr 1
      funext n
      simp only [Function.comp_apply, List.length_nil]
      omega

/-- The search finds the first line that holds the pattern. -/
theorem offset_of_firstIn (nonempty : pattern ≠ []) (text : LineText pattern) {line tail : Bytes}
    {rest after : List Bytes} (first : FirstIn pattern (line :: rest) tail after) :
    ∃ j, Search.offset pattern (joinLines line rest) = some j ∧
      j + pattern.length ≤ (joinLines line rest).length ∧
      (joinLines line rest).drop (j + pattern.length) = tail ++ follow after := by
  induction rest generalizing line with
  | nil =>
      cases first with
      | here found =>
          rename_i j
          obtain ⟨front, back, hsplit, hfront⟩ := Search.offset_split found
          have hlen := congrArg List.length hsplit
          rw [List.length_append, List.length_append] at hlen
          exact ⟨j, found, by rw [joinLines]; omega, by rw [joinLines, follow, List.append_nil]⟩
      | later missing further => cases further
  | cons next rest ih =>
      cases first with
      | here found =>
          rename_i j
          obtain ⟨front, back, hsplit, hfront⟩ := Search.offset_split found
          have hlen := congrArg List.length hsplit
          rw [List.length_append, List.length_append] at hlen
          refine ⟨j, by rw [offset_joinLines nonempty text, found]; rfl, ?_, ?_⟩
          · rw [joinLines_eq, List.length_append]
            omega
          · rw [joinLines_eq, List.drop_append_of_le_length (by omega)]
      | later missing further =>
          obtain ⟨j, hj, hle, hdrop⟩ := ih further
          refine ⟨j + (line.length + 2),
            by rw [offset_joinLines nonempty text, missing, hj]; rfl, ?_, ?_⟩
          · rw [joinLines, List.length_append, List.length_append, show crlf.length = 2 from rfl]
            omega
          · rw [joinLines, show j + (line.length + 2) + pattern.length =
              (line ++ crlf).length + (j + pattern.length) by
                rw [List.length_append, show crlf.length = 2 from rfl]
                omega, ← List.drop_drop, List.drop_left]
            exact hdrop

theorem offset_of_missing (nonempty : pattern ≠ []) (text : LineText pattern) {line : Bytes}
    {rest : List Bytes} (missing : ∀ l ∈ line :: rest, Search.offset pattern l = none) :
    Search.offset pattern (joinLines line rest) = none := by
  induction rest generalizing line with
  | nil => exact missing line List.mem_cons_self
  | cons next rest ih =>
      obtain ⟨hline, hrest⟩ := List.forall_mem_cons.mp missing
      rw [offset_joinLines nonempty text, hline, ih hrest]
      rfl

/-- The head ends behind its last line: a header line is not empty and does not start with white
space. -/
theorem offset_headEnd_joinLines {line : Bytes} {rest : List Bytes} (body : Bytes)
    (text : ∀ l ∈ line :: rest, LineText l)
    (solid : ∀ l ∈ rest, ∃ c l', l = c :: l' ∧ isspace c = false) :
    Search.offset headEnd (joinLines line rest ++ (headEnd ++ body)) =
      some (joinLines line rest).length := by
  have hend : headEnd = 0x0d :: [0x0a, 0x0d, 0x0a] := by decide +kernel
  induction rest generalizing line with
  | nil =>
      rw [joinLines]
      conv_lhs => rw [hend]
      rw [Search.offset_append_of_notMem (text line List.mem_cons_self).1, ← hend,
        Search.offset_of_isPrefix (List.prefix_append _ _), Option.map_some, Nat.zero_add]
  | cons next rest ih =>
      obtain ⟨hline, hrest⟩ := List.forall_mem_cons.mp text
      obtain ⟨⟨c, next', rfl, hc⟩, hsolid⟩ := List.forall_mem_cons.mp solid
      have hrec := ih hrest hsolid
      have hjoin : joinLines line ((c :: next') :: rest) ++ (headEnd ++ body) =
          line ++ (0x0d :: 0x0a :: (joinLines (c :: next') rest ++ (headEnd ++ body))) := by
        rw [joinLines, List.append_assoc, List.append_assoc]
        rfl
      have hfirst : joinLines (c :: next') rest ++ (headEnd ++ body) =
          c :: (next' ++ follow rest ++ (headEnd ++ body)) := by
        rw [joinLines_eq]
        rfl
      -- the line break is followed by a character of the next line
      have hreturn : ¬ headEnd <+: 0x0d :: 0x0a ::
          (joinLines (c :: next') rest ++ (headEnd ++ body)) := by
        rw [hfirst, hend]
        simp only [List.cons_prefix_cons]
        rintro ⟨-, -, rfl, -⟩
        cases hc
      have hfeed : ¬ headEnd <+: 0x0a :: (joinLines (c :: next') rest ++ (headEnd ++ body)) := by
        rw [hend, List.cons_prefix_cons]
        rintro ⟨h, -⟩
        cases h
      have hskip : Search.offset headEnd
          (0x0d :: 0x0a :: (joinLines (c :: next') rest ++ (headEnd ++ body))) =
            some ((joinLines (c :: next') rest).length + 2) := by
        rw [Search.offset, if_neg hreturn, Search.offset, if_neg hfeed, hrec]
        rfl
      have hpass := @Search.offset_append_of_notMem _ _ 0x0d line (hline.1) [0x0a, 0x0d, 0x0a]
        (0x0d :: 0x0a :: (joinLines (c :: next') rest ++ (headEnd ++ body)))
      rw [← hend, hskip] at hpass
      rw [hjoin, hpass, joinLines, List.length_append, List.length_append, Option.map_some,
        show crlf.length = 2 from rfl]
      congr 1
      omega

end Lines

/-! ### Values -/

/-- A line with something to read on it ends where it is stopped. -/
theorem lineValue_text {line : Bytes} (text : LineText line) (readable : ∃ c ∈ line, isspace c = false)
    {stop : UInt8} (stops : StopsValue stop) (rest : Bytes) :
    lineValue (line ++ stop :: rest) = line.dropWhile isspace := by
  have hne : line.dropWhile isspace ≠ [] := by
    intro hnil
    obtain ⟨c, hc, hspace⟩ := readable
    rw [List.dropWhile_eq_nil_iff.mp hnil c hc] at hspace
    cases hspace
  have hall : ∀ c ∈ line.dropWhile isspace, (c ≠ 0x0d && c ≠ 0) = true := by
    intro c hc
    have hmem : c ∈ line := (List.dropWhile_suffix _).subset hc
    have hreturn : c ≠ 0x0d := fun h => text.1 (h ▸ hmem)
    have hzero : c ≠ 0 := fun h => text.2.2 (h ▸ hmem)
    simp [hreturn, hzero]
  have hstop : ¬ (stop ≠ 0x0d && stop ≠ 0) = true := by
    rcases stops with rfl | rfl <;> decide
  rw [lineValue, List.dropWhile_append, if_neg (by simpa using hne),
    List.takeWhile_append_of_pos hall,
    List.takeWhile_cons_of_neg (p := fun c : UInt8 => c ≠ 0x0d && c ≠ 0) hstop, List.append_nil]

/-- What is read behind a name with `tail` on its line, `after` behind the line and `body` behind the
head. -/
def readBehind (body : Bytes) : Bytes → List Bytes → Bytes
  | [], [] => lineValue body
  | _ :: text, [] => text.dropWhile isspace
  | tail, next :: _ =>
      if ∀ c ∈ tail.drop 1, isspace c = true then next else (tail.drop 1).dropWhile isspace

theorem isspace_break : isspace 0x0d = true ∧ isspace 0x0a = true := by decide

/-- The next line, when the scan gets to its start. -/
theorem lineValue_next {next : Bytes} (rest : List Bytes) (text : LineText next)
    (solid : ∃ c l, next = c :: l ∧ isspace c = false) (more : Bytes) :
    lineValue (joinLines next rest ++ 0 :: more) = next := by
  obtain ⟨stop, tail, hstop, htail⟩ : ∃ stop tail, StopsValue stop ∧
      follow rest ++ 0 :: more = stop :: tail := by
    cases rest with
    | nil => exact ⟨0, more, Or.inr rfl, rfl⟩
    | cons line rest => exact ⟨0x0d, _, Or.inl rfl, rfl⟩
  obtain ⟨c, l, rfl, hc⟩ := solid
  rw [joinLines_eq, List.append_assoc, htail,
    lineValue_text text ⟨c, List.mem_cons_self, hc⟩ hstop,
    List.dropWhile_cons_of_neg (by rw [hc]; exact Bool.false_ne_true)]

/-- The value that the scans find behind a name. -/
theorem lineValue_behind {tail : Bytes} {after : List Bytes} (body residue : Bytes)
    (tailText : LineText tail) (text : ∀ l ∈ after, LineText l)
    (solid : ∀ l ∈ after, ∃ c l', l = c :: l' ∧ isspace c = false) :
    lineValue ((tail ++ follow after ++
      0 :: 0x0a :: 0x0d :: 0x0a :: (body ++ 0 :: residue)).drop 1) = readBehind body tail after := by
  have hwText : ∀ {t : UInt8} {w : Bytes}, tail = t :: w → LineText w := by
    rintro t w rfl
    exact ⟨fun h => tailText.1 (List.mem_cons_of_mem t h),
      fun h => tailText.2.1 (List.mem_cons_of_mem t h),
      fun h => tailText.2.2 (List.mem_cons_of_mem t h)⟩
  cases after with
  | nil =>
      cases tail with
      | nil =>
          have hbreaks : ∀ c ∈ ([0x0a, 0x0d, 0x0a] : Bytes), isspace c = true := by
            simp [isspace_break]
          exact (lineValue_blank hbreaks _).trans (lineValue_zero body residue)
      | cons t w =>
          rw [follow, List.append_nil, List.cons_append, List.drop_one, List.tail_cons, readBehind]
          by_cases hreadable : ∃ c ∈ w, isspace c = false
          · exact lineValue_text (hwText rfl) hreadable (Or.inr rfl) _
          · have hblank : ∀ c ∈ w, isspace c = true := by
              simpa using hreadable
            rw [lineValue_blank hblank, List.dropWhile_eq_nil_iff.mpr hblank]
            rfl
  | cons next rest =>
      have hnext := lineValue_next rest (text next List.mem_cons_self) (solid next List.mem_cons_self)
        (0x0a :: 0x0d :: 0x0a :: (body ++ 0 :: residue))
      cases tail with
      | nil =>
          have hfeed : ∀ c ∈ ([0x0a] : Bytes), isspace c = true := by simp [isspace_break]
          rw [readBehind, if_pos (by simp)]
          exact (lineValue_blank hfeed _).trans hnext
      | cons t w =>
          rw [readBehind]
          show lineValue (w ++ (crlf ++ joinLines next rest) ++ _) = _
          rw [List.append_assoc]
          by_cases hreadable : ∃ c ∈ w, isspace c = false
          · have hnot : ¬ ∀ c ∈ (t :: w).drop 1, isspace c = true := by
              simpa using hreadable
            rw [if_neg hnot]
            exact lineValue_text (hwText rfl) hreadable (Or.inl rfl) _
          · have hblank : ∀ c ∈ w, isspace c = true := by
              simpa using hreadable
            have hbreak : ∀ c ∈ crlf, isspace c = true := by simp [crlf, isspace_break]
            rw [if_pos (by simpa using hblank), lineValue_blank hblank, List.append_assoc,
              lineValue_blank hbreak]
            exact hnext

/-! ### Messages -/

theorem HeaderField.line_solid (field : HeaderField) :
    ∃ c l, field.line = c :: l ∧ isspace c = false := by
  obtain ⟨c, name, hname⟩ := List.exists_cons_of_ne_nil field.isName.nonempty
  refine ⟨c, _, by rw [HeaderField.line, hname]; rfl, ?_⟩
  exact field.isName.solid c (by rw [hname]; exact List.mem_cons_self)

theorem FieldName.lineText {name : Bytes} (isName : FieldName name) : LineText name :=
  ⟨fun h => (by cases isName.solid _ h), fun h => (by cases isName.solid _ h), isName.terminated⟩

theorem LineText.append {front back : Bytes} (first : LineText front) (second : LineText back) :
    LineText (front ++ back) := by
  simp only [LineText, List.mem_append, not_or]
  exact ⟨⟨first.1, second.1⟩, ⟨first.2.1, second.2.1⟩, ⟨first.2.2, second.2.2⟩⟩

theorem Ows.lineText {text : Bytes} (ows : Ows text) : LineText text := by
  refine ⟨fun h => ?_, fun h => ?_, fun h => ?_⟩ <;>
    rcases ows _ h with h | h <;> cases h

theorem lineText_colon : LineText [0x3a] := by decide

theorem HeaderField.line_text (field : HeaderField) : LineText field.line :=
  (((field.isName.lineText.append lineText_colon).append field.before_ows.lineText).append
    field.isText).append field.after_ows.lineText

theorem joinLines_terminated {line : Bytes} {rest : List Bytes}
    (text : ∀ l ∈ line :: rest, LineText l) : 0 ∉ joinLines line rest := by
  induction rest generalizing line with
  | nil => exact (text line List.mem_cons_self).2.2
  | cons next rest ih =>
      obtain ⟨hline, hrest⟩ := List.forall_mem_cons.mp text
      rw [joinLines, List.mem_append, List.mem_append, not_or, not_or]
      exact ⟨⟨hline.2.2, by decide⟩, ih hrest⟩

theorem FirstIn.mem {pattern tail : Bytes} {lines after : List Bytes}
    (first : FirstIn pattern lines tail after) :
    (∃ line ∈ lines, ∃ j, tail = line.drop j) ∧ ∀ l ∈ after, l ∈ lines.tail := by
  induction first with
  | here found => exact ⟨⟨_, List.mem_cons_self, _, rfl⟩, fun l hl => hl⟩
  | later missing further ih =>
      obtain ⟨⟨line, hline, j, htail⟩, hafter⟩ := ih
      exact ⟨⟨line, List.mem_cons_of_mem _ hline, j, htail⟩,
        fun l hl => List.mem_of_mem_tail (hafter l hl)⟩

theorem LineText.drop {line : Bytes} (text : LineText line) (j : Nat) : LineText (line.drop j) :=
  ⟨fun h => text.1 (List.mem_of_mem_drop h), fun h => text.2.1 (List.mem_of_mem_drop h),
    fun h => text.2.2 (List.mem_of_mem_drop h)⟩

/-! ### Heads -/

/-- The lines of a head: text, and behind the first line no line that is empty or begins with white
space. -/
structure HeadLines (line : Bytes) (rest : List Bytes) : Prop where
  text : ∀ l ∈ line :: rest, LineText l
  solid : ∀ l ∈ rest, ∃ c l', l = c :: l' ∧ isspace c = false

namespace HeadLines

variable {line body pattern : Bytes} {rest : List Bytes}

/-- Where a head ends in a buffer that holds it. -/
theorem offset_headEnd_bytes (isHead : HeadLines line rest) (terminated : 0 ∉ body) (residue : Bytes) :
    (joinLines line rest ++ crlf ++ crlf ++ body ++ 0 :: residue).takeWhile (· ≠ 0) =
      joinLines line rest ++ crlf ++ crlf ++ body ∧
    Search.offset headEnd (joinLines line rest ++ crlf ++ crlf ++ body) =
      some (joinLines line rest).length ∧
    (joinLines line rest ++ crlf ++ crlf ++ body ++ 0 :: residue).take (joinLines line rest).length =
      joinLines line rest ∧
    (joinLines line rest ++ crlf ++ crlf ++ body ++ 0 :: residue).set (joinLines line rest).length 0 =
      joinLines line rest ++ 0 :: 0x0a :: 0x0d :: 0x0a :: (body ++ 0 :: residue) := by
  have hend : headEnd = crlf ++ crlf := by decide +kernel
  have hbytes : joinLines line rest ++ crlf ++ crlf ++ body =
      joinLines line rest ++ (headEnd ++ body) := by
    rw [hend, List.append_assoc, List.append_assoc, List.append_assoc]
  have hzero : 0 ∉ joinLines line rest ++ crlf ++ crlf ++ body := by
    rw [hbytes, List.mem_append, List.mem_append, not_or, not_or]
    exact ⟨joinLines_terminated isHead.text, by decide +kernel, terminated⟩
  have hmem : joinLines line rest ++ crlf ++ crlf ++ body ++ 0 :: residue =
      joinLines line rest ++ 0x0d :: 0x0a :: 0x0d :: 0x0a :: (body ++ 0 :: residue) := by
    rw [hbytes, hend, List.append_assoc, List.append_assoc]
    rfl
  refine ⟨?_, ?_, ?_, ?_⟩
  · rw [takeWhile_text hzero]
    simp
  · rw [hbytes]
    exact offset_headEnd_joinLines body isHead.text isHead.solid
  · rw [hmem, List.take_left]
  · rw [hmem, List.set_append_right _ _ (le_refl _), Nat.sub_self]
    rfl

/-- A pattern that stands on no line of a head is not found. -/
theorem parseHttpHeads_missing (isHead : HeadLines line rest) (terminated : 0 ∉ body)
    (nonempty : pattern ≠ []) (text : LineText pattern) (residue : Bytes)
    (missing : ∀ l ∈ line :: rest, Search.offset pattern l = none) :
    parseHttpHeads (joinLines line rest ++ crlf ++ crlf ++ body ++ 0 :: residue) pattern =
      .ok none := by
  obtain ⟨hwhile, hend, htake, -⟩ := isHead.offset_headEnd_bytes terminated residue
  rw [parseHttpHeads_terminated (List.mem_append_right _ List.mem_cons_self), headValue, hwhile, hend,
    Option.bind_some, htake, offset_of_missing nonempty text missing]
  rfl

/-- What is read behind the first line that holds the pattern. -/
theorem parseHttpHeads_first (isHead : HeadLines line rest) (terminated : 0 ∉ body)
    (nonempty : pattern ≠ []) (text : LineText pattern) (residue : Bytes) {tail : Bytes}
    {after : List Bytes} (first : FirstIn pattern (line :: rest) tail after) :
    parseHttpHeads (joinLines line rest ++ crlf ++ crlf ++ body ++ 0 :: residue) pattern =
      .ok (some (readBehind body tail after)) := by
  obtain ⟨hwhile, hend, htake, hset⟩ := isHead.offset_headEnd_bytes terminated residue
  obtain ⟨j, hj, hle, hdrop⟩ := offset_of_firstIn nonempty text first
  obtain ⟨⟨held, hheld, i, htail⟩, hafter⟩ := first.mem
  have htailText : LineText tail := by
    rw [htail]
    exact (isHead.text held hheld).drop i
  have hafterText : ∀ l ∈ after, LineText l := fun l hl =>
    isHead.text l (List.mem_cons_of_mem _ (hafter l hl))
  have hsolid : ∀ l ∈ after, ∃ c l', l = c :: l' ∧ isspace c = false := fun l hl =>
    isHead.solid l (hafter l hl)
  rw [← hwhile] at hend
  rw [← htake] at hj
  rw [parseHttpHeads_terminated (List.mem_append_right _ List.mem_cons_self), headValue_eq hend hj,
    hset, ← Nat.add_assoc, ← List.drop_drop, List.drop_append_of_le_length hle, hdrop,
    lineValue_behind body residue htailText hafterText hsolid]

/-- Part of a head does not hold its end. -/
theorem unended_cut (isHead : HeadLines line rest) {n : Nat}
    (short : n < (joinLines line rest ++ crlf ++ crlf).length) :
    ¬ headEnd <:+: (joinLines line rest ++ crlf ++ crlf).take n := by
  rintro ⟨front, back, hsplit⟩
  have hend : headEnd = crlf ++ crlf := by decide +kernel
  have hfound : Search.offset headEnd (joinLines line rest ++ crlf ++ crlf) =
      some (joinLines line rest).length := by
    have hfound := offset_headEnd_joinLines [] isHead.text isHead.solid
    rwa [List.append_nil, hend, ← List.append_assoc, ← hend] at hfound
  have hwhole : front ++ headEnd ++ (back ++ (joinLines line rest ++ crlf ++ crlf).drop n) =
      joinLines line rest ++ crlf ++ crlf := by
    rw [← List.append_assoc, hsplit, List.take_append_drop]
  obtain ⟨k, hk, hle⟩ := Search.offset_of_split front headEnd
    (back ++ (joinLines line rest ++ crlf ++ crlf).drop n)
  rw [hwhole, hfound, Option.some.injEq] at hk
  have hcut := congrArg List.length hsplit
  rw [List.length_append, List.length_append, List.length_take, hend, List.length_append] at hcut
  rw [List.length_append, List.length_append] at short
  omega

end HeadLines

namespace HttpMessage

variable (m : HttpMessage)

/-- The lines of the head. -/
def lines : List Bytes := m.startLine :: m.headerLines

theorem lines_text : ∀ l ∈ m.lines, LineText l := by
  refine List.forall_mem_cons.mpr ⟨m.isText, fun l hl => ?_⟩
  obtain ⟨field, -, rfl⟩ := List.mem_map.mp hl
  exact field.line_text

theorem headerLines_solid : ∀ l ∈ m.headerLines, ∃ c l', l = c :: l' ∧ isspace c = false := by
  intro l hl
  obtain ⟨field, -, rfl⟩ := List.mem_map.mp hl
  exact field.line_solid

theorem headLines_of : HeadLines m.startLine m.headerLines := ⟨m.lines_text, m.headerLines_solid⟩

section Lookup

variable {m} {name : Bytes}

/-- What the scans look for. -/
theorem needle_text (isName : FieldName name) :
    LineText (name ++ [0x3a]) ∧ name ++ [0x3a] ≠ [] :=
  ⟨isName.lineText.append lineText_colon, by simp⟩

theorem parseHttpHeads_missing (isName : FieldName name) (residue : Bytes)
    (missing : ∀ line ∈ m.lines, Search.offset (name ++ [0x3a]) line = none) :
    parseHttpHeads (m.bytes ++ 0 :: residue) (name ++ [0x3a]) = .ok none := by
  obtain ⟨htext, hnonempty⟩ := needle_text isName
  exact m.headLines_of.parseHttpHeads_missing m.terminated hnonempty htext residue missing

theorem parseHttpHeads_first (isName : FieldName name) (residue : Bytes) {tail : Bytes}
    {after : List Bytes} (first : FirstIn (name ++ [0x3a]) m.lines tail after) :
    parseHttpHeads (m.bytes ++ 0 :: residue) (name ++ [0x3a]) =
      .ok (some (readBehind m.body tail after)) := by
  obtain ⟨htext, hnonempty⟩ := needle_text isName
  exact m.headLines_of.parseHttpHeads_first m.terminated hnonempty htext residue first

end Lookup

end HttpMessage

/-! ### Lookups -/

/-- The message is such that the scans read the value of the field: it has no such field and its
name stands nowhere in the head, or what they meet behind the first place where the name stands
reads like the value. That is the rest of the line behind one more character and white space; the
next line, if there is nothing but white space; or the body, if the head ends there. -/
inductive ReadsRight (m : HttpMessage) (name : Bytes) : Prop where
  | absent (noField : m.lookup name = none)
      (nowhere : ∀ line ∈ m.lines, ¬ name ++ [0x3a] <:+: line)
  | sameLine {c : UInt8} {text value : Bytes} {after : List Bytes}
      (field : m.lookup name = some value)
      (first : FirstIn (name ++ [0x3a]) m.lines (c :: text) after)
      (reads : text.dropWhile isspace = value) (ends : value ≠ [] ∨ after = [])
  | nextLine {tail next : Bytes} {after : List Bytes} (field : m.lookup name = some next)
      (first : FirstIn (name ++ [0x3a]) m.lines tail (next :: after))
      (blank : ∀ c ∈ tail.drop 1, isspace c = true)
  | bodyText (field : m.lookup name = some (lineValue m.body))
      (first : FirstIn (name ++ [0x3a]) m.lines [] [])

/-- **Header lookup.** `parse_http_heads` returns the value of the first field of the name, or
nothing if there is none, exactly for the messages that read right. -/
theorem parseHttpHeads_lookup (m : HttpMessage) {name : Bytes} (isName : FieldName name)
    (residue : Bytes) :
    parseHttpHeads (m.bytes ++ 0 :: residue) (name ++ [0x3a]) = .ok (m.lookup name) ↔
      ReadsRight m name := by
  constructor
  · intro hright
    rcases firstIn_or (name ++ [0x3a]) m.lines with hmissing | ⟨tail, after, hfirst⟩
    · rw [HttpMessage.parseHttpHeads_missing isName residue hmissing] at hright
      refine .absent (Except.ok.inj hright).symm fun line hline => ?_
      exact Search.offset_eq_none_iff.mp (hmissing line hline)
    · rw [HttpMessage.parseHttpHeads_first isName residue hfirst] at hright
      have hfield := (Except.ok.inj hright).symm
      cases after with
      | nil =>
          cases tail with
          | nil => exact .bodyText hfield hfirst
          | cons c text => exact .sameLine hfield hfirst rfl (Or.inr rfl)
      | cons next after =>
          by_cases hblank : ∀ c ∈ tail.drop 1, isspace c = true
          · rw [readBehind, if_pos hblank] at hfield
            exact .nextLine hfield hfirst hblank
          · cases tail with
            | nil => exact absurd (by simp) hblank
            | cons c text =>
                rw [readBehind, if_neg hblank] at hfield
                refine .sameLine hfield hfirst rfl (Or.inl fun hnil => hblank ?_)
                exact List.dropWhile_eq_nil_iff.mp hnil
  · intro reads
    cases reads with
    | absent noField nowhere =>
        rw [noField]
        exact HttpMessage.parseHttpHeads_missing isName residue fun line hline =>
          Search.offset_eq_none_iff.mpr (nowhere line hline)
    | @sameLine c text value after field first reads ends =>
        rw [field, HttpMessage.parseHttpHeads_first isName residue first]
        cases after with
        | nil => rw [readBehind, reads]
        | cons next after =>
            have hblank : ¬ ∀ d ∈ (c :: text).drop 1, isspace d = true := by
              intro hblank
              have hnil : text.dropWhile isspace = [] := List.dropWhile_eq_nil_iff.mpr hblank
              rcases ends with hvalue | hafter
              · exact hvalue (reads.symm.trans hnil)
              · cases hafter
            rw [readBehind, if_neg hblank]
            exact congrArg (fun v => Except.ok (some v)) reads
    | nextLine field first blank =>
        rw [field, HttpMessage.parseHttpHeads_first isName residue first, readBehind, if_pos blank]
    | bodyText field first =>
        rw [field, HttpMessage.parseHttpHeads_first isName residue first, readBehind]

theorem getLine_text : LineText (ascii "GET / HTTP/1.1") := by decide

theorem statusLine_text : LineText (ascii "HTTP/1.1 101 Switching Protocols") := by decide

theorem noBody_terminated : 0 ∉ ([] : Bytes) := List.not_mem_nil

/-- A request with one field. -/
def requestWith {name : Bytes} (isName : FieldName name) : HttpMessage where
  startLine := ascii "GET / HTTP/1.1"
  fields := [⟨name, [0x20], ascii "abc", [], isName, ows_space, ows_nil, by decide,
    trimmed_of_solid (by decide)⟩]
  body := []
  isText := getLine_text
  terminated := noBody_terminated

theorem fieldName_key : FieldName keyName :=
  ⟨by decide +kernel, by decide +kernel, by decide +kernel, by decide +kernel⟩

theorem fieldName_accept : FieldName acceptName :=
  ⟨by decide, by decide, by decide, by decide⟩

theorem fieldName_lower : FieldName (ascii "sec-websocket-key") :=
  ⟨by decide +kernel, by decide +kernel, by decide +kernel, by decide +kernel⟩

theorem parseHttpHeads_lookup_key :
    FieldName (ascii "Sec-WebSocket-Key") ∧
    (parseHttpHeads ((requestWith fieldName_key).bytes ++ 0 :: [1, 2])
        (ascii "Sec-WebSocket-Key" ++ [0x3a]) =
      .ok ((requestWith fieldName_key).lookup (ascii "Sec-WebSocket-Key")) ↔
        ReadsRight (requestWith fieldName_key) (ascii "Sec-WebSocket-Key")) :=
  ⟨fieldName_key, parseHttpHeads_lookup _ fieldName_key [1, 2]⟩

/-- A key field in lower case: the message has the field, and `parse_http_heads` does not find it. -/
theorem parseHttpHeads_misses :
    (requestWith fieldName_lower).lookup (ascii "Sec-WebSocket-Key") = some (ascii "abc") ∧
    parseHttpHeads ((requestWith fieldName_lower).bytes ++ [0]) (ascii "Sec-WebSocket-Key" ++ [0x3a]) =
      .ok none ∧
    parseHttpHeads ((requestWith fieldName_lower).bytes ++ [0]) (ascii "Sec-WebSocket-Key" ++ [0x3a]) ≠
      .ok ((requestWith fieldName_lower).lookup (ascii "Sec-WebSocket-Key")) := by
  refine ⟨?_, ?_, ?_⟩ <;> decide +kernel

/-- Lines without the pattern stand in front of the first one. -/
theorem FirstIn.append {pattern tail : Bytes} {front lines after : List Bytes}
    (missing : ∀ line ∈ front, ¬ pattern <:+: line) (first : FirstIn pattern lines tail after) :
    FirstIn pattern (front ++ lines) tail after := by
  induction front with
  | nil => exact first
  | cons line front ih =>
      obtain ⟨hline, hfront⟩ := List.forall_mem_cons.mp missing
      exact .later (Search.offset_eq_none_iff.mpr hline) (ih hfront)

/-- **Plain fields.** A field that is spelled like the name, with one space in front of its value
and none behind it, reads right, if no field before it is of that name and no line before it holds
the name. -/
theorem ReadsRight.plain {m : HttpMessage} {front back : List HeaderField} {field : HeaderField}
    (fields_eq : m.fields = front ++ field :: back) {c : UInt8} (space : field.before = [c])
    (bare : field.after = []) (solid : ∃ d text, field.value = d :: text ∧ isspace d = false)
    (others : ∀ other ∈ front, sameName other.name field.name = false)
    (earlier : ∀ line ∈ m.startLine :: front.map HeaderField.line,
      ¬ field.name ++ [0x3a] <:+: line) : ReadsRight m field.name := by
  obtain ⟨d, text, hvalue, hd⟩ := solid
  have hlookup : m.lookup field.name = some field.value := by
    have hfront : front.find? (fun other => sameName other.name field.name) = none :=
      List.find?_eq_none.mpr fun other hother => by simp [others other hother]
    have hfind : m.fields.find? (fun other => sameName other.name field.name) = some field := by
      rw [fields_eq, List.find?_append, hfront, Option.none_or,
        List.find?_cons_of_pos (by simp [sameName])]
    rw [HttpMessage.lookup, hfind, Option.map_some]
  have hline : field.line = field.name ++ [0x3a] ++ c :: field.value := by
    rw [HeaderField.line, space, bare, List.append_nil, List.append_assoc]
    rfl
  have hfound : Search.offset (field.name ++ [0x3a]) field.line = some 0 :=
    Search.offset_of_isPrefix (by rw [hline]; exact List.prefix_append _ _)
  have hhere := @FirstIn.here (field.name ++ [0x3a]) _ (back.map HeaderField.line) 0 hfound
  rw [hline, Nat.zero_add, List.drop_left] at hhere
  have hlines : m.lines = (m.startLine :: front.map HeaderField.line) ++
      field.line :: back.map HeaderField.line := by
    rw [HttpMessage.lines, HttpMessage.headerLines, fields_eq, List.map_append, List.map_cons]
    rfl
  refine .sameLine hlookup (by rw [hlines, hline]; exact FirstIn.append earlier hhere) ?_ (Or.inl ?_)
  · rw [hvalue, List.dropWhile_cons_of_neg (by rw [hd]; exact Bool.false_ne_true)]
  · rw [hvalue]
    exact List.cons_ne_nil _ _

end AnotherWs
