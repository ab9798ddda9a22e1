import LspServerTokio.Foundation.Lines

namespace LspServerTokio.FormatterServer

open Foundation Foundation.Text Foundation.Lines

/-- The places where the formatter's work on a text stops the program. -/
inductive TextPanic
  | strSlice
  | addOverflow
  deriving DecidableEq

abbrev U32 := {n : ℕ // n < 2 ^ 32}

instance : Zero U32 := ⟨⟨0, by decide⟩⟩

/-- An addition with overflow checks. -/
def U32.add (a : U32) (b : ℕ) : Except TextPanic U32 :=
  if h : a.val + b < 2 ^ 32 then .ok ⟨a.val + b, h⟩ else .error .addOverflow

theorem U32.add_of_lt {a : U32} {b : ℕ} (h : a.val + b < 2 ^ 32) : a.add b = .ok ⟨a.val + b, h⟩ :=
  dif_pos h

structure Position where
  line : U32
  character : U32
  deriving DecidableEq

def Position.place (p : Position) : TextPlace := ⟨p.line, p.character⟩

/-- The loop of `line_start_offset`. -/
def lineStartLoop (content : List Char) (targetLine : U32) (offset : ℕ) (currentLine : U32) :
    Except TextPanic (ℕ × U32) :=
  if _h : offset < (utf8Bytes content).length ∧ currentLine < targetLine then
    if (utf8Bytes content)[offset]? = some 10 then do
      lineStartLoop content targetLine (offset + 1) (← currentLine.add 1)
    else if (utf8Bytes content)[offset]? = some 13 then do
      let next := if (utf8Bytes content)[offset + 1]? = some 10 then offset + 2 else offset + 1
      lineStartLoop content targetLine next (← currentLine.add 1)
    else
      match sliceFrom offset content with
      | none => .error .strSlice
      | some rest =>
        lineStartLoop content targetLine (offset + rest.head?.elim 1 Char.utf8Size) currentLine
  else .ok (offset, currentLine)
termination_by (utf8Bytes content).length - offset
decreasing_by
  · omega
  · split_ifs <;> omega
  · rcases rest.head? with _ | ch
    · exact Nat.sub_lt_sub_left _h.1 (Nat.lt_succ_self _)
    · exact Nat.sub_lt_sub_left _h.1 (Nat.lt_add_of_pos_right ch.utf8Size_pos)

def lineStartOffset (content : List Char) (targetLine : U32) : Except TextPanic ℕ := do
  let (offset, currentLine) ← lineStartLoop content targetLine 0 0
  return if currentLine = targetLine then offset else (utf8Bytes content).length

/-- The loop of `position_to_offset` over the characters from the beginning of the line. -/
def columnLoop (character : U32) : List Char → ℕ → U32 → Except TextPanic ℕ
  | [], offset, _ => .ok offset
  | ch :: cs, offset, utf16Units =>
    if ch = '\n' ∨ ch = '\r' then .ok offset
    else do
      let nextUnits ← utf16Units.add (lenUtf16 ch)
      if nextUnits > character then return offset
      columnLoop character cs (offset + ch.utf8Size) nextUnits

def positionToOffset (content : List Char) (pos : Position) : Except TextPanic ℕ := do
  let lineStart ← lineStartOffset content pos.line
  if lineStart ≥ (utf8Bytes content).length then return (utf8Bytes content).length
  match sliceFrom lineStart content with
  | none => .error .strSlice
  | some rest => columnLoop pos.character rest lineStart 0

/-- The loop of `end_position_utf16`. -/
def endPositionLoop (content : List Char) (offset : ℕ) (position : Position) :
    Except TextPanic Position :=
  if _h : offset < (utf8Bytes content).length then
    if (utf8Bytes content)[offset]? = some 10 then do
      endPositionLoop content (offset + 1) ⟨← position.line.add 1, 0⟩
    else if (utf8Bytes content)[offset]? = some 13 then do
      let next := if (utf8Bytes content)[offset + 1]? = some 10 then offset + 2 else offset + 1
      endPositionLoop content next ⟨← position.line.add 1, 0⟩
    else
      match sliceFrom offset content with
      | none => .error .strSlice
      | some [] => .ok position
      | some (ch :: _) => do
        let character ← position.character.add (lenUtf16 ch)
        endPositionLoop content (offset + ch.utf8Size) { position with character }
  else .ok position
termination_by (utf8Bytes content).length - offset
decreasing_by
  · omega
  · split_ifs <;> omega
  · exact Nat.sub_lt_sub_left _h (Nat.lt_add_of_pos_right ch.utf8Size_pos)

def endPositionUtf16 (content : List Char) : Except TextPanic Position :=
  endPositionLoop content 0 ⟨0, 0⟩

section Bytes

theorem utf8Bytes_cons_length (c : Char) (cs : List Char) :
    (utf8Bytes (c :: cs)).length = c.utf8Size + (utf8Bytes cs).length := by
  simp [utf8Bytes, String.length_utf8EncodeChar]

theorem getElem?_utf8Bytes (front back : List Char) :
    (utf8Bytes (front ++ back))[(utf8Bytes front).length]? = (utf8Bytes back).head? := by
  rw [utf8Bytes_append, List.getElem?_append_right le_rfl, Nat.sub_self, List.head?_eq_getElem?]

theorem sliceFrom_utf8Bytes (front back : List Char) :
    sliceFrom (utf8Bytes front).length (front ++ back) = some back :=
  sliceFrom_eq_some.mpr ⟨front, rfl, rfl⟩

/-- A byte below 128 begins a text exactly if the character with that code does. -/
theorem head?_utf8Bytes {a : Char} (ha : a.val.toNat < 128) {b : UInt8} (hb : b.toNat = a.val.toNat)
    (cs : List Char) : (utf8Bytes cs).head? = some b ↔ cs.head? = some a := by
  rcases cs with _ | ⟨c, cs⟩
  · simp [utf8Bytes]
  · have hlen : 0 < (String.utf8EncodeChar c).length := by
      rw [String.length_utf8EncodeChar]
      exact c.utf8Size_pos
    obtain ⟨d, ds, hd⟩ := List.exists_cons_of_length_pos hlen
    have hhead : (utf8Bytes (c :: cs)).head? = some d := by
      rw [utf8Bytes, List.flatMap_cons, hd, List.cons_append, List.head?_cons]
    rw [hhead, List.head?_cons, Option.some_inj, Option.some_inj]
    constructor
    · rintro rfl
      have hmem : d ∈ utf8Bytes [c] := by simp [utf8Bytes, hd]
      obtain ⟨e, he, heq⟩ := mem_utf8Bytes (hb ▸ ha) hmem
      rw [List.mem_singleton.mp he] at heq
      exact Char.ext (UInt32.toNat_inj.mp (heq.trans hb))
    · rintro rfl
      have hsize : c.utf8Size = 1 := by
        rw [Char.utf8Size_eq_one_iff, UInt32.le_iff_toNat_le]
        exact Nat.le_of_lt_succ ha
      rw [String.utf8EncodeChar_eq_singleton hsize] at hd
      obtain ⟨rfl, -⟩ := List.cons.inj hd
      refine UInt8.toNat_inj.mp ?_
      rw [hb, UInt32.toNat_toUInt8]
      exact Nat.mod_eq_of_lt (ha.trans (by decide))

end Bytes

section Loops

variable {front back : List Char} {b : LineBreak} {c : Char}

theorem byteLength_append (front back : List Char) :
    (utf8Bytes (front ++ back)).length = (utf8Bytes front).length + (utf8Bytes back).length := by
  rw [utf8Bytes_append, List.length_append]

theorem byteLength_pos (hne : back ≠ []) : 0 < (utf8Bytes back).length :=
  List.length_pos_of_ne_nil fun h ↦ hne (utf8Bytes_eq_nil.mp h)

theorem offset_lt (hne : back ≠ []) : (utf8Bytes front).length < (utf8Bytes (front ++ back)).length := by
  rw [byteLength_append]
  exact Nat.lt_add_of_pos_right (byteLength_pos hne)

theorem byte_lf : (utf8Bytes (front ++ back))[(utf8Bytes front).length]? = some 10 ↔
    back.head? = some '\n' := by
  rw [getElem?_utf8Bytes]
  exact head?_utf8Bytes (by decide) rfl back

theorem byte_cr : (utf8Bytes (front ++ back))[(utf8Bytes front).length]? = some 13 ↔
    back.head? = some '\r' := by
  rw [getElem?_utf8Bytes]
  exact head?_utf8Bytes (by decide) rfl back

theorem byte_behind_cr : (utf8Bytes (front ++ '\r' :: back))[(utf8Bytes front).length + 1]? = some 10 ↔
    back.head? = some '\n' := by
  have hlen : (utf8Bytes front).length + 1 = (utf8Bytes (front ++ ['\r'])).length := by
    rw [byteLength_append]
    rfl
  rw [List.append_cons, hlen]
  exact byte_lf

theorem byte_of_char (front back : List Char) (hcr : c ≠ '\r') (hlf : c ≠ '\n') :
    (utf8Bytes (front ++ c :: back))[(utf8Bytes front).length]? ≠ some 10 ∧
      (utf8Bytes (front ++ c :: back))[(utf8Bytes front).length]? ≠ some 13 := by
  rw [ne_eq, ne_eq, byte_lf, byte_cr]
  simp [hcr, hlf]

/-- How far the loops go behind the offset of a line break. -/
theorem byte_of_break (front : List Char) (h : Ends b back) :
    let offset := (utf8Bytes front).length
    let bytes := utf8Bytes (front ++ (b.chars ++ back))
    (bytes[offset]? = some 10 ∧ (utf8Bytes (front ++ b.chars)).length = offset + 1) ∨
    (bytes[offset]? ≠ some 10 ∧ bytes[offset]? = some 13 ∧
      (utf8Bytes (front ++ b.chars)).length =
        if bytes[offset + 1]? = some 10 then offset + 2 else offset + 1) := by
  dsimp only
  rw [byteLength_append]
  cases b with
  | lf => exact .inl ⟨byte_lf.mpr rfl, rfl⟩
  | crlf =>
    refine .inr ⟨fun h ↦ ?_, byte_cr.mpr rfl, ?_⟩
    · exact absurd (byte_lf.mp h) (by simp [LineBreak.chars])
    · rw [LineBreak.chars, List.cons_append, if_pos (byte_behind_cr.mpr rfl)]
      rfl
  | cr =>
    refine .inr ⟨fun h ↦ ?_, byte_cr.mpr rfl, ?_⟩
    · exact absurd (byte_lf.mp h) (by simp [LineBreak.chars])
    · rw [LineBreak.chars, List.cons_append, List.nil_append,
        if_neg (fun he ↦ h rfl (byte_behind_cr.mp he))]
      rfl

theorem break_ne_nil (b : LineBreak) (back : List Char) : b.chars ++ back ≠ [] := by
  cases b <;> simp [LineBreak.chars]

theorem lineStartLoop_break (h : Ends b back) {target current next : U32} (hlt : current < target)
    (hnext : current.add 1 = .ok next) :
    lineStartLoop (front ++ (b.chars ++ back)) target (utf8Bytes front).length current =
      lineStartLoop (front ++ (b.chars ++ back)) target (utf8Bytes (front ++ b.chars)).length next := by
  rw [lineStartLoop, dif_pos ⟨offset_lt (break_ne_nil b back), hlt⟩]
  rcases byte_of_break front h with ⟨hlf, hlen⟩ | ⟨hlf, hcr, hlen⟩
  · rw [if_pos hlf, hnext, hlen]
    rfl
  · rw [if_neg hlf, if_pos hcr, hnext, hlen]
    rfl

theorem lineStartLoop_char (hcr : c ≠ '\r') (hlf : c ≠ '\n') {target current : U32}
    (hlt : current < target) :
    lineStartLoop (front ++ c :: back) target (utf8Bytes front).length current =
      lineStartLoop (front ++ c :: back) target (utf8Bytes (front ++ [c])).length current := by
  obtain ⟨hlf, hcr⟩ := byte_of_char front back hcr hlf
  rw [lineStartLoop, dif_pos ⟨offset_lt (List.cons_ne_nil _ _), hlt⟩, if_neg hlf, if_neg hcr,
    sliceFrom_utf8Bytes, byteLength_append, utf8Bytes_cons_length c []]
  rfl

/-- The loop stops at the target line, or else behind the whole text. -/
theorem lineStartLoop_eq {n : ℕ} {target current : U32} (hn : current.val + n = target.val) :
    ∃ line, lineStartLoop (front ++ back) target (utf8Bytes front).length current =
      .ok ((utf8Bytes (front ++ frontOf ⟨n, 0⟩ back)).length, line) ∧
      (line = target ∨ frontOf ⟨n, 0⟩ back = back) := by
  induction back using text_induction generalizing front n current with
  | nil =>
    refine ⟨current, ?_, .inr rfl⟩
    rw [lineStartLoop, frontOf_nil, List.append_nil, dif_neg (fun h ↦ h.1.false)]
  | lineBreak b cs hb ih =>
    cases n with
    | zero =>
      have hcurrent : current = target := Subtype.ext hn
      refine ⟨current, ?_, .inl hcurrent⟩
      rw [lineStartLoop, dif_neg (fun h ↦ h.2.ne hcurrent), frontOf_zero, List.append_nil]
    | succ n =>
      have hlt : current < target := Subtype.coe_lt_coe.mp (by omega)
      have hmax : current.val + 1 < 2 ^ 32 := lt_of_le_of_lt (by omega) target.property
      obtain ⟨line, hline, hstop⟩ := @ih (front ++ b.chars) n ⟨current.val + 1, hmax⟩
        (by simp only; omega)
      refine ⟨line, ?_, hstop.imp_right fun hstop ↦ ?_⟩
      · rw [lineStartLoop_break hb hlt (U32.add_of_lt hmax), ← List.append_assoc, hline,
          frontOf_break_succ hb, List.append_assoc]
      · rw [frontOf_break_succ hb, hstop]
  | char c cs hcr hlf ih =>
    cases n with
    | zero =>
      have hcurrent : current = target := Subtype.ext hn
      refine ⟨current, ?_, .inl hcurrent⟩
      rw [lineStartLoop, dif_neg (fun h ↦ h.2.ne hcurrent), frontOf_zero, List.append_nil]
    | succ n =>
      have hlt : current < target := Subtype.coe_lt_coe.mp (by omega)
      obtain ⟨line, hline, hstop⟩ := @ih (front ++ [c]) (n + 1) current hn
      refine ⟨line, ?_, hstop.imp_right fun hstop ↦ ?_⟩
      · rw [lineStartLoop_char hcr hlf hlt, List.append_cons, hline, frontOf_char_succ hcr hlf,
          List.append_assoc]
        rfl
      · rw [frontOf_char_succ hcr hlf, hstop]

theorem lineStartOffset_eq (content : List Char) (target : U32) :
    lineStartOffset content target = .ok (utf8Bytes (frontOf ⟨target, 0⟩ content)).length := by
  obtain ⟨line, hline, hstop⟩ := @lineStartLoop_eq [] content target target 0
    (Nat.zero_add _)
  simp only [List.nil_append] at hline
  change lineStartLoop content target 0 0 = _ at hline
  rw [lineStartOffset, hline]
  by_cases he : line = target
  · simp [he]
  · have hall := hstop.resolve_left he
    simp [he, hall]

/-- The units of a line are added up to the first character that goes beyond the bound. -/
theorem columnLoop_eq {character units : U32} {cs : List Char} (hunits : units ≤ character)
    (hmax : units.val + (utf8Bytes cs).length < 2 ^ 32) (offset : ℕ) :
    columnLoop character cs offset units =
      .ok (offset + (utf8Bytes (frontOf ⟨0, character - units⟩ cs)).length) := by
  induction cs using text_induction generalizing units offset with
  | nil => rfl
  | lineBreak b cs hb _ =>
    rw [frontOf_break_zero hb]
    cases b <;> rfl
  | char c cs hcr hlf ih =>
    rw [utf8Bytes_cons_length] at hmax
    have hsize := lenUtf16_le_utf8Size c
    have hunits' : units.val ≤ character.val := hunits
    rw [columnLoop, if_neg (not_or.mpr ⟨hlf, hcr⟩),
      U32.add_of_lt (lt_of_le_of_lt (by omega) hmax), frontOf_char_zero hcr hlf]
    by_cases hle : lenUtf16 c ≤ character.val - units.val
    · have hnext : (⟨units.val + lenUtf16 c, by omega⟩ : U32) ≤ character :=
        Subtype.coe_le_coe.mp (by simp only; omega)
      rw [if_pos hle, utf8Bytes_cons_length, Nat.sub_sub]
      refine (if_neg hnext.not_gt).trans ?_
      rw [ih hnext (by simp only; omega), Nat.add_assoc]
    · have hnext : character < (⟨units.val + lenUtf16 c, by omega⟩ : U32) :=
        Subtype.coe_lt_coe.mp (by simp only; omega)
      rw [if_neg hle]
      exact if_pos hnext

theorem endPositionLoop_break (h : Ends b back) {position : Position} {next : U32}
    (hnext : position.line.add 1 = .ok next) :
    endPositionLoop (front ++ (b.chars ++ back)) (utf8Bytes front).length position =
      endPositionLoop (front ++ (b.chars ++ back)) (utf8Bytes (front ++ b.chars)).length ⟨next, 0⟩ := by
  rw [endPositionLoop, dif_pos (offset_lt (break_ne_nil b back))]
  rcases byte_of_break front h with ⟨hlf, hlen⟩ | ⟨hlf, hcr, hlen⟩
  · rw [if_pos hlf, hnext, hlen]
    rfl
  · rw [if_neg hlf, if_pos hcr, hnext, hlen]
    rfl

theorem endPositionLoop_char (hcr : c ≠ '\r') (hlf : c ≠ '\n') {position : Position} {next : U32}
    (hnext : position.character.add (lenUtf16 c) = .ok next) :
    endPositionLoop (front ++ c :: back) (utf8Bytes front).length position =
      endPositionLoop (front ++ c :: back) (utf8Bytes (front ++ [c])).length
        { position with character := next } := by
  obtain ⟨hlf, hcr⟩ := byte_of_char front back hcr hlf
  rw [endPositionLoop, dif_pos (offset_lt (List.cons_ne_nil _ _)), if_neg hlf, if_neg hcr,
    sliceFrom_utf8Bytes]
  simp only [hnext]
  rw [byteLength_append, utf8Bytes_cons_length c []]
  rfl

theorem endPositionLoop_eq {position : Position}
    (hline : position.line + (utf8Bytes back).length < 2 ^ 32)
    (hcharacter : position.character + (utf8Bytes back).length < 2 ^ 32) :
    ∃ p, endPositionLoop (front ++ back) (utf8Bytes front).length position = .ok p ∧
      p.place = position.place + endOf back := by
  induction back using text_induction generalizing front position with
  | nil =>
    refine ⟨position, ?_, (add_zero _).symm⟩
    rw [endPositionLoop, List.append_nil, dif_neg (lt_irrefl _)]
  | lineBreak b cs hb ih =>
    have hlen : 0 < (utf8Bytes b.chars).length := by cases b <;> decide
    rw [byteLength_append] at hline hcharacter
    have hnext : position.line.val + 1 < 2 ^ 32 := lt_of_le_of_lt (by omega) hline
    obtain ⟨p, hp, hplace⟩ := @ih (front ++ b.chars) ⟨⟨_, hnext⟩, 0⟩ (by simp only; omega)
      (by change 0 + (utf8Bytes cs).length < _; omega)
    refine ⟨p, ?_, ?_⟩
    · rw [endPositionLoop_break hb (U32.add_of_lt hnext), ← List.append_assoc, hp]
    · rw [hplace, endOf_break hb, ← add_assoc]
      rfl
  | char c cs hcr hlf ih =>
    rw [utf8Bytes_cons_length] at hline hcharacter
    have hsize := lenUtf16_le_utf8Size c
    have hnext : position.character.val + lenUtf16 c < 2 ^ 32 := by omega
    obtain ⟨p, hp, hplace⟩ := @ih (front ++ [c])
      { position with character := ⟨_, hnext⟩ } (by simp only; omega) (by simp only; omega)
    refine ⟨p, ?_, ?_⟩
    · rw [endPositionLoop_char hcr hlf (U32.add_of_lt hnext), List.append_cons, hp]
    · rw [hplace, endOf_char hcr hlf, ← add_assoc]
      rfl

end Loops

section Offsets

variable {content front back : List Char}

theorem positionToOffset_eq (h : (utf8Bytes content).length < 2 ^ 32) (pos : Position) :
    positionToOffset content pos = .ok (utf8Bytes (frontOf pos.place content)).length := by
  obtain ⟨rest, hrest⟩ := frontOf_isPrefix ⟨pos.line, 0⟩ content
  have hlen := byteLength_append (frontOf ⟨pos.line, 0⟩ content) rest
  have hplace := frontOf_line_append hrest.symm pos.character
  have hslice := sliceFrom_utf8Bytes (frontOf ⟨pos.line, 0⟩ content) rest
  rw [hrest] at hlen hslice
  rw [positionToOffset, lineStartOffset_eq]
  by_cases hend : rest = []
  · -- The text has no character behind the beginning of the line.
    rw [hend, List.append_nil] at hrest
    refine (if_pos (by rw [hrest])).trans ?_
    rw [Position.place, hplace, hend, hrest, frontOf_nil, List.append_nil]
    rfl
  · have hpos := byteLength_pos hend
    refine (if_neg (by omega)).trans ?_
    simp only [hslice]
    have hcolumn := @columnLoop_eq pos.character 0 rest (Nat.zero_le pos.character.val)
      (by change 0 + _ < _; omega)
    rw [hcolumn, ← byteLength_append]
    exact congrArg _ (congrArg _ (congrArg _ hplace.symm))

theorem endPositionUtf16_eq (h : (utf8Bytes content).length < 2 ^ 32) :
    ∃ p, endPositionUtf16 content = .ok p ∧ p.place = endOf content := by
  have hmax : (0 : U32).val + (utf8Bytes content).length < 2 ^ 32 := by
    change 0 + _ < _
    omega
  obtain ⟨p, hp, hplace⟩ := @endPositionLoop_eq [] content ⟨0, 0⟩ hmax hmax
  exact ⟨p, hp, hplace.trans (zero_add _)⟩

/-- Two beginnings of a text with the same number of bytes are the same. -/
theorem eq_of_byteLength (hf : front <+: content) (hb : back <+: content)
    (h : (utf8Bytes front).length = (utf8Bytes back).length) : front = back := by
  have hle : ∀ {xs ys : List Char}, xs <+: ys → (utf8Bytes ys).length = (utf8Bytes xs).length →
      xs = ys := by
    rintro xs ys ⟨more, rfl⟩ hxs
    rw [byteLength_append] at hxs
    have hmore : utf8Bytes more = [] := List.eq_nil_of_length_eq_zero (by omega)
    rw [utf8Bytes_eq_nil.mp hmore, List.append_nil]
  rcases List.prefix_or_prefix_of_prefix hf hb with hfb | hbf
  · exact hle hfb h.symm
  · exact (hle hbf h).symm

theorem byteLength_le_iff (hf : front <+: content) (hb : back <+: content) :
    (utf8Bytes front).length ≤ (utf8Bytes back).length ↔ front <+: back := by
  constructor
  · intro h
    rcases List.prefix_or_prefix_of_prefix hf hb with hfb | ⟨more, rfl⟩
    · exact hfb
    · rw [byteLength_append] at h
      have hsame := eq_of_byteLength hf hb (by rw [byteLength_append]; omega)
      simp only [hsame, List.prefix_refl]
  · rintro ⟨more, rfl⟩
    rw [byteLength_append]
    exact Nat.le_add_right _ _

/-- The offset of a position is the last one between two characters, but not within a line break,
that does not lie behind the position. -/
theorem positionToOffset_greatest (h : (utf8Bytes content).length < 2 ^ 32) (pos : Position) :
    ∃ offset, positionToOffset content pos = .ok offset ∧
      (∃ front back, content = front ++ back ∧ ¬ SplitsBreak front back ∧
        (utf8Bytes front).length = offset) ∧
      ∀ front back, content = front ++ back → ¬ SplitsBreak front back →
        ∃ p, endPositionUtf16 front = .ok p ∧
          ((utf8Bytes front).length ≤ offset ↔ p.place ≤ pos.place) := by
  refine ⟨_, positionToOffset_eq h pos, ?_, ?_⟩
  · obtain ⟨back, hback⟩ := frontOf_isPrefix pos.place content
    exact ⟨_, back, hback.symm, not_splitsBreak_frontOf hback, rfl⟩
  · rintro front back rfl hsplit
    have hfront : (utf8Bytes front).length < 2 ^ 32 := by
      rw [byteLength_append] at h
      omega
    obtain ⟨p, hp, hplace⟩ := endPositionUtf16_eq hfront
    refine ⟨p, hp, ?_⟩
    rw [hplace, endOf_le_iff hsplit]
    exact byteLength_le_iff (List.prefix_append _ _) (frontOf_isPrefix _ _)

def crlfText : List Char := ['a', '\r', '\n', 'b']

theorem positionToOffset_greatest_crlf :
    ∃ offset, positionToOffset crlfText ⟨0, ⟨7, by decide⟩⟩ = .ok offset ∧
      ∃ front back, crlfText = front ++ back ∧ ¬ SplitsBreak front back ∧
        (utf8Bytes front).length = offset := by
  obtain ⟨offset, hoffset, hcut, -⟩ := @positionToOffset_greatest crlfText (by decide) ⟨0, ⟨7, by decide⟩⟩
  exact ⟨offset, hoffset, hcut⟩

/-- Where a part of a text ends, there is the offset of its length, unless the part ends within a
line break. -/
theorem positionToOffset_endPosition (h : (utf8Bytes (front ++ back)).length < 2 ^ 32) :
    ∃ p, endPositionUtf16 front = .ok p ∧
      (positionToOffset (front ++ back) p = .ok (utf8Bytes front).length ↔
        ¬ SplitsBreak front back) := by
  have hfront : (utf8Bytes front).length < 2 ^ 32 := by
    rw [byteLength_append] at h
    omega
  obtain ⟨p, hp, hplace⟩ := endPositionUtf16_eq hfront
  refine ⟨p, hp, ?_⟩
  rw [positionToOffset_eq h, hplace]
  constructor
  · intro he
    have hfrontOf : frontOf (endOf front) (front ++ back) = front :=
      eq_of_byteLength (frontOf_isPrefix _ _) (List.prefix_append _ _) (Except.ok.inj he)
    have hsplit : ¬ SplitsBreak (frontOf (endOf front) (front ++ back)) back :=
      not_splitsBreak_frontOf (by rw [hfrontOf])
    rwa [hfrontOf] at hsplit
  · intro hsplit
    rw [frontOf_endOf hsplit]

theorem positionToOffset_endPosition_crlf :
    ∃ p, endPositionUtf16 ['a', '\r'] = .ok p ∧
      (positionToOffset (['a', '\r'] ++ ['\n', 'b']) p = .ok (utf8Bytes ['a', '\r']).length ↔
        ¬ SplitsBreak ['a', '\r'] ['\n', 'b']) :=
  @positionToOffset_endPosition ['a', '\r'] ['\n', 'b'] (by decide)

end Offsets

end LspServerTokio.FormatterServer
