import LspServerTokio.Foundation.TextPlace
import LspServerTokio.Foundation.Text

namespace LspServerTokio.Foundation.Lines

inductive LineBreak
  | lf
  | crlf
  | cr
  deriving DecidableEq

def LineBreak.chars : LineBreak → List Char
  | .lf => ['\n']
  | .crlf => ['\r', '\n']
  | .cr => ['\r']

/-- What a place in a text can lie between. -/
inductive Piece
  | lineBreak (b : LineBreak)
  | char (c : Char)
  deriving DecidableEq

/-- `char::len_utf16` -/
def lenUtf16 (c : Char) : ℕ := if c.val.toNat < 0x10000 then 1 else 2

theorem lenUtf16_pos (c : Char) : 0 < lenUtf16 c := by
  unfold lenUtf16
  split_ifs <;> decide

theorem lenUtf16_le_utf8Size (c : Char) : lenUtf16 c ≤ c.utf8Size := by
  unfold lenUtf16
  split_ifs with h
  · exact c.utf8Size_pos
  · have hsize : ¬ c.utf8Size = 1 := by
      rw [Char.utf8Size_eq_one_iff, UInt32.le_iff_toNat_le]
      change ¬ c.val.toNat ≤ 127
      omega
    have hpos := c.utf8Size_pos
    omega

namespace Piece

def chars : Piece → List Char
  | .lineBreak b => b.chars
  | .char c => [c]

def size : Piece → TextPlace
  | .lineBreak _ => ⟨1, 0⟩
  | .char c => ⟨0, lenUtf16 c⟩

theorem chars_ne_nil (x : Piece) : x.chars ≠ [] := by
  rcases x with (_ | _ | _) | c <;> simp [chars, LineBreak.chars]

theorem not_add_size_le (p : TextPlace) (x : Piece) : ¬ p + x.size ≤ p := by
  rw [TextPlace.le_iff, TextPlace.add_def]
  cases x with
  | lineBreak b => simp [size]
  | char c =>
    have hpos := lenUtf16_pos c
    simp only [size, if_true]
    omega

end Piece

def text (xs : List Piece) : List Char := xs.flatMap Piece.chars

theorem text_cons (x : Piece) (xs : List Piece) : text (x :: xs) = x.chars ++ text xs := rfl

theorem text_append (xs ys : List Piece) : text (xs ++ ys) = text xs ++ text ys := List.flatMap_append

/-- Of two beginnings of one list, the one with the shorter text is the shorter one. -/
theorem prefix_of_text {xs ys zs : List Piece} (hx : xs <+: zs) (hy : ys <+: zs)
    (h : text xs <+: text ys) : xs <+: ys := by
  rcases List.prefix_or_prefix_of_prefix hx hy with hxy | ⟨extra, rfl⟩
  · exact hxy
  · rw [text_append] at h
    have hextra : text extra = [] := by
      have hlen := h.length_le
      rw [List.length_append] at hlen
      exact List.eq_nil_of_length_eq_zero (by omega)
    rcases extra with _ | ⟨x, extra⟩
    · exact (List.append_nil ys).symm ▸ List.prefix_rfl
    · exact absurd (List.append_eq_nil_iff.mp hextra).1 x.chars_ne_nil

/-- A carriage return makes one break with a line feed behind it. -/
def pieces : List Char → List Piece
  | [] => []
  | '\r' :: '\n' :: cs => .lineBreak .crlf :: pieces cs
  | '\r' :: cs => .lineBreak .cr :: pieces cs
  | '\n' :: cs => .lineBreak .lf :: pieces cs
  | c :: cs => .char c :: pieces cs

/-- A carriage return that ends a line alone has no line feed behind it. -/
def Ends (b : LineBreak) (back : List Char) : Prop := b = .cr → '\n' ∉ back.head?

theorem pieces_break {b : LineBreak} {cs : List Char} (h : Ends b cs) :
    pieces (b.chars ++ cs) = .lineBreak b :: pieces cs := by
  cases b with
  | lf | crlf => rfl
  | cr =>
    refine pieces.eq_3 cs fun ds hds ↦ h rfl ?_
    rw [hds]
    rfl

theorem pieces_char {c : Char} (hcr : c ≠ '\r') (hlf : c ≠ '\n') (cs : List Char) :
    pieces (c :: cs) = .char c :: pieces cs :=
  pieces.eq_5 c cs (fun _ h _ ↦ hcr h) hcr hlf

/-- Induction on the pieces of a text. -/
theorem text_induction {motive : List Char → Prop} (nil : motive [])
    (lineBreak : ∀ b cs, Ends b cs → motive cs → motive (b.chars ++ cs))
    (char : ∀ c cs, c ≠ '\r' → c ≠ '\n' → motive cs → motive (c :: cs)) (cs : List Char) :
    motive cs := by
  fun_induction pieces cs with
  | case1 => exact nil
  | case2 cs ih => exact lineBreak .crlf cs (fun h ↦ nomatch h) ih
  | case3 cs hcr ih =>
    refine lineBreak .cr cs (fun _ h ↦ ?_) ih
    obtain ⟨ds, hds⟩ := List.head?_eq_some_iff.mp h
    exact hcr ds hds
  | case4 cs ih => exact lineBreak .lf cs (fun h ↦ nomatch h) ih
  | case5 c cs _ hcr hlf ih => exact char c cs hcr hlf ih

@[simp] theorem text_pieces (cs : List Char) : text (pieces cs) = cs := by
  induction cs using text_induction with
  | nil => rfl
  | lineBreak b cs hb ih => rw [pieces_break hb, text_cons, ih]; rfl
  | char c cs hcr hlf ih => rw [pieces_char hcr hlf, text_cons, ih]; rfl

/-- A text is cut between the two characters of one line break. -/
def SplitsBreak (front back : List Char) : Prop := '\r' ∈ front.getLast? ∧ '\n' ∈ back.head?

instance (front back : List Char) : Decidable (SplitsBreak front back) :=
  inferInstanceAs (Decidable (_ ∧ _))

theorem not_splitsBreak_nil (back : List Char) : ¬ SplitsBreak [] back := fun h ↦ nomatch h.1

theorem splitsBreak_cons {c : Char} {front back : List Char} :
    SplitsBreak (c :: front) back ↔
      front = [] ∧ c = '\r' ∧ '\n' ∈ back.head? ∨ SplitsBreak front back := by
  rcases front with _ | ⟨d, front⟩
  · simp [SplitsBreak]
  · simp [SplitsBreak, List.getLast?_cons]

theorem splitsBreak_break {b : LineBreak} {front back : List Char} :
    SplitsBreak (b.chars ++ front) back ↔
      front = [] ∧ b = .cr ∧ '\n' ∈ back.head? ∨ SplitsBreak front back := by
  cases b <;> simp [LineBreak.chars, splitsBreak_cons]

theorem pieces_append {front back : List Char} (h : ¬ SplitsBreak front back) :
    pieces (front ++ back) = pieces front ++ pieces back := by
  induction front using text_induction with
  | nil => rfl
  | lineBreak b cs hb ih =>
    rw [splitsBreak_break, not_or] at h
    have hends : Ends b (cs ++ back) := fun hcr hhead ↦ by
      rcases cs with _ | ⟨c, cs⟩
      · exact h.1 ⟨rfl, hcr, hhead⟩
      · exact hb hcr hhead
    rw [List.append_assoc, pieces_break hends, pieces_break hb, ih h.2, List.cons_append]
  | char c cs hcr hlf ih =>
    rw [splitsBreak_cons, not_or] at h
    rw [List.cons_append, pieces_char hcr hlf, pieces_char hcr hlf, ih h.2, List.cons_append]

/-- Between two pieces no line break is split. -/
theorem not_splitsBreak_text {cs : List Char} {xs ys : List Piece} (h : pieces cs = xs ++ ys) :
    ¬ SplitsBreak (text xs) (text ys) := by
  induction cs using text_induction generalizing xs with
  | nil =>
    obtain ⟨rfl, rfl⟩ := List.nil_eq_append_iff.mp h
    exact not_splitsBreak_nil _
  | lineBreak b cs hb ih =>
    rcases xs with _ | ⟨x, xs⟩
    · exact not_splitsBreak_nil _
    · rw [pieces_break hb, List.cons_append] at h
      obtain ⟨rfl, hxs⟩ := List.cons.inj h
      rw [text_cons, Piece.chars, splitsBreak_break]
      rintro (⟨hnil, hcr, hhead⟩ | hs)
      · -- All that stands behind this carriage return comes behind the cut.
        have hcs : text xs ++ text ys = cs := by rw [← text_append, ← hxs, text_pieces]
        rw [hnil, List.nil_append] at hcs
        exact hb hcr (hcs ▸ hhead)
      · exact ih hxs hs
  | char c cs hcr hlf ih =>
    rcases xs with _ | ⟨x, xs⟩
    · exact not_splitsBreak_nil _
    · rw [pieces_char hcr hlf, List.cons_append] at h
      obtain ⟨rfl, hxs⟩ := List.cons.inj h
      rw [text_cons, Piece.chars, List.singleton_append, splitsBreak_cons]
      rintro (⟨-, hc, -⟩ | hs)
      · exact hcr hc
      · exact ih hxs hs

/-- The place behind a text that begins at the beginning. -/
def endOf (cs : List Char) : TextPlace := total Piece.size (pieces cs)

/-- The part of a text in front of a place. A line that is too short for the place counts up to its
break, and a text with too few lines counts as a whole. -/
def frontOf (p : TextPlace) (cs : List Char) : List Char := text (upTo Piece.size p (pieces cs))

section Steps

variable {b : LineBreak} {c : Char} {cs : List Char}

theorem endOf_break (h : Ends b cs) : endOf (b.chars ++ cs) = ⟨1, 0⟩ + endOf cs := by
  rw [endOf, pieces_break h, total_cons]
  rfl

theorem endOf_char (hcr : c ≠ '\r') (hlf : c ≠ '\n') (cs : List Char) :
    endOf (c :: cs) = ⟨0, lenUtf16 c⟩ + endOf cs := by
  rw [endOf, pieces_char hcr hlf, total_cons]
  rfl

@[simp] theorem frontOf_nil (p : TextPlace) : frontOf p [] = [] := rfl

theorem frontOf_break_zero (h : Ends b cs) (k : ℕ) : frontOf ⟨0, k⟩ (b.chars ++ cs) = [] := by
  rw [frontOf, pieces_break h, upTo, if_neg]
  · rfl
  · simp [Piece.size, TextPlace.le_iff]

theorem frontOf_break_succ (h : Ends b cs) (n k : ℕ) :
    frontOf ⟨n + 1, k⟩ (b.chars ++ cs) = b.chars ++ frontOf ⟨n, k⟩ cs := by
  have hsub : (⟨n + 1, k⟩ - ⟨1, 0⟩ : TextPlace) = ⟨n, k⟩ := by
    rw [TextPlace.sub_def]
    split_ifs with hn <;> simp_all
  rw [frontOf, pieces_break h, upTo, if_pos, text_cons, Piece.size, hsub]
  · rfl
  · simp only [Piece.size, TextPlace.le_iff]
    omega

theorem frontOf_char_zero (hcr : c ≠ '\r') (hlf : c ≠ '\n') (cs : List Char) (k : ℕ) :
    frontOf ⟨0, k⟩ (c :: cs) =
      if lenUtf16 c ≤ k then c :: frontOf ⟨0, k - lenUtf16 c⟩ cs else [] := by
  have hle : (Piece.char c).size ≤ ⟨0, k⟩ ↔ lenUtf16 c ≤ k := by simp [Piece.size, TextPlace.le_iff]
  rw [frontOf, pieces_char hcr hlf, upTo]
  simp only [hle]
  split_ifs <;> rfl

theorem frontOf_char_succ (hcr : c ≠ '\r') (hlf : c ≠ '\n') (cs : List Char) (n k : ℕ) :
    frontOf ⟨n + 1, k⟩ (c :: cs) = c :: frontOf ⟨n + 1, k⟩ cs := by
  rw [frontOf, pieces_char hcr hlf, upTo, if_pos]
  · rfl
  · simp [Piece.size, TextPlace.le_iff]

theorem frontOf_zero (cs : List Char) : frontOf ⟨0, 0⟩ cs = [] := by
  induction cs using text_induction with
  | nil => rfl
  | lineBreak b cs hb _ => exact frontOf_break_zero hb 0
  | char c cs hcr hlf _ => rw [frontOf_char_zero hcr hlf, if_neg (lenUtf16_pos c).not_ge]

/-- First the lines before a place, then the part of its line. -/
theorem frontOf_line_append {n : ℕ} {cs rest : List Char} (h : cs = frontOf ⟨n, 0⟩ cs ++ rest)
    (k : ℕ) : frontOf ⟨n, k⟩ cs = frontOf ⟨n, 0⟩ cs ++ frontOf ⟨0, k⟩ rest := by
  induction cs using text_induction generalizing n with
  | nil =>
    obtain rfl : rest = [] := h.symm
    rfl
  | lineBreak b cs hb ih =>
    cases n with
    | zero =>
      rw [frontOf_zero, List.nil_append] at h ⊢
      rw [← h]
    | succ n =>
      rw [frontOf_break_succ hb, List.append_assoc] at h
      rw [frontOf_break_succ hb, frontOf_break_succ hb, ih (List.append_cancel_left h),
        List.append_assoc]
  | char c cs hcr hlf ih =>
    cases n with
    | zero =>
      rw [frontOf_zero, List.nil_append] at h ⊢
      rw [← h]
    | succ n =>
      rw [frontOf_char_succ hcr hlf] at h
      rw [frontOf_char_succ hcr hlf, frontOf_char_succ hcr hlf, ih (List.cons.inj h).2,
        List.cons_append]

end Steps

theorem frontOf_isPrefix (p : TextPlace) (cs : List Char) : frontOf p cs <+: cs := by
  obtain ⟨left, hleft⟩ : upTo Piece.size p (pieces cs) <+: pieces cs := upTo_isPrefix _ _
  refine ⟨text left, ?_⟩
  rw [frontOf, ← text_append, hleft, text_pieces]

theorem not_splitsBreak_frontOf {p : TextPlace} {cs back : List Char} (h : frontOf p cs ++ back = cs) :
    ¬ SplitsBreak (frontOf p cs) back := by
  obtain ⟨left, hleft⟩ : upTo Piece.size p (pieces cs) <+: pieces cs := upTo_isPrefix _ _
  have hcs : frontOf p cs ++ text left = cs := by rw [frontOf, ← text_append, hleft, text_pieces]
  rw [List.append_cancel_left (h.trans hcs.symm)]
  exact not_splitsBreak_text hleft.symm

/-- The parts of a text that end in front of a place, line breaks left whole, are those up to
`frontOf`. -/
theorem endOf_le_iff {p : TextPlace} {front back : List Char} (h : ¬ SplitsBreak front back) :
    endOf front ≤ p ↔ front <+: frontOf p (front ++ back) := by
  have hfront : pieces front <+: pieces (front ++ back) := ⟨_, (pieces_append h).symm⟩
  rw [endOf, total_le_iff hfront]
  constructor
  · rintro ⟨more, hmore⟩
    refine ⟨text more, ?_⟩
    rw [frontOf, ← hmore, text_append, text_pieces]
  · intro hp
    exact prefix_of_text hfront (upTo_isPrefix _ _) (by rwa [text_pieces])

theorem frontOf_mono {p q : TextPlace} (h : p ≤ q) (cs : List Char) : frontOf p cs <+: frontOf q cs := by
  obtain ⟨more, hmore⟩ : upTo Piece.size p (pieces cs) <+: upTo Piece.size q (pieces cs) :=
    upTo_mono h _
  refine ⟨text more, ?_⟩
  rw [frontOf, frontOf, ← text_append, hmore]

theorem frontOf_endOf {front back : List Char} (h : ¬ SplitsBreak front back) :
    frontOf (endOf front) (front ++ back) = front := by
  rw [frontOf, pieces_append h, endOf, upTo_total Piece.not_add_size_le, text_pieces]

section Edits

/-- The part of a text behind a place. -/
def restOf (p : TextPlace) (cs : List Char) : List Char := cs.drop (frontOf p cs).length

theorem frontOf_append_restOf (p : TextPlace) (cs : List Char) : frontOf p cs ++ restOf p cs = cs :=
  List.prefix_iff_eq_append.mp (frontOf_isPrefix p cs)

theorem restOf_endOf {front back : List Char} (h : ¬ SplitsBreak front back) :
    restOf (endOf front) (front ++ back) = back := by
  rw [restOf, frontOf_endOf h, List.drop_left]

/-- The text between two places is replaced; if they stand in the wrong order, nothing is. -/
def edit (start stop : TextPlace) (new cs : List Char) : List Char :=
  if frontOf start cs <+: frontOf stop cs then
    frontOf start cs ++ new ++ restOf stop cs
  else cs

theorem edit_endOf {a b c : List Char} (hab : ¬ SplitsBreak a (b ++ c)) (hbc : ¬ SplitsBreak (a ++ b) c)
    (new : List Char) : edit (endOf a) (endOf (a ++ b)) new (a ++ b ++ c) = a ++ new ++ c := by
  have ha : frontOf (endOf a) (a ++ b ++ c) = a := by rw [List.append_assoc, frontOf_endOf hab]
  rw [edit, ha, frontOf_endOf hbc, if_pos (List.prefix_append a b), restOf_endOf hbc]

end Edits

end LspServerTokio.Foundation.Lines
