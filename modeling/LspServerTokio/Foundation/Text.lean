import Mathlib.Data.List.DropRight
import Mathlib.Tactic.Common

namespace LspServerTokio.Foundation.Text

def utf8Bytes (cs : List Char) : List UInt8 := cs.flatMap String.utf8EncodeChar

def fromUtf8 (bs : List UInt8) : Option (List Char) :=
  bs.toByteArray.utf8Decode?.map Array.toList

theorem fromUtf8_utf8Bytes (cs : List Char) : fromUtf8 (utf8Bytes cs) = some cs := by
  have h : (utf8Bytes cs).toByteArray = cs.utf8Encode := rfl
  rw [fromUtf8, h, List.utf8Decode?_utf8Encode, Option.map_some, List.toList_toArray]

@[simp] theorem utf8Bytes_append (cs ds : List Char) :
    utf8Bytes (cs ++ ds) = utf8Bytes cs ++ utf8Bytes ds := List.flatMap_append

theorem utf8Bytes_intercalate (sep : List Char) (lines : List (List Char)) :
    utf8Bytes (sep.intercalate lines) = (utf8Bytes sep).intercalate (lines.map utf8Bytes) := by
  induction lines with
  | nil => rfl
  | cons line lines ih =>
    rcases lines with _ | ⟨next, lines⟩
    · rw [List.intercalate_singleton, List.map_singleton, List.intercalate_singleton]
    · rw [List.intercalate_cons_cons, utf8Bytes_append, utf8Bytes_append, ih]
      exact List.intercalate_cons_cons.symm

theorem utf8Bytes_eq_nil {cs : List Char} : utf8Bytes cs = [] ↔ cs = [] := by
  have hpos : ∀ c : Char, String.utf8EncodeChar c ≠ [] := fun c h ↦ by
    have hlen := congrArg List.length h
    rw [String.length_utf8EncodeChar] at hlen
    exact c.utf8Size_pos.ne' hlen
  cases cs <;> simp [utf8Bytes, hpos]

/-- A byte below 128 stands only for the character with that code. -/
theorem mem_utf8Bytes {b : UInt8} {cs : List Char} (hb : b.toNat < 128) (h : b ∈ utf8Bytes cs) :
    ∃ c ∈ cs, c.val.toNat = b.toNat := by
  obtain ⟨c, hc, hm⟩ := List.mem_flatMap.mp h
  refine ⟨c, hc, ?_⟩
  simp only [String.utf8EncodeChar] at hm
  split_ifs at hm with h₁ h₂ h₃ <;>
    simp only [List.mem_cons, List.not_mem_nil, or_false] at hm
  · subst hm
    exact (UInt8.toNat_ofNat_of_lt' (by change _ < 256; omega)).symm
  all_goals
    rcases hm with rfl | rfl | rfl | rfl <;>
      simp only [UInt8.toNat_ofNat'] at hb <;> omega

section Slicing

/-- The rest of a text behind its first `n` bytes, if `n` is within it and between characters. -/
def sliceFrom : ℕ → List Char → Option (List Char)
  | 0, cs => some cs
  | _ + 1, [] => none
  | n + 1, c :: cs => if c.utf8Size ≤ n + 1 then sliceFrom (n + 1 - c.utf8Size) cs else none

theorem sliceFrom_eq_some {n : ℕ} {cs ds : List Char} :
    sliceFrom n cs = some ds ↔ ∃ front, cs = front ++ ds ∧ (utf8Bytes front).length = n := by
  have hcons : ∀ c front, (utf8Bytes (c :: front)).length = c.utf8Size + (utf8Bytes front).length := by
    intro c front
    simp [utf8Bytes, String.length_utf8EncodeChar]
  constructor
  · intro h
    induction cs generalizing n with
    | nil =>
      cases n with
      | zero => exact ⟨[], Option.some.inj h, rfl⟩
      | succ n => exact nomatch h
    | cons c cs ih =>
      cases n with
      | zero => exact ⟨[], Option.some.inj h, rfl⟩
      | succ n =>
        rw [sliceFrom] at h
        split_ifs at h with hc
        obtain ⟨front, rfl, hf⟩ := ih h
        exact ⟨c :: front, rfl, by rw [hcons, hf]; omega⟩
  · intro hall
    obtain ⟨front, rfl, rfl⟩ := hall
    induction front with
    | nil => cases ds <;> rfl
    | cons c front ih =>
      have hpos := c.utf8Size_pos
      obtain ⟨n, hn⟩ := Nat.exists_eq_add_of_lt (Nat.add_pos_left hpos (utf8Bytes front).length)
      rw [Nat.zero_add] at hn
      rw [hcons, hn, List.cons_append, sliceFrom, if_pos (by omega), ← ih]
      congr 1
      omega

/-- The first `n` bytes of a text, if `n` is within it and between characters. -/
def sliceUpTo : ℕ → List Char → Option (List Char)
  | 0, _ => some []
  | _ + 1, [] => none
  | n + 1, c :: cs => if c.utf8Size ≤ n + 1 then (sliceUpTo (n + 1 - c.utf8Size) cs).map (c :: ·) else none

theorem sliceUpTo_utf8Bytes (front back : List Char) :
    sliceUpTo (utf8Bytes front).length (front ++ back) = some front := by
  induction front with
  | nil => cases back <;> rfl
  | cons c front ih =>
    have hlen : (utf8Bytes (c :: front)).length = c.utf8Size + (utf8Bytes front).length := by
      simp [utf8Bytes, String.length_utf8EncodeChar]
    have hpos := c.utf8Size_pos
    obtain ⟨n, hn⟩ := Nat.exists_eq_add_of_lt (Nat.add_pos_left hpos (utf8Bytes front).length)
    rw [Nat.zero_add] at hn
    have hrest : n + 1 - c.utf8Size = (utf8Bytes front).length := by omega
    rw [hlen, hn, List.cons_append, sliceUpTo, if_pos (by omega), hrest, ih]
    rfl

theorem sliceFrom_of_ascii {n : ℕ} {cs : List Char} (hlen : n ≤ cs.length)
    (h : ∀ c ∈ cs.take n, c.utf8Size = 1) : sliceFrom n cs = some (cs.drop n) := by
  induction cs generalizing n with
  | nil =>
    obtain rfl : n = 0 := Nat.le_zero.mp hlen
    rfl
  | cons c cs ih =>
    cases n with
    | zero => rfl
    | succ n =>
      have hc := h c (by simp)
      rw [sliceFrom, hc, if_pos (Nat.le_add_left 1 n), Nat.add_sub_cancel, List.drop_succ_cons]
      exact ih (Nat.le_of_succ_le_succ hlen) fun d hd ↦ h d (List.mem_cons_of_mem _ hd)

theorem utf8Size_of_toLower {c : Char} (h : c.toLower.val.toNat < 128) : c.utf8Size = 1 := by
  rw [Char.utf8Size_eq_one_iff, UInt32.le_iff_toNat_le]
  change c.val.toNat ≤ 127
  unfold Char.toLower at h
  split_ifs at h with hc
  · have := UInt32.le_iff_toNat_le.mp hc.2
    change c.val.toNat ≤ 90 at this
    omega
  · omega

def splitPair (a b : Char) : List Char → List (List Char)
  | [] => [[]]
  | [c] => [[c]]
  | c :: d :: cs =>
    if c = a ∧ d = b then [] :: splitPair a b cs
    else match splitPair a b (d :: cs) with
      | [] => [[c]]
      | line :: lines => (c :: line) :: lines

theorem splitPair_of_not_mem {a b : Char} {cs : List Char} (h : a ∉ cs) :
    splitPair a b cs = [cs] := by
  induction cs with
  | nil => rfl
  | cons c cs ih =>
    cases cs with
    | nil => rfl
    | cons d cs =>
      have hc : c ≠ a := fun he ↦ h (he ▸ List.mem_cons_self)
      rw [splitPair, if_neg (fun he ↦ hc he.1), ih fun hm ↦ h (List.mem_cons_of_mem _ hm)]

theorem splitPair_cons {a b c : Char} (hc : c ≠ a) {cs line : List Char} {lines : List (List Char)}
    (h : splitPair a b cs = line :: lines) (hne : cs ≠ []) :
    splitPair a b (c :: cs) = (c :: line) :: lines := by
  obtain ⟨d, cs, rfl⟩ := List.exists_cons_of_ne_nil hne
  rw [splitPair, if_neg (fun he ↦ hc he.1), h]

theorem splitPair_append {a b : Char} {line : List Char} (h : a ∉ line) (cs : List Char) :
    splitPair a b (line ++ a :: b :: cs) = line :: splitPair a b cs := by
  induction line with
  | nil => rw [List.nil_append, splitPair, if_pos ⟨rfl, rfl⟩]
  | cons c line ih =>
    have hc : c ≠ a := fun he ↦ h (he ▸ List.mem_cons_self)
    exact splitPair_cons hc (ih fun hm ↦ h (List.mem_cons_of_mem _ hm)) (by simp)

/-- Lines without the first separator character are what splitting their join gives back. -/
theorem splitPair_intercalate {a b : Char} {lines : List (List Char)} (hne : lines ≠ [])
    (h : ∀ line ∈ lines, a ∉ line) : splitPair a b ([a, b].intercalate lines) = lines := by
  induction lines with
  | nil => exact absurd rfl hne
  | cons line lines ih =>
    have hline := h line List.mem_cons_self
    rcases lines with _ | ⟨next, lines⟩
    · rw [List.intercalate_singleton, splitPair_of_not_mem hline]
    · rw [List.intercalate_cons_cons, List.append_assoc]
      refine (splitPair_append hline _).trans (congrArg _ (ih (by simp) fun l hl ↦ ?_))
      exact h l (List.mem_cons_of_mem _ hl)

/-- The code points with Unicode's `White_Space` property. -/
def isWhitespace (c : Char) : Bool :=
  let v := c.val.toNat
  (0x09 ≤ v && v ≤ 0x0D) || v == 0x20 || v == 0x85 || v == 0xA0 || v == 0x1680 ||
    (0x2000 ≤ v && v ≤ 0x200A) || v == 0x2028 || v == 0x2029 || v == 0x202F || v == 0x205F ||
    v == 0x3000

def trim (cs : List Char) : List Char := (cs.dropWhile isWhitespace).rdropWhile isWhitespace

theorem dropWhile_append_middle {α : Type} {p : α → Bool} {xs ys zs : List α} (hx : ∀ x ∈ xs, p x = true)
    (hy : ∀ y ∈ ys, p y = false) (hne : ys ≠ []) : (xs ++ (ys ++ zs)).dropWhile p = ys ++ zs := by
  obtain ⟨y, ys, rfl⟩ := List.exists_cons_of_ne_nil hne
  rw [List.dropWhile_append_of_pos hx, List.cons_append,
    List.dropWhile_cons_of_neg (by simp [hy y List.mem_cons_self])]

theorem trim_append {left cs right : List Char} (hl : ∀ c ∈ left, isWhitespace c = true)
    (hc : ∀ c ∈ cs, isWhitespace c = false) (hr : ∀ c ∈ right, isWhitespace c = true)
    (hne : cs ≠ []) : trim (left ++ cs ++ right) = cs := by
  have hright : right.reverse ++ (cs.reverse ++ []) = (cs ++ right).reverse := by simp
  rw [trim, List.append_assoc, dropWhile_append_middle hl hc hne, List.rdropWhile, ← hright,
    dropWhile_append_middle (by simpa using hr) (by simpa using hc) (by simpa using hne),
    List.append_nil, List.reverse_reverse]

end Slicing

section Integers

inductive IntErrorKind
  | empty
  | invalidDigit
  | posOverflow
  deriving DecidableEq, Repr

/-- Read decimal digits behind the value `acc`, failing as soon as `max` is exceeded. -/
def parseDigits (max : ℕ) : ℕ → List Char → Except IntErrorKind ℕ
  | acc, [] => .ok acc
  | acc, c :: cs =>
    if c.isDigit then
      if max < 10 * acc then .error .posOverflow
      else if max < 10 * acc + (c.toNat - '0'.toNat) then .error .posOverflow
      else parseDigits max (10 * acc + (c.toNat - '0'.toNat)) cs
    else .error .invalidDigit

/-- A decimal number of an unsigned type with the largest value `max`; a plus sign may stand in
front of the digits. -/
def parseUnsigned (max : ℕ) : List Char → Except IntErrorKind ℕ
  | [] => .error .empty
  | ['+'] | ['-'] => .error .invalidDigit
  | '+' :: cs => parseDigits max 0 cs
  | cs => parseDigits max 0 cs

theorem le_ofDigitChars (cs : List Char) (acc : ℕ) : acc ≤ Nat.ofDigitChars 10 cs acc := by
  induction cs generalizing acc with
  | nil => rw [Nat.ofDigitChars_nil]
  | cons c cs ih =>
    rw [Nat.ofDigitChars_cons]
    have h := ih (10 * acc + (c.toNat - '0'.toNat))
    omega

theorem parseDigits_of_digits {max acc : ℕ} {cs : List Char} (hd : ∀ c ∈ cs, c.isDigit = true)
    (hmax : Nat.ofDigitChars 10 cs acc ≤ max) :
    parseDigits max acc cs = .ok (Nat.ofDigitChars 10 cs acc) := by
  induction cs generalizing acc with
  | nil => rw [parseDigits, Nat.ofDigitChars_nil]
  | cons c cs ih =>
    rw [Nat.ofDigitChars_cons] at hmax ⊢
    have hle := le_ofDigitChars cs (10 * acc + (c.toNat - '0'.toNat))
    rw [parseDigits, if_pos (hd c List.mem_cons_self), if_neg (by omega), if_neg (by omega)]
    exact ih (fun e he ↦ hd e (List.mem_cons_of_mem _ he)) hmax

/-- Printing a number in decimal and reading it back gives the number. -/
theorem parseUnsigned_toDigits {max n : ℕ} (h : n ≤ max) :
    parseUnsigned max (Nat.toDigits 10 n) = .ok n := by
  have hd : ∀ c ∈ Nat.toDigits 10 n, c.isDigit = true := fun c hc ↦
    Nat.isDigit_of_mem_toDigits (by decide) le_rfl hc
  have hp : parseDigits max 0 (Nat.toDigits 10 n) = .ok _ :=
    parseDigits_of_digits hd (by rwa [Nat.ofDigitChars_ten_toDigits])
  rw [Nat.ofDigitChars_ten_toDigits] at hp
  have hne : Nat.toDigits 10 n ≠ [] := Nat.toDigits_ne_nil
  revert hd hp hne
  generalize Nat.toDigits 10 n = cs
  intro hd hp hne
  unfold parseUnsigned
  split
  · exact absurd rfl hne
  · exact absurd (hd '+' List.mem_cons_self) (by decide)
  · exact absurd (hd '-' List.mem_cons_self) (by decide)
  · exact absurd (hd '+' List.mem_cons_self) (by decide)
  · exact hp

theorem isWhitespace_of_isDigit {c : Char} (h : c.isDigit = true) : isWhitespace c = false := by
  simp only [Char.isDigit, Bool.and_eq_true, decide_eq_true_eq, ge_iff_le, UInt32.le_iff_toNat_le] at h
  obtain ⟨hl, hr⟩ := h
  change 48 ≤ c.val.toNat at hl
  change c.val.toNat ≤ 57 at hr
  simp only [isWhitespace, Bool.or_eq_false_iff, Bool.and_eq_false_iff, decide_eq_false_iff_not,
    beq_eq_false_iff_ne]
  omega

end Integers

end LspServerTokio.Foundation.Text
