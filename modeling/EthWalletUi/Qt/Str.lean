import Mathlib

/-!
# `QString`, as far as a JSON client uses it

A `QString` is a Lean `String`. Qt counts UTF-16 code units, so `size` and `left` do; a surrogate
pair that `left` would cut in half is dropped whole, since a Lean `String` holds no lone surrogate.
Case-insensitive comparison folds ASCII letters only: on hex addresses and hashes, the only strings
compared so, that is Qt's own folding.

* `trimmed_trimmed`: trimming is idempotent; `trailingTrimmed_trimmed`: of a string that starts
  with no white space it only drops white space at the end.
* `toULongLong_number`: a 64-bit number written in decimal reads back as itself.
-/

namespace Qt

/-- `QChar::isSpace`. -/
def isSpace (c : Char) : Bool :=
  let u := c.toNat
  u == 0x20 || (0x9 ≤ u && u ≤ 0xD) || u == 0x85 || u == 0xA0 || u == 0x1680 ||
    (0x2000 ≤ u && u ≤ 0x200A) || u == 0x2028 || u == 0x2029 || u == 0x202F || u == 0x205F ||
    u == 0x3000

/-- `QString::trimmed`. -/
def trimmed (s : String) : String :=
  String.ofList ((s.toList.dropWhile isSpace).rdropWhile isSpace)

/-- The UTF-16 code units of one character. -/
def units (c : Char) : Nat := if c.toNat < 0x10000 then 1 else 2

/-- `QString::size`: UTF-16 code units. -/
def size (s : String) : Nat := (s.toList.map units).sum

/-- The longest prefix of at most `n` UTF-16 code units. -/
def leftChars : Nat → List Char → List Char
  | _, [] => []
  | n, c :: cs => if units c ≤ n then c :: leftChars (n - units c) cs else []

/-- `QString::left`. -/
def left (s : String) (n : Nat) : String := String.ofList (leftChars n s.toList)

/-- `a.compare(b, Qt::CaseInsensitive) == 0`. -/
def sameFolded (a b : String) : Bool := a.toList.map Char.toLower == b.toList.map Char.toLower

/-- The value of a nonempty run of decimal digits. -/
def readDigits (cs : List Char) : Option Nat :=
  if cs ≠ [] ∧ cs.all Char.isDigit then some (Nat.ofDigitChars 10 cs 0) else none

/-- `QString::toULongLong(&ok, 10)`: `none` when `ok` is false. Surrounding white space and a plus
sign are allowed, a value past 64 bits is not. -/
def toULongLong (s : String) : Option Nat :=
  (match (trimmed s).toList with
    | '+' :: cs => readDigits cs
    | cs => readDigits cs).filter (· < 2 ^ 64)

/-- `QString::toLongLong(&ok, 10)`. -/
def toLongLong (s : String) : Option Int :=
  (match (trimmed s).toList with
    | '+' :: cs => (readDigits cs).map Int.ofNat
    | '-' :: cs => (readDigits cs).map fun n => -Int.ofNat n
    | cs => (readDigits cs).map Int.ofNat).filter fun n => -2 ^ 63 ≤ n && n < 2 ^ 63

/-- `QString::number(qulonglong)`. -/
def number (n : Nat) : String := n.repr

/-! ## Trimming -/

/-- What follows a dropped prefix does not start with a dropped character. -/
theorem dropWhile_head {p : Char → Bool} {cs : List Char} {c : Char} {ds : List Char}
    (h : cs.dropWhile p = c :: ds) : p c = false := by
  have := List.head?_dropWhile_not p cs
  rw [h] at this
  simpa using this

/-- Trimming is idempotent. -/
@[simp] theorem trimmed_trimmed (s : String) : trimmed (trimmed s) = trimmed s := by
  unfold trimmed
  rw [String.toList_ofList]
  obtain ⟨t, ht⟩ := List.rdropWhile_prefix isSpace (l := s.toList.dropWhile isSpace)
  cases h : (s.toList.dropWhile isSpace).rdropWhile isSpace with
  | nil => rfl
  | cons c ds =>
    -- The trimmed list starts where the left-trimmed one does, so with no white space.
    rw [h] at ht
    have hc : isSpace c = false := @dropWhile_head isSpace _ c (ds ++ t) ht.symm
    rw [List.dropWhile_cons, hc]
    simp only [Bool.false_eq_true, ↓reduceIte]
    rw [← h, List.rdropWhile_idempotent]

/-- A string of no white space is its own trimming. -/
theorem trimmed_of_none {s : String} (h : ∀ c ∈ s.toList, isSpace c = false) :
    trimmed s = s := by
  have hd : s.toList.dropWhile isSpace = s.toList := by
    rw [List.dropWhile_eq_self_iff]
    intro hl
    rw [h _ (List.getElem_mem hl)]
    simp
  have hr : s.toList.rdropWhile isSpace = s.toList := by
    rw [List.rdropWhile_eq_self_iff]
    intro hl
    rw [h _ (List.getLast_mem hl)]
    simp
  unfold trimmed
  rw [hd, hr, String.ofList_toList]

/-- A trimmed string starts with no white space. -/
theorem head_trimmed (s : String) : ∀ c ∈ (trimmed s).toList.head?, isSpace c = false := by
  intro c hc
  unfold trimmed at hc
  rw [String.toList_ofList] at hc
  obtain ⟨t, ht⟩ := List.rdropWhile_prefix isSpace (l := s.toList.dropWhile isSpace)
  cases h : (s.toList.dropWhile isSpace).rdropWhile isSpace with
  | nil => simp [h] at hc
  | cons d ds =>
    rw [h] at hc ht
    cases hc
    exact @dropWhile_head isSpace _ c (ds ++ t) ht.symm

/-- `b` is `a` up to white space at the end of `a`. -/
def TrailingTrimmed (a b : String) : Prop :=
  ∃ ws, (∀ c ∈ ws, isSpace c = true) ∧ a.toList = b.toList ++ ws

/-- Trimming a string that starts with no white space only shortens it at its end. -/
theorem trailingTrimmed_trimmed {s : String} (h : ∀ c ∈ s.toList.head?, isSpace c = false) :
    TrailingTrimmed s (trimmed s) := by
  have hd : s.toList.dropWhile isSpace = s.toList := by
    cases hs : s.toList with
    | nil => rfl
    | cons c cs =>
      rw [List.dropWhile_cons, h c (by rw [hs]; rfl)]
      rfl
  refine ⟨s.toList.rtakeWhile isSpace, fun c hc => List.mem_rtakeWhile_imp hc, ?_⟩
  unfold trimmed
  rw [hd, String.toList_ofList, List.rdropWhile_append_rtakeWhile]

theorem TrailingTrimmed.refl (a : String) : TrailingTrimmed a a := ⟨[], by simp, by simp⟩

/-- What starts with a character that is no white space is not trimmed to nothing. -/
theorem trimmed_ne_empty {s : String} {c : Char} (hs : s.toList.head? = some c)
    (hc : isSpace c = false) : trimmed s ≠ "" := by
  intro h
  obtain ⟨ws, hws, heq⟩ := trailingTrimmed_trimmed (s := s) fun d hd => by
    rw [hs] at hd
    cases hd
    exact hc
  rw [h] at heq
  have hmem : c ∈ ws := by
    rw [show s.toList = ws from heq] at hs
    exact List.mem_of_mem_head? hs
  rw [hws c hmem] at hc
  cases hc

/-! ## Prefixes -/

theorem sum_leftChars_le (n : Nat) (cs : List Char) : ((leftChars n cs).map units).sum ≤ n := by
  induction cs generalizing n with
  | nil => exact Nat.zero_le _
  | cons c cs ih =>
    unfold leftChars
    split
    · have := ih (n - units c)
      rw [List.map_cons, List.sum_cons]
      omega
    · exact Nat.zero_le _

theorem leftChars_of_le {n : Nat} {cs : List Char} (h : (cs.map units).sum ≤ n) :
    leftChars n cs = cs := by
  induction cs generalizing n with
  | nil => rfl
  | cons c cs ih =>
    rw [List.map_cons, List.sum_cons] at h
    unfold leftChars
    rw [if_pos (by omega), ih (by omega)]

/-- A short string is its own prefix. -/
theorem left_of_size_le {s : String} {n : Nat} (h : size s ≤ n) : left s n = s := by
  unfold left
  rw [leftChars_of_le h, String.ofList_toList]

theorem size_left_le (s : String) (n : Nat) : size (left s n) ≤ n := by
  unfold size left
  rw [String.toList_ofList]
  exact sum_leftChars_le n s.toList

/-- A string is at least as long as its trimming. -/
theorem size_le_of_trailingTrimmed {a b : String} (h : TrailingTrimmed a b) : size b ≤ size a := by
  obtain ⟨ws, -, hws⟩ := h
  unfold size
  rw [hws, List.map_append, List.sum_append]
  omega

/-- A prefix of at least two code units starts with the string's first character. -/
theorem head_left {s : String} {n : Nat} (hn : 2 ≤ n) :
    (left s n).toList.head? = s.toList.head? := by
  unfold left
  rw [String.toList_ofList]
  cases s.toList with
  | nil => rfl
  | cons c cs =>
    have hc : units c ≤ n := by
      unfold units
      split <;> omega
    simp [leftChars, hc]

/-! ## Decimal numbers -/

theorem not_isSpace_of_isDigit {c : Char} (h : c.isDigit = true) : isSpace c = false := by
  simp only [Char.isDigit, Bool.and_eq_true, decide_eq_true_eq, UInt32.le_iff_toNat_le] at h
  obtain ⟨h1, h2⟩ := h
  have h1 : 48 ≤ c.toNat := h1
  have h2 : c.toNat ≤ 57 := h2
  simp only [isSpace, Bool.or_eq_false_iff, beq_eq_false_iff_ne, Bool.and_eq_false_iff,
    decide_eq_false_iff_not]
  omega

theorem digits_isDigit (n : Nat) : (Nat.toDigits 10 n).all Char.isDigit = true :=
  List.all_eq_true.mpr fun _ hc => Nat.isDigit_of_mem_toDigits (by decide) (by decide) hc

theorem readDigits_toDigits (n : Nat) : readDigits (Nat.toDigits 10 n) = some n := by
  unfold readDigits
  rw [if_pos ⟨Nat.toDigits_ne_nil, digits_isDigit n⟩, Nat.ofDigitChars_ten_toDigits]

theorem toULongLong_number_filter (n : Nat) :
    toULongLong (number n) = (some n).filter (· < 2 ^ 64) := by
  have hd : ∀ c ∈ (number n).toList, c.isDigit = true := by
    unfold number
    rw [Nat.toList_repr]
    exact List.all_eq_true.mp (digits_isDigit n)
  unfold toULongLong
  rw [trimmed_of_none fun c hc => not_isSpace_of_isDigit (hd c hc)]
  have hv : readDigits (number n).toList = some n := by
    unfold number
    rw [Nat.toList_repr]
    exact readDigits_toDigits n
  split
  · -- No digit is a plus sign.
    rename_i cs hcs
    have := hd '+' (by rw [hcs]; simp)
    simp [Char.isDigit] at this
  · rw [hv]

/-- A 64-bit number written in decimal reads back as itself. -/
theorem toULongLong_number {n : Nat} (h : n < 2 ^ 64) : toULongLong (number n) = some n := by
  rw [toULongLong_number_filter]
  exact Option.filter_eq_some_iff.mpr ⟨rfl, decide_eq_true h⟩

/-- What a number written in decimal reads back as is that number. -/
theorem eq_of_toULongLong_number {n m : Nat} (h : toULongLong (number n) = some m) : n = m := by
  rw [toULongLong_number_filter] at h
  exact Option.some.inj (Option.filter_eq_some_iff.mp h).1

/-- A value that `toULongLong` accepts fits in 64 bits. -/
theorem toULongLong_lt {s : String} {n : Nat} (h : toULongLong s = some n) : n < 2 ^ 64 := by
  unfold toULongLong at h
  have := (Option.filter_eq_some_iff.mp h).2
  simpa using this

/-! ## Folded equality -/

theorem sameFolded_refl (a : String) : sameFolded a a = true := by simp [sameFolded]

theorem sameFolded_symm {a b : String} (h : sameFolded a b = true) : sameFolded b a = true := by
  simp only [sameFolded, beq_iff_eq] at h ⊢
  exact h.symm

theorem sameFolded_trans {a b c : String} (h₁ : sameFolded a b = true)
    (h₂ : sameFolded b c = true) : sameFolded a c = true := by
  simp only [sameFolded, beq_iff_eq] at h₁ h₂ ⊢
  exact h₁.trans h₂

end Qt
