import Mathlib.Data.List.TakeWhile
import Mathlib.Data.Nat.Notation

/-!
# Scanning text

The conversions of the `scanf` family on a list of characters, each with the text it leaves.

* **`number`**: `%d`, white space, a sign and digits.
* **`word`**: `%s`, white space and the characters up to the next white space.
* **`number_repr`**, **`word_append`**: a printed number, and a word, are read back.
* **`Spelled`**: a text that is a list of words, whatever the white space.
-/

namespace Scan

/-- `isspace`: the blank and the characters 9 to 13. -/
def isSpace (ch : Char) : Bool := ch.toNat = 32 || 9 ≤ ch.toNat && ch.toNat ≤ 13

def skipSpace (text : List Char) : List Char := text.dropWhile isSpace

/-- A sign, if there is one: whether it is a minus, and the text after it. -/
def sign : List Char → Bool × List Char
  | [] => (false, [])
  | ch :: text =>
    if ch = '-' then (true, text) else if ch = '+' then (false, text) else (false, ch :: text)

/-- `%d`; `none` is a matching or an input failure. -/
def number (text : List Char) : Option (Int × List Char) :=
  let (negative, rest) := sign (skipSpace text)
  let digits := rest.takeWhile Char.isDigit
  if digits = [] then none
  else
    let value : Int := Nat.ofDigitChars 10 digits 0
    some (if negative then -value else value, rest.dropWhile Char.isDigit)

/-- `%s`; `none` is an input failure. -/
def word (text : List Char) : Option (List Char × List Char) :=
  let rest := skipSpace text
  let chars := rest.takeWhile fun ch => !isSpace ch
  if chars = [] then none else some (chars, rest.dropWhile fun ch => !isSpace ch)

/-- A character of white space or none is the next one. -/
def AtSpace (text : List Char) : Prop := ∀ ch ∈ text.head?, isSpace ch = true

/-- No digit is next. -/
def AtEnd (text : List Char) : Prop := ∀ ch ∈ text.head?, ch.isDigit = false

variable {text rest blanks chars : List Char} {ch : Char}

theorem isDigit_iff : ch.isDigit = true ↔ 48 ≤ ch.toNat ∧ ch.toNat ≤ 57 := by
  simp [Char.isDigit, UInt32.le_iff_toNat_le]

theorem isSpace_of_isDigit (h : ch.isDigit = true) : isSpace ch = false := by
  rw [isDigit_iff] at h
  simp [isSpace]
  omega

theorem skipSpace_append (hblanks : ∀ ch ∈ blanks, isSpace ch = true) (text : List Char) :
    skipSpace (blanks ++ text) = skipSpace text :=
  List.dropWhile_append_of_pos hblanks

theorem skipSpace_cons (h : isSpace ch = false) (text : List Char) :
    skipSpace (ch :: text) = ch :: text := by
  rw [skipSpace, List.dropWhile_cons_of_neg (by simp [h])]

/-- What is not white space at its head is taken up to where the predicate fails. -/
theorem takeWhile_append_stop {p : Char → Bool} (hchars : ∀ ch ∈ chars, p ch = true)
    (hrest : ∀ ch ∈ rest.head?, p ch = false) : (chars ++ rest).takeWhile p = chars := by
  rw [List.takeWhile_append_of_pos hchars]
  cases rest with
  | nil => simp
  | cons ch rest => rw [List.takeWhile_cons_of_neg (by simp [hrest ch rfl]), List.append_nil]

/-- What is left when the predicate has failed. -/
theorem dropWhile_append_stop {p : Char → Bool} (hchars : ∀ ch ∈ chars, p ch = true)
    (hrest : ∀ ch ∈ rest.head?, p ch = false) : (chars ++ rest).dropWhile p = rest := by
  rw [List.dropWhile_append_of_pos hchars]
  cases rest with
  | nil => rfl
  | cons ch rest => rw [List.dropWhile_cons_of_neg (by simp [hrest ch rfl])]

/-! ## Words

`%s` takes the characters up to the next white space. A text spells a list of words if they can be
taken off it one after the other. -/

/-- **A word is read back**, up to the white space after it. -/
theorem word_append (hblanks : ∀ ch ∈ blanks, isSpace ch = true) (hne : chars ≠ [])
    (hchars : ∀ ch ∈ chars, isSpace ch = false) (hrest : AtSpace rest) :
    word (blanks ++ (chars ++ rest)) = some (chars, rest) := by
  have hskip : skipSpace (chars ++ rest) = chars ++ rest := by
    cases chars with
    | nil => exact absurd rfl hne
    | cons ch chars => exact skipSpace_cons (hchars ch List.mem_cons_self) _
  have hinside : ∀ ch ∈ chars, (!isSpace ch) = true := fun ch hch => by rw [hchars ch hch]; rfl
  have hstop : ∀ ch ∈ rest.head?, (!isSpace ch) = false := fun ch hch => by rw [hrest ch hch]; rfl
  rw [word, skipSpace_append hblanks, hskip, takeWhile_append_stop hinside hstop,
    dropWhile_append_stop hinside hstop, if_neg hne]

theorem word_blank (hblanks : ∀ ch ∈ text, isSpace ch = true) : word text = none := by
  have hskip : skipSpace text = [] := List.dropWhile_eq_nil_iff.mpr hblanks
  rw [word, hskip]
  rfl

/-- A text that spells the words, in order, with white space between them and around them. -/
inductive Spelled : List (List Char) → List Char → Prop
  | nil {blanks : List Char} (hblanks : ∀ ch ∈ blanks, isSpace ch = true) : Spelled [] blanks
  | cons {blanks chars rest : List Char} {words : List (List Char)}
      (hblanks : ∀ ch ∈ blanks, isSpace ch = true) (hne : chars ≠ [])
      (hchars : ∀ ch ∈ chars, isSpace ch = false) (hrest : AtSpace rest) (h : Spelled words rest) :
      Spelled (chars :: words) (blanks ++ (chars ++ rest))

/-- After the last word there is none. -/
theorem Spelled.word_nil (h : Spelled [] text) : word text = none := by
  cases h with
  | nil hblanks => exact word_blank hblanks

/-- The first word is taken off, and the rest spells the others. -/
theorem Spelled.word_cons {words : List (List Char)} (h : Spelled (chars :: words) text) :
    ∃ rest, word text = some (chars, rest) ∧ Spelled words rest := by
  cases h with
  | @cons blanks _ rest _ hblanks hne hchars hrest h =>
    exact ⟨rest, word_append hblanks hne hchars hrest, h⟩

/-- **What `%s` finds is spelled there**, the converse of `word_cons`: a text is shown to spell its
words by taking them off one after the other. -/
theorem Spelled.of_word {words : List (List Char)} (hword : word text = some (chars, rest))
    (h : Spelled words rest) : Spelled (chars :: words) text := by
  unfold word at hword
  dsimp only at hword
  split at hword
  · cases hword
  · next hne =>
    cases hword
    have hblanks : ∀ ch ∈ text.takeWhile isSpace, isSpace ch = true := fun _ =>
      List.mem_takeWhile_imp
    have hchars : ∀ ch ∈ (skipSpace text).takeWhile fun ch => !isSpace ch, isSpace ch = false :=
      fun ch hch => by simpa using List.mem_takeWhile_imp hch
    have hrest : AtSpace ((skipSpace text).dropWhile fun ch => !isSpace ch) := by
      intro ch hch
      have hstop := List.head?_dropWhile_not (fun ch => !isSpace ch) (skipSpace text)
      rw [Option.mem_def.mp hch] at hstop
      simpa using hstop
    have hspelled := Spelled.cons hblanks hne hchars hrest h
    rwa [List.takeWhile_append_dropWhile, skipSpace, List.takeWhile_append_dropWhile] at hspelled

/-! ## Numbers

A number printed in decimal is read back by `%d`. The digits are those of `Nat.toDigits`, and a sign
stands in front of a negative one. -/

/-- The digits of a number are digits, and there is at least one. -/
theorem toDigits_digits (n : Nat) : ∀ ch ∈ Nat.toDigits 10 n, ch.isDigit = true :=
  fun _ hch => Nat.isDigit_of_mem_toDigits (by decide) (by decide) hch

theorem exists_toDigits_cons (n : Nat) :
    ∃ ch digits, Nat.toDigits 10 n = ch :: digits ∧ ch.isDigit = true := by
  cases hdigits : Nat.toDigits 10 n with
  | nil => exact absurd hdigits Nat.toDigits_ne_nil
  | cons ch digits => exact ⟨ch, digits, rfl, toDigits_digits n ch (hdigits ▸ List.mem_cons_self)⟩

theorem toList_repr (i : Int) :
    i.repr.toList = if 0 ≤ i then Nat.toDigits 10 i.natAbs else '-' :: Nat.toDigits 10 i.natAbs := by
  rw [Int.repr_eq_if]
  split
  · next hi => rw [Nat.toList_repr, show i.toNat = i.natAbs by omega]
  · next hi =>
    rw [String.toList_append, Nat.toList_repr, show (-i).toNat = i.natAbs by omega]
    rfl

/-- A printed number does not start with white space. -/
theorem skipSpace_repr (i : Int) (rest : List Char) :
    skipSpace (i.repr.toList ++ rest) = i.repr.toList ++ rest := by
  obtain ⟨ch, digits, hdigits, hch⟩ := exists_toDigits_cons i.natAbs
  rw [toList_repr, hdigits]
  split
  · exact skipSpace_cons (isSpace_of_isDigit hch) _
  · exact skipSpace_cons (by decide) _

theorem sign_repr (i : Int) (rest : List Char) :
    sign (i.repr.toList ++ rest) = (decide (i < 0), Nat.toDigits 10 i.natAbs ++ rest) := by
  rw [toList_repr]
  split
  · next hi =>
    obtain ⟨ch, digits, hdigits, hch⟩ := exists_toDigits_cons i.natAbs
    rw [hdigits, List.cons_append, sign, if_neg (by rintro rfl; cases hch),
      if_neg (by rintro rfl; cases hch), decide_eq_false (by omega)]
  · next hi => rw [List.cons_append, sign, if_pos rfl, decide_eq_true (by omega)]

/-- **A printed number is read back**, as long as no digit follows it. -/
theorem number_repr (hblanks : ∀ ch ∈ blanks, isSpace ch = true) (i : Int) (hrest : AtEnd rest) :
    number (blanks ++ (i.repr.toList ++ rest)) = some (i, rest) := by
  have hdigits := toDigits_digits i.natAbs
  rw [number, skipSpace_append hblanks, skipSpace_repr, sign_repr]
  dsimp only
  rw [takeWhile_append_stop hdigits hrest, dropWhile_append_stop hdigits hrest,
    if_neg Nat.toDigits_ne_nil, Nat.ofDigitChars_toDigits (by decide) (by decide)]
  congr 2
  split
  · next hi => rw [decide_eq_true_eq] at hi; omega
  · next hi => rw [decide_eq_true_eq] at hi; omega

end Scan
