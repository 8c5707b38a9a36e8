import Mathlib.Data.List.TakeWhile

/-!
# Spans of a text

A span of characters of one class ends where the text ends or goes on with a character outside
the class. A text is cut there in one way only. The digits of a number are such a span.
-/

namespace RowPolicy

namespace Text

/-- A text that does not go on with a character of a class. -/
def Stops (p : Char → Bool) (rest : List Char) : Prop :=
  ∀ c ∈ rest.head?, p c = false

variable {p : Char → Bool}

@[simp] theorem stops_nil : Stops p [] := by
  intro c hc
  cases hc

@[simp] theorem stops_cons {c : Char} {rest : List Char} :
    Stops p (c :: rest) ↔ p c = false := by
  simp [Stops]

theorem stops_dropWhile (text : List Char) : Stops p (text.dropWhile p) := by
  intro c hc
  have hhead := List.head?_dropWhile_not p text
  rw [Option.mem_def.mp hc] at hhead
  simpa using hhead

theorem takeWhile_append_of_stops {span rest : List Char} (hspan : ∀ c ∈ span, p c = true)
    (hrest : Stops p rest) : (span ++ rest).takeWhile p = span := by
  rw [List.takeWhile_append_of_pos hspan]
  cases rest with
  | nil => simp
  | cons c rest => simp [stops_cons.mp hrest]

theorem dropWhile_append_of_stops {span rest : List Char} (hspan : ∀ c ∈ span, p c = true)
    (hrest : Stops p rest) : (span ++ rest).dropWhile p = rest := by
  rw [List.dropWhile_append_of_pos hspan]
  cases rest with
  | nil => simp
  | cons c rest => simp [stops_cons.mp hrest]

/-- A span and what follows it are determined by the text of both. -/
theorem span_unique {span span' rest rest' : List Char} (hspan : ∀ c ∈ span, p c = true)
    (hspan' : ∀ c ∈ span', p c = true) (hrest : Stops p rest) (hrest' : Stops p rest')
    (h : span ++ rest = span' ++ rest') : span = span' ∧ rest = rest' := by
  constructor
  · rw [← takeWhile_append_of_stops hspan hrest, h, takeWhile_append_of_stops hspan' hrest']
  · rw [← dropWhile_append_of_stops hspan hrest, h, dropWhile_append_of_stops hspan' hrest']

/-! ## Digits -/

theorem isDigit_of_mem_toDigits {n : Nat} {c : Char} (h : c ∈ Nat.toDigits 10 n) :
    c.isDigit = true :=
  Nat.isDigit_of_mem_toDigits (by decide) (by decide) h

theorem toDigits_injective {m n : Nat} (h : Nat.toDigits 10 m = Nat.toDigits 10 n) : m = n := by
  rw [← @Nat.ofDigitChars_ten_toDigits m, h, Nat.ofDigitChars_ten_toDigits]

theorem toDigits_unique {m n : Nat} {rest rest' : List Char} (hrest : Stops Char.isDigit rest)
    (hrest' : Stops Char.isDigit rest')
    (h : Nat.toDigits 10 m ++ rest = Nat.toDigits 10 n ++ rest') : m = n ∧ rest = rest' := by
  have hm : ∀ c ∈ Nat.toDigits 10 m, c.isDigit = true := fun _ => isDigit_of_mem_toDigits
  have hn : ∀ c ∈ Nat.toDigits 10 n, c.isDigit = true := fun _ => isDigit_of_mem_toDigits
  obtain ⟨hdigits, htail⟩ := span_unique hm hn hrest hrest' h
  exact ⟨toDigits_injective hdigits, htail⟩

end Text

end RowPolicy
