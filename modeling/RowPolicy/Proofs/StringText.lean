import RowPolicy.Json.Token
import Mathlib.Data.List.Basic

/-!
# Texts of strings

The reader of string tokens undoes their writer: a written string, whatever follows its closing
quote, is read as its own characters. Hence a written string ends in one place only and determines
the string.
-/

namespace RowPolicy

namespace Json

open Text

def unitOf (c : Char) : StringUnit :=
  if c = '\x08' ∨ c = '\x0c' ∨ c = '\n' ∨ c = '\r' ∨ c = '\t' then .char c
  else if c.toNat < 32 then .code c.toNat
  else .char c

theorem hex4?_hexDigits {n : Nat} (h : n < 32) :
    ∃ a b c d, hexDigits 4 n = [a, b, c, d] ∧ hex4? a b c d = some n := by
  refine ⟨hexDigit (n / 16 / 16 / 16 % 16), hexDigit (n / 16 / 16 % 16), hexDigit (n / 16 % 16),
    hexDigit (n % 16), rfl, ?_⟩
  have hall : ∀ m < 32, hex4? (hexDigit (m / 16 / 16 / 16 % 16)) (hexDigit (m / 16 / 16 % 16))
      (hexDigit (m / 16 % 16)) (hexDigit (m % 16)) = some m := by
    decide
  exact hall n h

/-- A character is written as a short escape, as a code, or as itself. -/
theorem charText_cases (c : Char) :
    (∃ e, charText c = ['\\', e] ∧ e ≠ 'u' ∧ escaped? e = some c ∧ unitOf c = .char c) ∨
      (c.toNat < 32 ∧ charText c = '\\' :: 'u' :: hexDigits 4 c.toNat ∧
        unitOf c = .code c.toNat) ∨
      (charText c = [c] ∧ c ≠ '"' ∧ c ≠ '\\' ∧ ¬ c.toNat < 32 ∧ unitOf c = .char c) := by
  by_cases hshort : c = '"' ∨ c = '\\' ∨ c = '\x08' ∨ c = '\x0c' ∨ c = '\n' ∨ c = '\r' ∨ c = '\t'
  · apply Or.inl
    rcases hshort with rfl | rfl | rfl | rfl | rfl | rfl | rfl <;>
      exact ⟨_, rfl, by decide, rfl, rfl⟩
  · apply Or.inr
    simp only [not_or] at hshort
    obtain ⟨hquote, hslash, hback, hfeed, hline, hreturn, htab⟩ := hshort
    by_cases hcontrol : c.toNat < 32
    · apply Or.inl
      simp [charText, unitOf, hquote, hslash, hback, hfeed, hline, hreturn, htab, hcontrol]
    · apply Or.inr
      simp [charText, unitOf, hquote, hslash, hback, hfeed, hline, hreturn, htab, hcontrol]

/-- A written character is read as its unit. -/
theorem stringUnits?_charText (c : Char) (rest : List Char) :
    stringUnits? (charText c ++ rest) =
      (stringUnits? rest).map fun found => (unitOf c :: found.1, found.2) := by
  rcases charText_cases c with ⟨e, htext, he, hescaped, hunit⟩ | ⟨hcontrol, htext, hunit⟩ |
    ⟨htext, hquote, hslash, hcontrol, hunit⟩
  · rw [htext, hunit, List.cons_append, List.singleton_append, stringUnits?]
    · rw [hescaped]
      cases stringUnits? rest <;> rfl
    · rintro a b d f tail rfl
      exact absurd rfl he
  · obtain ⟨x, y, z, w, hdigits, hvalue⟩ := hex4?_hexDigits hcontrol
    rw [htext, hdigits, hunit]
    simp only [List.cons_append, List.nil_append, stringUnits?, hvalue]
    cases stringUnits? rest <;> rfl
  · rw [htext, hunit, List.singleton_append, stringUnits?]
    · rw [if_neg (by simp [hslash, hcontrol])]
    · exact hquote
    · exact fun a b d f tail heq => absurd heq hslash
    · exact fun e tail heq => absurd heq hslash

theorem unitsChars?_unitOf (c : Char) (units : List StringUnit) :
    unitsChars? (unitOf c :: units) = (unitsChars? units).map (c :: ·) := by
  rcases charText_cases c with ⟨e, -, -, -, hunit⟩ | ⟨hcontrol, -, hunit⟩ | ⟨-, -, -, -, hunit⟩
  · rw [hunit, unitsChars?]
  · have hscalar : c.toNat < 0xd800 ∨ 0xdfff < c.toNat := by omega
    rw [hunit]
    cases units with
    | nil => simp [unitsChars?, hscalar]
    | cons unit units => cases unit <;> simp [unitsChars?, hscalar]
  · rw [hunit, unitsChars?]

/-- Written characters up to a closing quote are read as they were. -/
theorem stringUnits?_flatMap (chars : List Char) (rest : List Char) :
    ∃ units, stringUnits? (chars.flatMap charText ++ '"' :: rest) = some (units, rest) ∧
      unitsChars? units = some chars := by
  induction chars with
  | nil => exact ⟨[], rfl, rfl⟩
  | cons c chars ih =>
      obtain ⟨units, hread, hchars⟩ := ih
      refine ⟨unitOf c :: units, ?_, ?_⟩
      · rw [List.flatMap_cons, List.append_assoc, stringUnits?_charText, hread]
        rfl
      · rw [unitsChars?_unitOf, hchars]
        rfl

/-- A written string determines the string and where it ends. -/
theorem stringText_unique {a b : String} {s t : List Char}
    (h : stringText a ++ s = stringText b ++ t) : a = b ∧ s = t := by
  have htexts : a.toList.flatMap charText ++ '"' :: s = b.toList.flatMap charText ++ '"' :: t := by
    simpa [stringText] using h
  obtain ⟨units, hread, hchars⟩ := stringUnits?_flatMap a.toList s
  obtain ⟨units', hread', hchars'⟩ := stringUnits?_flatMap b.toList t
  rw [htexts, hread', Option.some.injEq, Prod.mk.injEq] at hread
  obtain ⟨rfl, rfl⟩ := hread
  rw [hchars', Option.some.injEq] at hchars
  exact ⟨String.toList_injective hchars.symm, rfl⟩

end Json

end RowPolicy
