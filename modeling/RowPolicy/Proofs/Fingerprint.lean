import RowPolicy.Json.Printer
import RowPolicy.Sha256
import Mathlib.Algebra.Group.Nat.Defs
import Mathlib.Data.List.Basic

/-!
# Fingerprints and the texts under them

A fingerprint spells the digest of the UTF-8 bytes of a text. The spelling loses nothing, so that
texts with one fingerprint are the same text unless their bytes collide.
-/

namespace RowPolicy

namespace Text

def utf8 (text : String) : List UInt8 := text.toUTF8.data.toList

theorem utf8_injective {s t : String} (h : utf8 s = utf8 t) : s = t := by
  have hdata : s.toUTF8.data = t.toUTF8.data := Array.toList_inj.mp h
  have hbytes : s.toUTF8 = t.toUTF8 := ByteArray.ext hdata
  rwa [String.toUTF8_eq_toByteArray, String.toUTF8_eq_toByteArray, String.toByteArray_inj] at hbytes

@[simp] theorem length_hexDigits (width n : Nat) : (hexDigits width n).length = width := by
  induction width generalizing n with
  | zero => rfl
  | succ width ih => rw [hexDigits, List.length_append, ih, List.length_singleton]

theorem hexDigit_injective {m n : Nat} (hm : m < 16) (hn : n < 16)
    (h : hexDigit m = hexDigit n) : m = n := by
  have hall : ∀ m < 16, ∀ n < 16, hexDigit m = hexDigit n → m = n := by decide
  exact hall m hm n hn h

/-- Digits of one width determine the number, up to the power of sixteen that it is below. -/
theorem hexDigits_injective {width m n : Nat} (hm : m < 16 ^ width) (hn : n < 16 ^ width)
    (h : hexDigits width m = hexDigits width n) : m = n := by
  induction width generalizing m n with
  | zero => omega
  | succ width ih =>
      rw [Nat.pow_succ] at hm hn
      rw [hexDigits, hexDigits] at h
      obtain ⟨hhigh, hlow⟩ := List.append_inj' h rfl
      have hquotient : m / 16 = n / 16 := ih (by omega) (by omega) hhigh
      have hremainder : m % 16 = n % 16 := by
        rw [List.singleton_inj] at hlow
        exact hexDigit_injective (by omega) (by omega) hlow
      omega

end Text

open Text

namespace Sha256

theorem hexDigits_word_injective {v w : UInt32}
    (h : hexDigits 8 v.toNat = hexDigits 8 w.toNat) : v = w := by
  apply UInt32.toNat_inj.mp
  exact hexDigits_injective v.toNat_lt w.toNat_lt h

/-- Words spelled one after the other are told apart, each having eight digits. -/
theorem flatMap_hexDigits_injective {vs ws : List UInt32}
    (h : vs.flatMap (fun w => hexDigits 8 w.toNat) = ws.flatMap fun w => hexDigits 8 w.toNat) :
    vs = ws := by
  induction vs generalizing ws with
  | nil =>
      cases ws with
      | nil => rfl
      | cons w ws =>
          have hlength := congrArg List.length h
          simp only [List.flatMap_nil, List.flatMap_cons, List.length_append, List.length_nil,
            length_hexDigits] at hlength
          omega
  | cons v vs ih =>
      cases ws with
      | nil =>
          have hlength := congrArg List.length h
          simp only [List.flatMap_nil, List.flatMap_cons, List.length_append, List.length_nil,
            length_hexDigits] at hlength
          omega
      | cons w ws =>
          rw [List.flatMap_cons, List.flatMap_cons] at h
          obtain ⟨hfirst, hrest⟩ := List.append_inj h (by rw [length_hexDigits, length_hexDigits])
          rw [hexDigits_word_injective hfirst, ih hrest]

/-- Two texts collide when they differ and their bytes have one digest. -/
def Collision (s t : String) : Prop := s ≠ t ∧ digest (utf8 s) = digest (utf8 t)

instance (s t : String) : Decidable (Collision s t) :=
  inferInstanceAs (Decidable (s ≠ t ∧ digest (utf8 s) = digest (utf8 t)))

def CollisionFree (texts : List String) : Prop := ∀ s ∈ texts, ∀ t ∈ texts, ¬ Collision s t

instance (texts : List String) : Decidable (CollisionFree texts) :=
  inferInstanceAs (Decidable (∀ s ∈ texts, ∀ t ∈ texts, ¬ Collision s t))

end Sha256

theorem digest_eq_of_sha256_eq {s t : String} (h : sha256 s = sha256 t) :
    Sha256.digest (utf8 s) = Sha256.digest (utf8 t) :=
  Sha256.flatMap_hexDigits_injective (String.ofList_injective h)

theorem eq_of_sha256_eq {s t : String} (hfree : ¬ Sha256.Collision s t)
    (h : sha256 s = sha256 t) : s = t := by
  by_contra hne
  exact hfree ⟨hne, digest_eq_of_sha256_eq h⟩

/-- The bytes that the fingerprint of a value is the digest of. -/
def Json.bytes (json : Json) : List UInt8 := utf8 json.compact

end RowPolicy
