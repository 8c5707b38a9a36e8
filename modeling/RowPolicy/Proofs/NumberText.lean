import RowPolicy.Json.Numeral
import RowPolicy.Proofs.ShortestDecimal
import RowPolicy.Proofs.TextSpan

/-!
# Texts of numbers

The text of a number spells its quantity: the text of a double spells its shortest decimal, and
with the sign this leaves one double only. The text of an integer has neither a point nor an
exponent mark, while the text of a double has one of them, so no two numbers share a text.
-/

namespace RowPolicy

namespace Text

/-! ## Reading a numeral -/

/-- The quantity of digits with or without a point among them. -/
def mantissa (text : List Char) : ℚ :=
  (Nat.ofDigitChars 10 (text.takeWhile (· != '.') ++ (text.dropWhile (· != '.')).drop 1) 0 : ℚ) *
    10 ^ (-(((text.dropWhile (· != '.')).drop 1).length : ℤ))

/-- The power of ten after an exponent mark. -/
def exponentOf : List Char → ℤ
  | '-' :: digits => -(Nat.ofDigitChars 10 digits 0 : ℤ)
  | _ :: digits => Nat.ofDigitChars 10 digits 0
  | [] => 0

/-- The quantity that a numeral without a sign spells. -/
def spelled (text : List Char) : ℚ :=
  mantissa (text.takeWhile (· != 'e')) * 10 ^ exponentOf ((text.dropWhile (· != 'e')).drop 1)

theorem forall_bne_of_notMem {text : List Char} {mark : Char} (h : mark ∉ text) :
    ∀ c ∈ text, (c != mark) = true := by
  intro c hc
  rw [bne_iff_ne]
  rintro rfl
  exact h hc

theorem mantissa_point {whole : List Char} (hwhole : '.' ∉ whole) (fraction : List Char) :
    mantissa (whole ++ '.' :: fraction) =
      (Nat.ofDigitChars 10 (whole ++ fraction) 0 : ℚ) * 10 ^ (-(fraction.length : ℤ)) := by
  have hspan := forall_bne_of_notMem hwhole
  have hstops : Stops (· != '.') ('.' :: fraction) := by simp
  rw [mantissa, takeWhile_append_of_stops hspan hstops, dropWhile_append_of_stops hspan hstops,
    List.drop_succ_cons, List.drop_zero]

theorem mantissa_whole {whole : List Char} (hwhole : '.' ∉ whole) :
    mantissa whole = Nat.ofDigitChars 10 whole 0 := by
  have hspan := forall_bne_of_notMem hwhole
  have htake := takeWhile_append_of_stops hspan stops_nil
  have hdrop := dropWhile_append_of_stops hspan stops_nil
  rw [List.append_nil] at htake hdrop
  simp [mantissa, htake, hdrop]

theorem spelled_positional {text : List Char} (htext : 'e' ∉ text) :
    spelled text = mantissa text := by
  have hspan := forall_bne_of_notMem htext
  have htake := takeWhile_append_of_stops hspan stops_nil
  have hdrop := dropWhile_append_of_stops hspan stops_nil
  rw [List.append_nil] at htake hdrop
  simp [spelled, htake, hdrop, exponentOf]

theorem spelled_exponent {text : List Char} (htext : 'e' ∉ text) (rest : List Char) :
    spelled (text ++ 'e' :: rest) = mantissa text * 10 ^ exponentOf rest := by
  have hspan := forall_bne_of_notMem htext
  have hstops : Stops (· != 'e') ('e' :: rest) := by simp
  rw [spelled, takeWhile_append_of_stops hspan hstops, dropWhile_append_of_stops hspan hstops,
    List.drop_succ_cons, List.drop_zero]

/-! ## Digits -/

theorem notMem_of_isDigit {digits : List Char} (h : ∀ c ∈ digits, c.isDigit = true) {c : Char}
    (hc : c.isDigit = false) : c ∉ digits := by
  intro hmem
  rw [h c hmem] at hc
  cases hc

end Text

namespace Binary64

open Text

/-- The text of digits that start a power of ten: positional, or with an exponent. -/
def layout (digits : List Char) (power : ℤ) : List Char :=
  let lead : ℤ := power + digits.length - 1
  if lead < -5 ∨ 15 < lead then
    digits.take 1 ++ ((if digits.drop 1 = [] then [] else '.' :: digits.drop 1) ++
      'e' :: (if lead < 0 then '-' else '+') :: Nat.toDigits 10 lead.natAbs)
  else if lead < 0 then
    '0' :: '.' :: (List.replicate (lead.natAbs - 1) '0' ++ digits)
  else if digits.length ≤ lead.toNat + 1 then
    digits ++ (List.replicate (lead.toNat + 1 - digits.length) '0' ++ ['.', '0'])
  else
    digits.take (lead.toNat + 1) ++ '.' :: digits.drop (lead.toNat + 1)

theorem text_of_isZero {x : Binary64} (hx : x.isZero = true) :
    x.text = (if x.negative then ['-'] else []) ++ ['0', '.', '0'] := by
  simp only [text, hx, if_true]

theorem text_of_not_isZero {x : Binary64} (hx : x.isZero = false) :
    x.text = (if x.negative then ['-'] else []) ++
      layout (Nat.toDigits 10 x.shortest.digits) x.shortest.power := by
  unfold text
  dsimp only
  rw [if_neg (by rw [hx]; exact Bool.false_ne_true)]
  generalize (if x.negative = true then ['-'] else []) = sign
  unfold layout
  generalize x.shortest = d
  generalize Nat.toDigits 10 d.digits = digits
  dsimp only
  generalize d.power + (digits.length : ℤ) - 1 = lead
  by_cases houtside : lead < -5 ∨ 15 < lead
  · rw [if_pos houtside, if_pos houtside]
    cases digits.drop 1 with
    | nil => rw [if_pos rfl, List.append_nil, List.nil_append, List.append_assoc]
    | cons c rest => rw [if_neg (List.cons_ne_nil c rest), List.append_assoc, List.append_assoc]
  · rw [if_neg houtside, if_neg houtside]
    by_cases hlead : lead < 0
    · rw [if_pos hlead, if_pos hlead, List.append_assoc, List.cons_append, List.cons_append]
    · rw [if_neg hlead, if_neg hlead]
      split
      · rw [List.append_assoc, List.append_assoc]
      · rw [List.append_assoc]

/-- The front of an exponent form: the first digit, and the others behind a point. -/
theorem mantissa_front {digits : List Char} (hdigits : ∀ c ∈ digits, c.isDigit = true)
    (hne : digits ≠ []) :
    mantissa (digits.take 1 ++ (if digits.drop 1 = [] then [] else '.' :: digits.drop 1)) =
      (Nat.ofDigitChars 10 digits 0 : ℚ) * 10 ^ (-(digits.length - 1 : ℤ)) := by
  have hpoint : '.' ∉ digits := notMem_of_isDigit hdigits (by decide)
  have htake : '.' ∉ digits.take 1 := fun hmem => hpoint (List.mem_of_mem_take hmem)
  have hlength : 0 < digits.length := List.length_pos_of_ne_nil hne
  split
  · next hrest =>
    have hwhole : digits.take 1 = digits := by
      have hsplit := List.take_append_drop 1 digits
      rwa [hrest, List.append_nil] at hsplit
    have hone : digits.length = 1 := by
      have hdrop := congrArg List.length hrest
      simp only [List.length_drop, List.length_nil] at hdrop
      omega
    rw [hwhole, List.append_nil, mantissa_whole hpoint, hone]
    simp
  · rw [mantissa_point htake, List.take_append_drop, List.length_drop, Nat.cast_sub hlength]
    rfl

theorem exponentOf_mark (lead : ℤ) :
    exponentOf ((if lead < 0 then '-' else '+') :: Nat.toDigits 10 lead.natAbs) = lead := by
  split
  · rw [exponentOf, Nat.ofDigitChars_ten_toDigits]
    omega
  · rw [exponentOf, Nat.ofDigitChars_ten_toDigits]
    · omega
    · decide

theorem ofDigitChars_leadingZeros (count : ℕ) (digits : List Char) :
    Nat.ofDigitChars 10 (List.replicate count '0' ++ digits) 0 = Nat.ofDigitChars 10 digits 0 := by
  rw [Nat.ofDigitChars_append, Nat.ofDigitChars_replicate_zero, Nat.mul_zero]

theorem ofDigitChars_trailingZeros (count : ℕ) (digits : List Char) :
    Nat.ofDigitChars 10 (digits ++ List.replicate count '0') 0 =
      10 ^ count * Nat.ofDigitChars 10 digits 0 := by
  rw [Nat.ofDigitChars_append, Nat.ofDigitChars_replicate_zero]

section Shapes

variable {digits : List Char} (hdigits : ∀ c ∈ digits, c.isDigit = true)
include hdigits

theorem mark_notMem_pointed (count : ℕ) :
    'e' ∉ digits.take count ++ '.' :: digits.drop count := by
  have hmark : 'e' ∉ digits := notMem_of_isDigit hdigits (by decide)
  intro hmem
  rcases List.mem_append.mp hmem with hmem | hmem
  · exact hmark (List.mem_of_mem_take hmem)
  · rcases List.mem_cons.mp hmem with heq | hmem
    · cases heq
    · exact hmark (List.mem_of_mem_drop hmem)

theorem mark_notMem_front :
    'e' ∉ digits.take 1 ++ (if digits.drop 1 = [] then [] else '.' :: digits.drop 1) := by
  split
  · rw [List.append_nil]
    have hmark : 'e' ∉ digits := notMem_of_isDigit hdigits (by decide)
    exact fun hmem => hmark (List.mem_of_mem_take hmem)
  · exact mark_notMem_pointed hdigits 1

/-- Digits behind a point and some zeros. -/
theorem spelled_fraction (zeros : ℕ) :
    spelled ('0' :: '.' :: (List.replicate zeros '0' ++ digits)) =
      (Nat.ofDigitChars 10 digits 0 : ℚ) * 10 ^ (-(zeros + digits.length : ℕ) : ℤ) := by
  have hmark : 'e' ∉ digits := notMem_of_isDigit hdigits (by decide)
  have hsplit : '0' :: '.' :: (List.replicate zeros '0' ++ digits) =
      ['0'] ++ '.' :: (List.replicate zeros '0' ++ digits) := rfl
  have hspelled : ['0'] ++ (List.replicate zeros '0' ++ digits) =
      List.replicate (zeros + 1) '0' ++ digits := by
    rw [List.replicate_succ, List.cons_append, List.cons_append, List.nil_append]
  have hlength : (List.replicate zeros '0' ++ digits).length = zeros + digits.length := by
    rw [List.length_append, List.length_replicate]
  rw [hsplit, spelled_positional, mantissa_point (by decide), hspelled,
    ofDigitChars_leadingZeros, hlength]
  simp [hmark]

/-- Digits followed by some zeros, a point and one zero more. -/
theorem spelled_whole (zeros : ℕ) :
    spelled (digits ++ (List.replicate zeros '0' ++ ['.', '0'])) =
      (Nat.ofDigitChars 10 digits 0 : ℚ) * 10 ^ (zeros : ℤ) := by
  have hpoint : '.' ∉ digits := notMem_of_isDigit hdigits (by decide)
  have hmark : 'e' ∉ digits := notMem_of_isDigit hdigits (by decide)
  have hsplit : digits ++ (List.replicate zeros '0' ++ ['.', '0']) =
      (digits ++ List.replicate zeros '0') ++ '.' :: ['0'] := by
    rw [List.append_assoc]
  have hspelled : digits ++ List.replicate zeros '0' ++ ['0'] =
      digits ++ List.replicate (zeros + 1) '0' := by
    rw [List.append_assoc, List.replicate_succ']
  rw [hsplit, spelled_positional, mantissa_point, hspelled, ofDigitChars_trailingZeros, pow_succ]
  · push_cast
    rw [List.length_singleton, Nat.cast_one, zpow_neg_one, zpow_natCast]
    field_simp
  · simp [hpoint]
  · simp [hmark]

/-- Digits with a point among them. -/
theorem spelled_pointed (count : ℕ) :
    spelled (digits.take count ++ '.' :: digits.drop count) =
      (Nat.ofDigitChars 10 digits 0 : ℚ) * 10 ^ (-(digits.length - count : ℕ) : ℤ) := by
  have hpoint : '.' ∉ digits := notMem_of_isDigit hdigits (by decide)
  have htake : '.' ∉ digits.take count := fun hmem => hpoint (List.mem_of_mem_take hmem)
  rw [spelled_positional (mark_notMem_pointed hdigits count), mantissa_point htake,
    List.take_append_drop, List.length_drop]

/-- The first digit, the others behind a point, and the power of ten of the first one. -/
theorem spelled_scientific (hne : digits ≠ []) (lead : ℤ) :
    spelled (digits.take 1 ++ ((if digits.drop 1 = [] then [] else '.' :: digits.drop 1) ++
        'e' :: (if lead < 0 then '-' else '+') :: Nat.toDigits 10 lead.natAbs)) =
      (Nat.ofDigitChars 10 digits 0 : ℚ) * 10 ^ (lead + 1 - (digits.length : ℤ)) := by
  have hten : (10 : ℚ) ≠ 0 := by norm_num1
  rw [← List.append_assoc, spelled_exponent (mark_notMem_front hdigits),
    mantissa_front hdigits hne, exponentOf_mark, mul_assoc, ← zpow_add₀ hten]
  congr 2
  omega

/-- A layout spells the quantity of its digits at their power of ten. -/
theorem spelled_layout (hne : digits ≠ []) (power : ℤ) :
    spelled (layout digits power) = (Nat.ofDigitChars 10 digits 0 : ℚ) * 10 ^ power := by
  unfold layout
  dsimp only
  generalize hlead : power + (digits.length : ℤ) - 1 = lead
  by_cases houtside : lead < -5 ∨ 15 < lead
  · have hpower : lead + 1 - (digits.length : ℤ) = power := by omega
    rw [if_pos houtside, spelled_scientific hdigits hne, hpower]
  · rw [if_neg houtside]
    by_cases hnegative : lead < 0
    · have hpower : -((lead.natAbs - 1 + digits.length : ℕ) : ℤ) = power := by omega
      rw [if_pos hnegative, spelled_fraction hdigits, hpower]
    · rw [if_neg hnegative]
      by_cases hshort : digits.length ≤ lead.toNat + 1
      · have hpower : ((lead.toNat + 1 - digits.length : ℕ) : ℤ) = power := by omega
        rw [if_pos hshort, spelled_whole hdigits, hpower]
      · have hpower : -((digits.length - (lead.toNat + 1) : ℕ) : ℤ) = power := by omega
        rw [if_neg hshort, spelled_pointed hdigits, hpower]

end Shapes

/-! ## Injectivity -/

theorem head?_layout {digits : List Char} (hdigits : ∀ c ∈ digits, c.isDigit = true)
    (hne : digits ≠ []) (power : ℤ) : ∃ c rest, layout digits power = c :: rest ∧ c ≠ '-' := by
  cases digits with
  | nil => exact absurd rfl hne
  | cons c rest =>
      have hc : c ≠ '-' := by
        rintro rfl
        exact absurd (hdigits '-' List.mem_cons_self) (by decide)
      unfold layout
      dsimp only
      split
      · exact ⟨c, _, rfl, hc⟩
      · split
        · exact ⟨'0', _, rfl, by decide⟩
        · split
          · exact ⟨c, _, rfl, hc⟩
          · exact ⟨c, _, rfl, hc⟩

/-- A point or an exponent mark stands in every layout. -/
theorem marked_layout (digits : List Char) (power : ℤ) :
    '.' ∈ layout digits power ∨ 'e' ∈ layout digits power := by
  unfold layout
  dsimp only
  split
  · exact Or.inr (by simp)
  · split
    · exact Or.inl (by simp)
    · split
      · exact Or.inl (by simp)
      · exact Or.inl (by simp)

end Binary64

def Text.isNumberChar (c : Char) : Bool :=
  c.isDigit || c == '-' || c == '+' || c == '.' || c == 'e'

namespace Binary64

open Text

theorem isNumberChar_of_isDigit {c : Char} (h : c.isDigit = true) : isNumberChar c = true := by
  simp [isNumberChar, h]

theorem isNumberChar_replicate (count : ℕ) : ∀ c ∈ List.replicate count '0',
    isNumberChar c = true := by
  intro c hc
  rw [List.eq_of_mem_replicate hc]
  rfl

theorem isNumberChar_layout {digits : List Char} (hdigits : ∀ c ∈ digits, c.isDigit = true)
    (power : ℤ) : ∀ c ∈ layout digits power, isNumberChar c = true := by
  have hnumber : ∀ c ∈ digits, isNumberChar c = true := fun c hc =>
    isNumberChar_of_isDigit (hdigits c hc)
  have htake : ∀ n, ∀ c ∈ digits.take n, isNumberChar c = true := fun n c hc =>
    hnumber c (List.mem_of_mem_take hc)
  have hdrop : ∀ n, ∀ c ∈ digits.drop n, isNumberChar c = true := fun n c hc =>
    hnumber c (List.mem_of_mem_drop hc)
  unfold layout
  dsimp only
  generalize power + (digits.length : ℤ) - 1 = lead
  split
  · rw [List.forall_mem_append, List.forall_mem_append, List.forall_mem_cons,
      List.forall_mem_cons]
    refine ⟨htake 1, ?_, rfl, ?_, fun c hc => isNumberChar_of_isDigit (isDigit_of_mem_toDigits hc)⟩
    · split
      · exact fun c hc => nomatch hc
      · exact List.forall_mem_cons.mpr ⟨rfl, hdrop 1⟩
    · split <;> rfl
  · split
    · rw [List.forall_mem_cons, List.forall_mem_cons, List.forall_mem_append]
      exact ⟨rfl, rfl, isNumberChar_replicate _, hnumber⟩
    · split
      · rw [List.forall_mem_append, List.forall_mem_append]
        exact ⟨hnumber, isNumberChar_replicate _, by simp [isNumberChar]⟩
      · rw [List.forall_mem_append, List.forall_mem_cons]
        exact ⟨htake _, rfl, hdrop _⟩

/-- The digits of a double's shortest decimal. -/
theorem shortest_digits (x : Binary64) :
    (∀ c ∈ Nat.toDigits 10 x.shortest.digits, c.isDigit = true) ∧
      Nat.toDigits 10 x.shortest.digits ≠ [] :=
  ⟨fun _ => isDigit_of_mem_toDigits, Nat.toDigits_ne_nil⟩

theorem unsigned_text (x : Binary64) : ∃ text, x.text = (if x.negative then ['-'] else []) ++ text ∧
    (∃ c rest, text = c :: rest ∧ c ≠ '-') ∧ (∀ c ∈ text, isNumberChar c = true) ∧
      ('.' ∈ text ∨ 'e' ∈ text) ∧ spelled text = if x.isZero then 0 else x.shortest.value := by
  obtain ⟨hdigits, hne⟩ := shortest_digits x
  cases hx : x.isZero with
  | true =>
      refine ⟨_, text_of_isZero hx, ⟨'0', _, rfl, by decide⟩, by simp [isNumberChar],
        Or.inl (by simp), ?_⟩
      rw [spelled_positional (by decide)]
      have hzero := @mantissa_point ['0'] (by decide) ['0']
      rw [List.singleton_append] at hzero
      rw [hzero]
      simp [Nat.ofDigitChars]
  | false =>
      refine ⟨_, text_of_not_isZero hx, head?_layout hdigits hne _, isNumberChar_layout hdigits _,
        marked_layout _ _, ?_⟩
      rw [spelled_layout hdigits hne, Nat.ofDigitChars_ten_toDigits]
      rfl

theorem text_isNumberChar (x : Binary64) : ∀ c ∈ x.text, isNumberChar c = true := by
  obtain ⟨text, htext, -, hchars, -⟩ := unsigned_text x
  rw [htext, List.forall_mem_append]
  refine ⟨?_, hchars⟩
  split <;> simp [isNumberChar]

theorem text_marked (x : Binary64) : '.' ∈ x.text ∨ 'e' ∈ x.text := by
  obtain ⟨text, htext, -, -, hmarked, -⟩ := unsigned_text x
  rw [htext]
  exact hmarked.imp (List.mem_append_right _) (List.mem_append_right _)

/-- A sign is told from a text that does not start with one. -/
theorem sign_unique {negative negative' : Bool} {text text' : List Char}
    (htext : ∃ c rest, text = c :: rest ∧ c ≠ '-') (htext' : ∃ c rest, text' = c :: rest ∧ c ≠ '-')
    (h : (if negative then ['-'] else []) ++ text = (if negative' then ['-'] else []) ++ text') :
    negative = negative' ∧ text = text' := by
  obtain ⟨c, rest, rfl, hc⟩ := htext
  obtain ⟨c', rest', rfl, hc'⟩ := htext'
  cases negative <;> cases negative' <;> simp_all [eq_comm]

/-- The text of a double determines it. -/
theorem text_injective {x y : Binary64} (h : x.text = y.text) : x = y := by
  obtain ⟨text, htext, hhead, -, -, hspelled⟩ := unsigned_text x
  obtain ⟨text', htext', hhead', -, -, hspelled'⟩ := unsigned_text y
  rw [htext, htext'] at h
  obtain ⟨hnegative, rfl⟩ := sign_unique hhead hhead' h
  have hvalue : (if x.isZero then 0 else x.shortest.value) =
      if y.isZero then 0 else y.shortest.value := hspelled.symm.trans hspelled'
  have hmagnitude : x.magnitude = y.magnitude := by
    cases hx : x.isZero with
    | true =>
        cases hy : y.isZero with
        | true =>
            have hx' : x.magnitude = 0 := by simpa [isZero] using hx
            have hy' : y.magnitude = 0 := by simpa [isZero] using hy
            rw [hx', hy']
        | false =>
            have hpos := shortest_value_pos hy
            simp only [hx, hy, if_true, Bool.false_eq_true, if_false] at hvalue
            exact absurd hvalue hpos.ne
    | false =>
        cases hy : y.isZero with
        | true =>
            have hpos := shortest_value_pos hx
            simp only [hx, hy, if_true, Bool.false_eq_true, if_false] at hvalue
            exact absurd hvalue hpos.ne'
        | false =>
            simp only [hx, hy, Bool.false_eq_true, if_false] at hvalue
            exact magnitude_eq_of_shortest_value hx hy hvalue
  cases x
  cases y
  cases hnegative
  cases hmagnitude
  rfl

end Binary64

namespace Json

open Text

theorem Integer.text_eq (x : Integer) :
    x.text = (if decide (x.value < 0) then ['-'] else []) ++ Nat.toDigits 10 x.value.natAbs := by
  unfold Integer.text
  by_cases h : x.value < 0 <;> simp [h]

theorem Integer.text_chars (x : Integer) : ∀ c ∈ x.text, c = '-' ∨ c.isDigit = true := by
  rw [Integer.text_eq, List.forall_mem_append]
  refine ⟨?_, fun c hc => Or.inr (isDigit_of_mem_toDigits hc)⟩
  split <;> simp

theorem toDigits_head (n : ℕ) : ∃ c rest, Nat.toDigits 10 n = c :: rest ∧ c ≠ '-' := by
  cases hdigits : Nat.toDigits 10 n with
  | nil => exact absurd hdigits Nat.toDigits_ne_nil
  | cons c rest =>
      refine ⟨c, rest, rfl, ?_⟩
      rintro rfl
      have hmem : '-' ∈ Nat.toDigits 10 n := by
        rw [hdigits]
        exact List.mem_cons_self
      exact absurd (isDigit_of_mem_toDigits hmem) (by decide)

theorem Integer.text_injective {x y : Integer} (h : x.text = y.text) : x = y := by
  rw [Integer.text_eq, Integer.text_eq] at h
  obtain ⟨hsign, hdigits⟩ := Binary64.sign_unique (toDigits_head _) (toDigits_head _) h
  have hnatAbs := toDigits_injective hdigits
  have hvalue : x.value = y.value := by
    rw [decide_eq_decide] at hsign
    omega
  cases x
  cases y
  cases hvalue
  rfl

/-- No integer shares its text with a double. -/
theorem integer_text_ne_real (x : Integer) (y : Binary64) : x.text ≠ y.text := by
  intro h
  have hchars := x.text_chars
  rw [h] at hchars
  rcases y.text_marked with hmem | hmem
  · exact absurd (hchars '.' hmem) (by decide)
  · exact absurd (hchars 'e' hmem) (by decide)

/-- The text of a number determines it. -/
theorem Number.text_injective {a b : Number} (h : a.text = b.text) : a = b := by
  cases a with
  | integer x =>
      cases b with
      | integer y => rw [Integer.text_injective h]
      | real y => exact absurd h (integer_text_ne_real x y)
  | real x =>
      cases b with
      | integer y => exact absurd h.symm (integer_text_ne_real y x)
      | real y => rw [Binary64.text_injective h]

theorem Number.text_isNumberChar (a : Number) : ∀ c ∈ a.text, isNumberChar c = true := by
  cases a with
  | integer x =>
      intro c hc
      rcases x.text_chars c hc with rfl | hdigit
      · rfl
      · exact Binary64.isNumberChar_of_isDigit hdigit
  | real x => exact x.text_isNumberChar

end Json

end RowPolicy
