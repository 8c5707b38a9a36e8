import RowPolicy.Json.Printer
import RowPolicy.Proofs.StringText
import RowPolicy.Proofs.TextSpan

/-!
# Texts of tokens

A numeral in front of a text that cannot go on with it is read as itself, and every number that is
read has been spelled by a numeral. A text is read token by token, so that the written form of a
token in front of a text adds this token to those of the text.
-/

namespace RowPolicy

namespace Json

open Text

/-! ## Numerals -/

def extendsNumeral (c : Char) : Bool := c.isDigit || c == '.' || c == 'e' || c == 'E'

namespace Numeral

def fractionChars : Option (List Char) → List Char
  | none => []
  | some digits => '.' :: digits

def exponentChars : Option (Bool × List Char) → List Char
  | none => []
  | some (negative, digits) => 'e' :: (if negative then '-' :: digits else digits)

def unsignedChars (numeral : Numeral) : List Char :=
  numeral.whole ++ (fractionChars numeral.fraction ++ exponentChars numeral.exponent)

def chars (numeral : Numeral) : List Char :=
  if numeral.negative then '-' :: numeral.unsignedChars else numeral.unsignedChars

/-- Digits where they must stand, and no zero in front of other digits. -/
structure WellFormed (numeral : Numeral) : Prop where
  whole_ne_nil : numeral.whole ≠ []
  whole_digits : ∀ c ∈ numeral.whole, c.isDigit = true
  no_leading_zero : numeral.whole.head? = some '0' → numeral.whole = ['0']
  fraction_digits : ∀ digits ∈ numeral.fraction, digits ≠ [] ∧ ∀ c ∈ digits, c.isDigit = true
  exponent_digits : ∀ exponent ∈ numeral.exponent,
    exponent.2 ≠ [] ∧ ∀ c ∈ exponent.2, c.isDigit = true

end Numeral

variable {numeral : Numeral} {negative : Bool} {rest : List Char}

/-! ## Reading numerals part by part -/

theorem forall_isDigit_takeWhile (text : List Char) :
    ∀ c ∈ text.takeWhile Char.isDigit, c.isDigit = true :=
  fun _ => List.mem_takeWhile_imp

theorem digits_of_fraction? {text : List Char} {fraction : Option (List Char)}
    (h : fraction? text = some (fraction, rest)) :
    ∀ digits ∈ fraction, digits ≠ [] ∧ ∀ c ∈ digits, c.isDigit = true := by
  unfold fraction? at h
  split at h
  · dsimp only at h
    split at h
    · cases h
    · next hne =>
      cases h
      rintro _ hdigits
      cases hdigits
      exact ⟨hne, forall_isDigit_takeWhile _⟩
  · cases h
    nofun

theorem digits_of_exponent? {text : List Char} {exponent : Option (Bool × List Char)}
    (h : exponent? text = some (exponent, rest)) :
    ∀ found ∈ exponent, found.2 ≠ [] ∧ ∀ c ∈ found.2, c.isDigit = true := by
  unfold exponent? at h
  split at h
  · split at h
    · dsimp only at h
      split at h
      · cases h
      · next hne =>
        cases h
        rintro _ hfound
        cases hfound
        exact ⟨hne, forall_isDigit_takeWhile _⟩
    · cases h
      nofun
  · cases h
    nofun

/-- Only well-formed numerals are read. -/
theorem wellFormed_of_numeral? {text : List Char}
    (h : numeral? negative text = some (numeral, rest)) :
    numeral.WellFormed ∧ numeral.negative = negative := by
  rw [numeral?] at h
  dsimp only at h
  split at h
  · cases h
  · next hguard =>
    obtain ⟨⟨fraction, _⟩, hfraction, h⟩ := Option.bind_eq_some_iff.mp h
    obtain ⟨⟨exponent, _⟩, hexponent, h⟩ := Option.bind_eq_some_iff.mp h
    cases h
    rw [not_or, not_and_not_right] at hguard
    exact ⟨⟨hguard.1, forall_isDigit_takeWhile text, hguard.2, digits_of_fraction? hfraction,
      digits_of_exponent? hexponent⟩, rfl⟩

/-! ## Numerals in front of a text -/

theorem stops_isDigit (h : Stops extendsNumeral rest) : Stops Char.isDigit rest := by
  intro c hc
  have hextends := h c hc
  simp only [extendsNumeral, Bool.or_eq_false_iff] at hextends
  exact hextends.1.1.1

theorem stops_exponentChars (exponent : Option (Bool × List Char))
    (h : Stops extendsNumeral rest) :
    Stops Char.isDigit (Numeral.exponentChars exponent ++ rest) := by
  cases exponent with
  | none => exact stops_isDigit h
  | some exponent => simp [Numeral.exponentChars]

theorem stops_fractionChars (fraction : Option (List Char)) (exponent : Option (Bool × List Char))
    (h : Stops extendsNumeral rest) :
    Stops Char.isDigit
      (Numeral.fractionChars fraction ++ (Numeral.exponentChars exponent ++ rest)) := by
  cases fraction with
  | none => exact stops_exponentChars exponent h
  | some digits => simp [Numeral.fractionChars]

theorem exponentSign_of_digits {digits : List Char} (hne : digits ≠ [])
    (hdigits : ∀ c ∈ digits, c.isDigit = true) (rest : List Char) :
    exponentSign (digits ++ rest) = (false, digits ++ rest) := by
  obtain ⟨c, tail, rfl⟩ := List.exists_cons_of_ne_nil hne
  have hc := hdigits c List.mem_cons_self
  unfold exponentSign
  split
  · next heq =>
    cases heq
    exact absurd hc (by decide)
  · next heq =>
    cases heq
    exact absurd hc (by decide)
  · rfl

theorem exponent?_exponentChars {exponent : Option (Bool × List Char)}
    (hexponent : ∀ found ∈ exponent, found.2 ≠ [] ∧ ∀ c ∈ found.2, c.isDigit = true)
    (hrest : Stops extendsNumeral rest) :
    exponent? (Numeral.exponentChars exponent ++ rest) = some (exponent, rest) := by
  cases exponent with
  | none =>
      cases rest with
      | nil => rfl
      | cons c rest =>
          have hc : ¬ (c = 'e' ∨ c = 'E') := by
            rintro (rfl | rfl) <;> simp [extendsNumeral] at hrest
          exact if_neg hc
  | some found =>
      obtain ⟨sign, digits⟩ := found
      obtain ⟨hne, hdigits⟩ := hexponent _ rfl
      have hstops := stops_isDigit hrest
      have hsign : exponentSign ((if sign then '-' :: digits else digits) ++ rest) =
          (sign, digits ++ rest) := by
        cases sign with
        | true => rfl
        | false => exact exponentSign_of_digits hne hdigits rest
      rw [Numeral.exponentChars, List.cons_append, exponent?, if_pos (Or.inl rfl), hsign]
      dsimp only
      rw [takeWhile_append_of_stops hdigits hstops, if_neg hne,
        dropWhile_append_of_stops hdigits hstops]

theorem fraction?_fractionChars {fraction : Option (List Char)}
    (exponent : Option (Bool × List Char))
    (hfraction : ∀ digits ∈ fraction, digits ≠ [] ∧ ∀ c ∈ digits, c.isDigit = true)
    (hrest : Stops extendsNumeral rest) :
    fraction? (Numeral.fractionChars fraction ++ (Numeral.exponentChars exponent ++ rest)) =
      some (fraction, Numeral.exponentChars exponent ++ rest) := by
  cases fraction with
  | none =>
      rw [Numeral.fractionChars, List.nil_append]
      unfold fraction?
      split
      · next after heq =>
        -- Neither an exponent nor what follows a numeral starts with a point.
        cases exponent with
        | none =>
            rw [Numeral.exponentChars, List.nil_append] at heq
            subst heq
            simp [extendsNumeral] at hrest
        | some found => cases heq
      · rfl
  | some digits =>
      obtain ⟨hne, hdigits⟩ := hfraction _ rfl
      have hstops := stops_exponentChars exponent hrest
      rw [Numeral.fractionChars, List.cons_append, fraction?,
        takeWhile_append_of_stops hdigits hstops, if_neg hne,
        dropWhile_append_of_stops hdigits hstops]

/-- A well-formed numeral is read as itself. -/
theorem numeral?_unsignedChars (hnumeral : numeral.WellFormed) (hrest : Stops extendsNumeral rest) :
    numeral? numeral.negative (numeral.unsignedChars ++ rest) = some (numeral, rest) := by
  obtain ⟨negative, whole, fraction, exponent⟩ := numeral
  obtain ⟨hne, hwhole, hzero, hfraction, hexponent⟩ := hnumeral
  have hstops := stops_fractionChars fraction exponent hrest
  have hguard : ¬ (whole = [] ∨ (whole.head? = some '0' ∧ whole ≠ ['0'])) := by
    rw [not_or, not_and_not_right]
    exact ⟨hne, hzero⟩
  rw [numeral?]
  simp only [Numeral.unsignedChars, List.append_assoc, takeWhile_append_of_stops hwhole hstops,
    dropWhile_append_of_stops hwhole hstops, if_neg hguard,
    fraction?_fractionChars exponent hfraction hrest, bind, Option.bind_some,
    exponent?_exponentChars hexponent hrest]

/-! ## Tokens in front of a text -/

def Number.Spellable (n : Number) : Prop :=
  ∃ numeral : Numeral, numeral.WellFormed ∧ numeral.value? = some n

theorem token?_of_isDigit {c : Char} (hc : c.isDigit = true) (rest : List Char) :
    token? (c :: rest) =
      (numeral? false (c :: rest)).map fun found => (.number found.1.value?, found.2) := by
  unfold token?
  split
  case h_12 => rfl
  all_goals
    next heq =>
    cases heq
    exact absurd hc (by decide)

/-- A well-formed numeral is a token, whatever it is followed by that does not go on with it. -/
theorem token?_numeral (hnumeral : numeral.WellFormed) (hrest : Stops extendsNumeral rest) :
    token? (numeral.chars ++ rest) = some (.number numeral.value?, rest) := by
  have hread := numeral?_unsignedChars hnumeral hrest
  rw [Numeral.chars]
  cases hnegative : numeral.negative with
  | true =>
      rw [hnegative] at hread
      simp [token?, hread]
  | false =>
      rw [hnegative] at hread
      obtain ⟨c, whole, hwhole⟩ := List.exists_cons_of_ne_nil hnumeral.whole_ne_nil
      have hc : c.isDigit = true := hnumeral.whole_digits c (by simp [hwhole])
      have hhead : numeral.unsignedChars ++ rest = c :: (whole ++
          (Numeral.fractionChars numeral.fraction ++ Numeral.exponentChars numeral.exponent) ++
            rest) := by
        rw [Numeral.unsignedChars, hwhole]
        rfl
      rw [if_neg Bool.false_ne_true]
      rw [hhead] at hread ⊢
      rw [token?_of_isDigit hc, hread]
      rfl

theorem token?_stringText (s : String) (rest : List Char) :
    token? (stringText s ++ rest) = some (.string (some s), rest) := by
  obtain ⟨units, hread, hchars⟩ := stringUnits?_flatMap s.toList rest
  simp [stringText, token?, hread, hchars]

/-- A number is read for a numeral only. -/
theorem spellable_of_token? {text : List Char} {n : Number}
    (h : token? text = some (.number (some n), rest)) : n.Spellable := by
  have hnumeral : ∃ negative text, (numeral? negative text).map
      (fun found => (Token.number found.1.value?, found.2)) = some (.number (some n), rest) := by
    unfold token? at h
    split at h
    case h_10 => simp at h
    case h_11 => exact ⟨_, _, h⟩
    case h_12 => exact ⟨_, _, h⟩
    all_goals cases h
  obtain ⟨negative, text, hnumeral⟩ := hnumeral
  obtain ⟨⟨numeral, after⟩, hread, heq⟩ := Option.map_eq_some_iff.mp hnumeral
  obtain ⟨hvalue, -⟩ : numeral.value? = some n ∧ after = rest := by simpa using heq
  exact ⟨numeral, (wellFormed_of_numeral? hread).1, hvalue⟩

/-! ## Texts of integers -/

theorem digitsValue_eq_ofDigitChars (digits : List Char) :
    digitsValue digits = Nat.ofDigitChars 10 digits 0 := by
  rw [digitsValue, Nat.ofDigitChars]
  congr 1
  funext n c
  rw [digitValue, Nat.mul_comm]
  rfl

/-- Digits of a number do not start with a zero, unless they are the zero. -/
theorem toDigits_eq_zero_of_head {n : Nat} (h : (Nat.toDigits 10 n).head? = some '0') :
    Nat.toDigits 10 n = ['0'] := by
  induction n using Nat.strong_induction_on with
  | _ n ih =>
      by_cases hlt : n < 10
      · rw [Nat.toDigits_of_lt_base hlt] at h ⊢
        rw [List.head?_cons, Option.some.injEq] at h
        rw [h]
      · have hle : 10 ≤ n := Nat.le_of_not_lt hlt
        rw [Nat.toDigits_of_base_le (by decide) hle,
          List.head?_append_of_ne_nil _ Nat.toDigits_ne_nil] at h
        have hquotient := ih (n / 10) (by omega) h
        have hzero : n / 10 = 0 := by
          rw [← @Nat.ofDigitChars_ten_toDigits (n / 10), hquotient]
          rfl
        omega

/-- The numeral of an integer's text. -/
def Integer.decimal (x : Integer) : Numeral :=
  ⟨decide (x.value < 0), Nat.toDigits 10 x.value.natAbs, none, none⟩

@[simp] theorem Integer.chars_decimal (x : Integer) : x.decimal.chars = x.text := by
  simp [decimal, text, Numeral.chars, Numeral.unsignedChars, Numeral.fractionChars,
    Numeral.exponentChars]

theorem Integer.wellFormed_decimal (x : Integer) : x.decimal.WellFormed where
  whole_ne_nil := Nat.toDigits_ne_nil
  whole_digits _ := Text.isDigit_of_mem_toDigits
  no_leading_zero := toDigits_eq_zero_of_head
  fraction_digits := nofun
  exponent_digits := nofun

@[simp] theorem Integer.value?_decimal (x : Integer) : x.decimal.value? = some (.integer x) := by
  obtain ⟨value, low, high⟩ := x
  have hdigits : digitsValue (Nat.toDigits 10 value.natAbs) = value.natAbs := by
    rw [digitsValue_eq_ofDigitChars, Nat.ofDigitChars_ten_toDigits]
  have hinteger : (Integer.decimal ⟨value, low, high⟩).integer? = ofInt? value := by
    rw [Numeral.integer?]
    by_cases hnegative : value < 0
    · have hvalue : -(value.natAbs : Int) = value := by omega
      have hne : value.natAbs ≠ 0 := by omega
      simp only [decimal, hdigits, hnegative, hne, hvalue, Option.isSome_none, Bool.false_eq_true,
        or_self, decide_true, if_true, if_false]
    · have hvalue : (value.natAbs : Int) = value := by omega
      simp only [decimal, hdigits, hnegative, hvalue, Option.isSome_none, Bool.false_eq_true,
        or_self, decide_false, if_false]
  rw [Numeral.value?, hinteger, ofInt?, dif_pos low, dif_pos high]

/-! ## Texts as lists of tokens -/

/-- A text is made of these tokens. -/
inductive Tokenized : List Char → List Token → Prop
  | done : Tokenized [] []
  | space {c : Char} {text : List Char} {tokens : List Token} :
      isSpace c = true → Tokenized text tokens → Tokenized (c :: text) tokens
  | token {c : Char} {text rest : List Char} {token : Token} {tokens : List Token} :
      isSpace c = false → token? (c :: text) = some (token, rest) → rest.length ≤ text.length →
      Tokenized rest tokens → Tokenized (c :: text) (token :: tokens)

theorem tokensWith?_of_tokenized {text : List Char} {tokens : List Token}
    (h : Tokenized text tokens) {fuel : Nat} (hfuel : text.length < fuel) :
    tokensWith? fuel text = some tokens := by
  induction h generalizing fuel with
  | done =>
      obtain ⟨fuel, rfl⟩ := Nat.exists_eq_succ_of_ne_zero (Nat.ne_of_gt hfuel)
      rfl
  | @space c text tokens hspace _ ih =>
      obtain ⟨fuel, rfl⟩ := Nat.exists_eq_succ_of_ne_zero (Nat.ne_of_gt (Nat.zero_lt_of_lt hfuel))
      -- A space costs no fuel.
      have hskip : tokensWith? (fuel + 1) (c :: text) = tokensWith? (fuel + 1) text := by
        rw [tokensWith?, tokensWith?, List.dropWhile_cons_of_pos hspace]
      rw [hskip]
      exact ih (by simp only [List.length_cons] at hfuel; omega)
  | @token c text rest token tokens hspace htoken hlength _ ih =>
      obtain ⟨fuel, rfl⟩ := Nat.exists_eq_succ_of_ne_zero (Nat.ne_of_gt (Nat.zero_lt_of_lt hfuel))
      have hrest : rest.length < fuel := by
        simp only [List.length_cons] at hfuel
        omega
      have hkeep : (c :: text).dropWhile isSpace = c :: text :=
        List.dropWhile_cons_of_neg (by simp [hspace])
      simp only [tokensWith?, hkeep, htoken, ih hrest, Option.map_some]

theorem tokens?_of_tokenized {text : List Char} {tokens : List Token} (h : Tokenized text tokens) :
    tokens? text = some tokens :=
  tokensWith?_of_tokenized h (Nat.lt_succ_self _)

/-! ## Writing tokens -/

/-- A written form of a token: it is read back from in front of any text that does not go on with a
numeral. -/
structure Token.WrittenAs (token : Token) (text : List Char) : Prop where
  ne_nil : text ≠ []
  no_space : Stops isSpace text
  read : ∀ rest, Stops extendsNumeral rest → token? (text ++ rest) = some (token, rest)

variable {token : Token} {tokens : List Token}

theorem Token.WrittenAs.append {text : List Char} (htext : token.WrittenAs text)
    (hrest : Stops extendsNumeral rest) (h : Tokenized rest tokens) :
    Tokenized (text ++ rest) (token :: tokens) := by
  obtain ⟨hne, hspace, hread⟩ := htext
  obtain ⟨c, tail, rfl⟩ := List.exists_cons_of_ne_nil hne
  exact .token (stops_cons.mp hspace) (hread rest hrest) (by simp) h

theorem writtenAs_string (s : String) : (Token.string (some s)).WrittenAs (stringText s) where
  ne_nil := List.cons_ne_nil _ _
  no_space := stops_cons.mpr (by decide)
  read rest _ := token?_stringText s rest

theorem writtenAs_mark {c : Char} (hspace : isSpace c = false)
    (hread : ∀ rest, token? (c :: rest) = some (token, rest)) : token.WrittenAs [c] where
  ne_nil := List.cons_ne_nil _ _
  no_space := stops_cons.mpr hspace
  read rest _ := hread rest

theorem writtenAs_null : Token.null.WrittenAs ['n', 'u', 'l', 'l'] where
  ne_nil := List.cons_ne_nil _ _
  no_space := stops_cons.mpr (by decide)
  read _ _ := rfl

theorem writtenAs_bool (value : Bool) : (Token.bool value).WrittenAs (boolText value) := by
  cases value <;> exact ⟨List.cons_ne_nil _ _, stops_cons.mpr (by decide), fun _ _ => rfl⟩

theorem isSpace_of_isDigit {c : Char} (h : c.isDigit = true) : isSpace c = false := by
  rw [Bool.eq_false_iff]
  intro hspace
  simp only [isSpace, Bool.or_eq_true, beq_iff_eq] at hspace
  rcases hspace with ((rfl | rfl) | rfl) | rfl <;> exact absurd h (by decide)

theorem writtenAs_numeral (hnumeral : numeral.WellFormed) :
    (Token.number numeral.value?).WrittenAs numeral.chars := by
  obtain ⟨c, whole, hwhole⟩ := List.exists_cons_of_ne_nil hnumeral.whole_ne_nil
  have hc : c.isDigit = true := hnumeral.whole_digits c (by simp [hwhole])
  have hchars : ∃ d tail, numeral.chars = d :: tail ∧ isSpace d = false := by
    rw [Numeral.chars, Numeral.unsignedChars, hwhole]
    split
    · exact ⟨'-', _, rfl, by decide⟩
    · exact ⟨c, _, rfl, isSpace_of_isDigit hc⟩
  obtain ⟨d, tail, hchars, hd⟩ := hchars
  refine ⟨?_, ?_, fun rest hrest => token?_numeral hnumeral hrest⟩
  · rw [hchars]
    exact List.cons_ne_nil _ _
  · rw [hchars]
    exact stops_cons.mpr hd

/-- A token that some text can be read as: its number is spelled by a numeral, and its escapes name
characters. -/
def Token.Writable : Token → Prop
  | .number value => ∃ n, value = some n ∧ n.Spellable
  | .string text => text.isSome
  | _ => True

theorem Token.Writable.exists_writtenAs (h : token.Writable) : ∃ text, token.WrittenAs text := by
  cases token with
  | number value =>
      obtain ⟨n, rfl, numeral, hnumeral, hvalue⟩ := h
      exact ⟨_, hvalue ▸ writtenAs_numeral hnumeral⟩
  | string text =>
      obtain ⟨s, rfl⟩ := Option.isSome_iff_exists.mp h
      exact ⟨_, writtenAs_string s⟩
  | bool value => exact ⟨_, writtenAs_bool value⟩
  | null => exact ⟨_, writtenAs_null⟩
  | openBrace => exact ⟨['{'], writtenAs_mark (by decide) fun _ => rfl⟩
  | closeBrace => exact ⟨['}'], writtenAs_mark (by decide) fun _ => rfl⟩
  | openBracket => exact ⟨['['], writtenAs_mark (by decide) fun _ => rfl⟩
  | closeBracket => exact ⟨[']'], writtenAs_mark (by decide) fun _ => rfl⟩
  | comma => exact ⟨[','], writtenAs_mark (by decide) fun _ => rfl⟩
  | colon => exact ⟨[':'], writtenAs_mark (by decide) fun _ => rfl⟩

/-- Tokens are written with a space after each of them. -/
theorem exists_tokenized (h : ∀ token ∈ tokens, token.Writable) :
    ∃ text, Tokenized text tokens := by
  induction tokens with
  | nil => exact ⟨[], .done⟩
  | cons token tokens ih =>
      obtain ⟨hfirst, hrest⟩ := List.forall_mem_cons.mp h
      obtain ⟨text, htext⟩ := hfirst.exists_writtenAs
      obtain ⟨rest, htokens⟩ := ih hrest
      have hspace : Stops extendsNumeral (' ' :: rest) := stops_cons.mpr (by decide)
      exact ⟨_, htext.append hspace (.space (by decide) htokens)⟩

/-- The tokens that are read from a text have numbers that are spelled in it. -/
theorem spellable_of_mem_tokensWith? {fuel : Nat} {text : List Char} {n : Number}
    (h : tokensWith? fuel text = some tokens) (hmem : .number (some n) ∈ tokens) : n.Spellable := by
  induction fuel generalizing text tokens with
  | zero => cases h
  | succ fuel ih =>
      rw [tokensWith?] at h
      split at h
      · cases h
        cases hmem
      · split at h
        · next token after htoken =>
          obtain ⟨rest, hrest, rfl⟩ := Option.map_eq_some_iff.mp h
          rcases List.mem_cons.mp hmem with rfl | hmem
          · exact spellable_of_token? htoken
          · exact ih hrest hmem
        · cases h

/-- No text that starts with this mark is made of tokens. -/
theorem not_tokenized_at (text : List Char) : ¬ Tokenized ('@' :: text) tokens := by
  intro h
  cases h with
  | space hspace _ => exact absurd hspace (by decide)
  | token _ htoken _ _ =>
      have hnone : token? ('@' :: text) = none := rfl
      rw [hnone] at htoken
      cases htoken

end Json

end RowPolicy
