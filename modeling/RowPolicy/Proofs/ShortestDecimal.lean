import RowPolicy.Number.Shortest
import Mathlib

/-!
# Decimals that read back

The decimals that read back as a finite double lie between two ends, which it shares with its
neighbours in the order of magnitude words: the upper end of a word is the lower end of the next.
An end counts for the word with the even significand only, so that a decimal reads back as one
magnitude at most. The search for a shortest decimal always finds one that reads back.
-/

namespace RowPolicy

def Decimal.value (d : Decimal) : ℚ := d.digits * (10 : ℚ) ^ d.power

/-- The quantity of a decimal in units of `2 ^ -1076`, a quarter of the smallest double. -/
def Decimal.quarters (d : Decimal) : ℚ := d.value * 2 ^ 1076

namespace Binary64

/-! ## Comparing a decimal with a binary quantity -/

theorem zpow_mul_pow_neg {a : ℚ} (ha : a ≠ 0) (z : ℤ) : a ^ z * a ^ (-z).toNat = a ^ z.toNat := by
  rcases le_total 0 z with hz | hz
  · obtain ⟨n, rfl⟩ := Int.eq_ofNat_of_zero_le hz
    simp
  · obtain ⟨n, hn⟩ := Int.eq_ofNat_of_zero_le (neg_nonneg.mpr hz)
    obtain rfl : z = -(n : ℤ) := by omega
    simp [ha]

/-- The common denominator of a decimal and a binary quantity. -/
def commonScale (power q : ℤ) : ℚ := 10 ^ (-power).toNat * 2 ^ (-q).toNat

theorem commonScale_pos (power q : ℤ) : 0 < commonScale power q := by
  unfold commonScale
  positivity

theorem value_mul_commonScale (d : Decimal) (q : ℤ) :
    d.value * commonScale d.power q =
      ((d.digits * powerOfTen d.power.toNat * powerOfTwo (-q).toNat : ℕ) : ℚ) := by
  have hten := zpow_mul_pow_neg (show (10 : ℚ) ≠ 0 by norm_num) d.power
  simp only [Decimal.value, commonScale, powerOfTen, powerOfTwo, Nat.pow_eq, Nat.cast_mul,
    Nat.cast_pow, Nat.cast_ofNat]
  rw [← hten]
  ring

theorem binary_mul_commonScale (power : ℤ) (m : ℕ) (q : ℤ) :
    (m : ℚ) * 2 ^ q * commonScale power q =
      ((m * powerOfTwo q.toNat * powerOfTen (-power).toNat : ℕ) : ℚ) := by
  have htwo := zpow_mul_pow_neg (show (2 : ℚ) ≠ 0 by norm_num) q
  simp only [commonScale, powerOfTen, powerOfTwo, Nat.pow_eq, Nat.cast_mul, Nat.cast_pow,
    Nat.cast_ofNat]
  rw [← htwo]
  ring

theorem compareBinary_eq_gt_iff {d : Decimal} {m : ℕ} {q : ℤ} :
    d.compareBinary m q = .gt ↔ (m : ℚ) * 2 ^ q < d.value := by
  rw [Decimal.compareBinary, Nat.compare_eq_gt, ← @Nat.cast_lt ℚ, ← value_mul_commonScale,
    ← binary_mul_commonScale, mul_lt_mul_iff_left₀ (commonScale_pos d.power q)]

theorem compareBinary_eq_lt_iff {d : Decimal} {m : ℕ} {q : ℤ} :
    d.compareBinary m q = .lt ↔ d.value < (m : ℚ) * 2 ^ q := by
  rw [Decimal.compareBinary, Nat.compare_eq_lt, ← @Nat.cast_lt ℚ, ← value_mul_commonScale,
    ← binary_mul_commonScale, mul_lt_mul_iff_left₀ (commonScale_pos d.power q)]

theorem compareBinary_eq_eq_iff {d : Decimal} {m : ℕ} {q : ℤ} :
    d.compareBinary m q = .eq ↔ d.value = (m : ℚ) * 2 ^ q := by
  rw [Decimal.compareBinary, Nat.compare_eq_eq, ← @Nat.cast_inj ℚ, ← value_mul_commonScale,
    ← binary_mul_commonScale, mul_left_inj' (commonScale_pos d.power q).ne']

/-! ## The ends of a word's range -/

def wordSignificand (w : ℕ) : ℕ := if w < firstNormal then w else firstNormal + w % firstNormal

/-- The exponent of a magnitude word, counted from the smallest one. -/
def wordShift (w : ℕ) : ℕ := if w < firstNormal then 0 else w / firstNormal - 1

/-- The distance from a word down to its lower end, in quarters of its last place. -/
def wordBelow (w : ℕ) : ℕ :=
  if wordSignificand w = firstNormal ∧ 2 * firstNormal ≤ w then 1 else 2

/-- The lower end of a word's range, in units of `2 ^ -1076`. -/
def lowEnd (w : ℕ) : ℕ := (4 * wordSignificand w - wordBelow w) * 2 ^ wordShift w

def highEnd (w : ℕ) : ℕ := (4 * wordSignificand w + 2) * 2 ^ wordShift w

theorem exponent_eq (x : Binary64) : x.exponent = (wordShift x.magnitude : ℤ) - 1074 := by
  unfold exponent wordShift firstNormal
  split <;> omega

theorem end_eq (x : Binary64) (m : ℕ) :
    (m : ℚ) * 2 ^ (x.exponent - 2) * 2 ^ 1076 = ((m * 2 ^ wordShift x.magnitude : ℕ) : ℚ) := by
  have hexponent : x.exponent - 2 = (wordShift x.magnitude : ℤ) - (1076 : ℕ) := by
    rw [exponent_eq]
    push_cast
    ring
  have htwo : (2 : ℚ) ≠ 0 := two_ne_zero
  rw [hexponent, zpow_sub₀ htwo, zpow_natCast, zpow_natCast, mul_assoc,
    div_mul_cancel₀ _ (pow_ne_zero _ htwo)]
  push_cast
  rfl

/-- A decimal reads back when it lies between the ends, which count for an even significand. -/
theorem readsBack_iff {x : Binary64} {d : Decimal} :
    x.readsBack d = true ↔
      ((lowEnd x.magnitude : ℚ) < d.quarters ∨
        (x.significand % 2 = 0 ∧ d.quarters = lowEnd x.magnitude)) ∧
      (d.quarters < highEnd x.magnitude ∨
        (x.significand % 2 = 0 ∧ d.quarters = highEnd x.magnitude)) := by
  have hpos : (0 : ℚ) < 2 ^ 1076 := by positivity
  have hlow : ((x.readBackRange.1 : ℕ) : ℚ) * 2 ^ (x.exponent - 2) * 2 ^ 1076 =
      lowEnd x.magnitude := end_eq x _
  have hhigh : ((x.readBackRange.2 : ℕ) : ℚ) * 2 ^ (x.exponent - 2) * 2 ^ 1076 =
      highEnd x.magnitude := end_eq x _
  rw [Decimal.quarters, ← hlow, ← hhigh, mul_lt_mul_iff_left₀ hpos, mul_lt_mul_iff_left₀ hpos,
    mul_left_inj' hpos.ne', mul_left_inj' hpos.ne']
  simp only [readsBack, Bool.and_eq_true, Bool.or_eq_true, beq_iff_eq, compareBinary_eq_gt_iff,
    compareBinary_eq_lt_iff, compareBinary_eq_eq_iff]

theorem wordSignificand_mod_two (w : ℕ) : wordSignificand w % 2 = w % 2 := by
  unfold wordSignificand firstNormal
  split <;> omega

theorem lowEnd_lt_highEnd (w : ℕ) : lowEnd w < highEnd w := by
  apply Nat.mul_lt_mul_of_pos_right _ (Nat.two_pow_pos _)
  omega

/-- The upper end of a word is the lower end of the next one. The two have the same last place,
unless the next one starts a new power of two. -/
theorem highEnd_eq_lowEnd_succ (w : ℕ) : highEnd w = lowEnd (w + 1) := by
  by_cases hpower : firstNormal < w + 1 ∧ (w + 1) % firstNormal = 0
  · obtain ⟨hlarge, hmod⟩ := hpower
    have hsignificand : wordSignificand w = 2 * firstNormal - 1 := by
      unfold wordSignificand firstNormal at *
      rw [if_neg (by omega)]
      omega
    have hnext : wordSignificand (w + 1) = firstNormal := by
      unfold wordSignificand firstNormal at *
      rw [if_neg (by omega)]
      omega
    have hshift : wordShift (w + 1) = wordShift w + 1 := by
      unfold wordShift firstNormal at *
      rw [if_neg (by omega), if_neg (by omega)]
      omega
    have hbelow : wordBelow (w + 1) = 1 := by
      unfold wordBelow
      rw [hnext, if_pos ⟨rfl, by unfold firstNormal at *; omega⟩]
    rw [highEnd, lowEnd, hsignificand, hnext, hshift, hbelow, pow_succ', ← mul_assoc]
    rfl
  · have hsignificand : wordSignificand (w + 1) = wordSignificand w + 1 := by
      unfold wordSignificand firstNormal at *
      split <;> split <;> omega
    have hshift : wordShift (w + 1) = wordShift w := by
      unfold wordShift firstNormal at *
      split <;> split <;> omega
    have hbelow : wordBelow (w + 1) = 2 := by
      unfold wordBelow
      rw [if_neg]
      rintro ⟨hfirst, hlarge⟩
      unfold wordSignificand firstNormal at *
      split at hfirst <;> omega
    rw [highEnd, lowEnd, hsignificand, hshift, hbelow]
    congr 1

theorem lowEnd_strictMono : StrictMono lowEnd := by
  apply strictMono_nat_of_lt_succ
  intro w
  rw [← highEnd_eq_lowEnd_succ]
  exact lowEnd_lt_highEnd w

/-- No decimal reads back as two magnitudes. Only the end between neighbours is in two ranges, and
of two neighbours one has an odd significand. -/
theorem not_readsBack_of_lt {x y : Binary64} {d d' : Decimal} (hvalue : d.value = d'.value)
    (hx : x.readsBack d = true) (hy : y.readsBack d' = true) : ¬ x.magnitude < y.magnitude := by
  intro hlt
  obtain ⟨-, hhigh⟩ := readsBack_iff.mp hx
  obtain ⟨hlow, -⟩ := readsBack_iff.mp hy
  have hquarters : d'.quarters = d.quarters := by rw [Decimal.quarters, Decimal.quarters, hvalue]
  rw [hquarters] at hlow
  have hends : (highEnd x.magnitude : ℚ) ≤ lowEnd y.magnitude := by
    rw [highEnd_eq_lowEnd_succ, Nat.cast_le]
    exact lowEnd_strictMono.monotone hlt
  rcases hhigh with hhigh | ⟨hevenx, hhigh⟩
  · rcases hlow with hlow | ⟨-, hlow⟩ <;> linarith
  · rcases hlow with hlow | ⟨heveny, hlow⟩
    · linarith
    · have hsame : highEnd x.magnitude = lowEnd y.magnitude := by
        rw [← @Nat.cast_inj ℚ, ← hhigh, ← hlow]
      rw [highEnd_eq_lowEnd_succ] at hsame
      have hnext := lowEnd_strictMono.injective hsame
      have hparityx : x.significand % 2 = x.magnitude % 2 := wordSignificand_mod_two x.magnitude
      have hparityy : y.significand % 2 = y.magnitude % 2 := wordSignificand_mod_two y.magnitude
      omega

theorem magnitude_eq_of_readsBack {x y : Binary64} {d d' : Decimal} (hvalue : d.value = d'.value)
    (hx : x.readsBack d = true) (hy : y.readsBack d' = true) : x.magnitude = y.magnitude :=
  Nat.le_antisymm (Nat.le_of_not_lt (not_readsBack_of_lt hvalue.symm hy hx))
    (Nat.le_of_not_lt (not_readsBack_of_lt hvalue hx hy))

theorem lowEnd_pos {w : ℕ} (h : 0 < w) : 0 < lowEnd w := by
  have hzero : lowEnd 0 = 0 := by decide
  rw [← hzero]
  exact lowEnd_strictMono h

theorem value_pos_of_readsBack {x : Binary64} {d : Decimal} (hx : x.isZero = false)
    (h : x.readsBack d = true) : 0 < d.value := by
  obtain ⟨hlow, -⟩ := readsBack_iff.mp h
  have hword : 0 < x.magnitude := Nat.pos_of_ne_zero (by simpa [isZero] using hx)
  have hpos : (0 : ℚ) < lowEnd x.magnitude := Nat.cast_pos.mpr (lowEnd_pos hword)
  have hquarters : 0 < d.quarters := by
    rcases hlow with hlow | ⟨-, hlow⟩ <;> linarith
  exact pos_of_mul_pos_left hquarters (by positivity)

/-! ## The search for a shortest decimal -/

theorem nearest_cases (n d : ℕ) : nearest n d = n / d ∨ nearest n d = n / d + 1 := by
  simp only [nearest]
  split
  · exact Or.inl rfl
  · split
    · exact Or.inr rfl
    · omega

theorem readsBack_of_onGrid? {x : Binary64} {power : ℤ} {d : Decimal}
    (h : x.onGrid? power = some d) : x.readsBack d = true := by
  simp only [onGrid?] at h
  split at h
  · next hdown hup =>
    cases h
    rcases nearest_cases (x.overPower power).1 (x.overPower power).2 with hnearest | hnearest
    · rw [hnearest]
      exact hdown
    · rw [hnearest]
      exact hup
  · next hdown _ =>
    cases h
    exact hdown
  · next _ hup =>
    cases h
    exact hup
  · cases h

theorem onGrid?_isSome {x : Binary64} {power : ℤ}
    (h : x.readsBack ⟨(x.overPower power).1 / (x.overPower power).2, power⟩ = true) :
    (x.onGrid? power).isSome = true := by
  simp only [onGrid?]
  split
  · rfl
  · rfl
  · rfl
  · next hdown _ =>
    rw [h] at hdown
    cases hdown

def size (x : Binary64) : ℚ := x.significand * 2 ^ x.exponent

theorem floor_overPower (x : Binary64) (power : ℤ) :
    (x.overPower power).1 / (x.overPower power).2 = ⌊x.size / (10 : ℚ) ^ power⌋₊ := by
  have hten := zpow_mul_pow_neg (show (10 : ℚ) ≠ 0 by norm_num) power
  have htwo := zpow_mul_pow_neg (show (2 : ℚ) ≠ 0 by norm_num) x.exponent
  rw [← @Nat.floor_div_eq_div ℚ]
  congr 1
  simp only [overPower, scale, powerOfTen, powerOfTwo, Nat.pow_eq, size]
  push_cast
  rw [← hten, ← htwo]
  field_simp

theorem size_eq (x : Binary64) : x.size = 4 * x.significand * 2 ^ (x.exponent - 2) := by
  rw [size, zpow_sub₀ two_ne_zero]
  norm_num
  ring

theorem significand_pos {x : Binary64} (hx : x.isZero = false) : 0 < x.significand := by
  have hword : x.magnitude ≠ 0 := by simpa [isZero] using hx
  unfold significand firstNormal
  split <;> omega

theorem significand_lt (x : Binary64) : x.significand < 2 ^ 53 := by
  unfold significand firstNormal
  split <;> omega

/-- On a grid no coarser than a quarter of the last place, the point below a double reads back. -/
theorem readsBack_floor {x : Binary64} {power : ℤ} (hx : x.isZero = false)
    (hgrid : (10 : ℚ) ^ power ≤ 2 ^ (x.exponent - 2)) :
    x.readsBack ⟨⌊x.size / (10 : ℚ) ^ power⌋₊, power⟩ = true := by
  have hten : (0 : ℚ) < 10 ^ power := by positivity
  have hquarter : (0 : ℚ) < 2 ^ (x.exponent - 2) := by positivity
  have hsize : 0 ≤ x.size / (10 : ℚ) ^ power := by
    unfold size
    positivity
  have hbelow : (⌊x.size / (10 : ℚ) ^ power⌋₊ : ℚ) * 10 ^ power ≤ x.size := by
    rw [← le_div_iff₀ hten]
    exact Nat.floor_le hsize
  have habove : x.size < ((⌊x.size / (10 : ℚ) ^ power⌋₊ : ℚ) + 1) * 10 ^ power := by
    rw [← div_lt_iff₀ hten]
    exact Nat.lt_floor_add_one _
  have hpos := significand_pos hx
  have hrange : x.readBackRange.1 + 1 ≤ 4 * x.significand ∧
      x.readBackRange.2 = 4 * x.significand + 2 := by
    refine ⟨?_, rfl⟩
    simp only [readBackRange]
    split <;> omega
  have hlow : (x.readBackRange.1 : ℚ) * 2 ^ (x.exponent - 2) ≤
      x.size - 2 ^ (x.exponent - 2) := by
    have hcast : (x.readBackRange.1 : ℚ) + 1 ≤ 4 * x.significand := by exact_mod_cast hrange.1
    rw [size_eq]
    nlinarith
  have hhigh : x.size < (x.readBackRange.2 : ℚ) * 2 ^ (x.exponent - 2) := by
    rw [hrange.2, size_eq]
    push_cast
    nlinarith
  have hgt := @compareBinary_eq_gt_iff ⟨⌊x.size / (10 : ℚ) ^ power⌋₊, power⟩ x.readBackRange.1
    (x.exponent - 2)
  have hlt := @compareBinary_eq_lt_iff ⟨⌊x.size / (10 : ℚ) ^ power⌋₊, power⟩ x.readBackRange.2
    (x.exponent - 2)
  simp only [Decimal.value] at hgt hlt
  have hlow' := hgt.mpr (by linarith)
  have hhigh' := hlt.mpr (by linarith)
  simp [readsBack, hlow', hhigh']

theorem pow_countDigits_le {n : ℕ} (h : 0 < n) : 10 ^ (Decimal.countDigits n - 1) ≤ n := by
  unfold Decimal.countDigits
  by_cases hone : (Nat.toDigits 10 n).length ≤ 1
  · have hlength : (Nat.toDigits 10 n).length - 1 = 0 := by omega
    rw [hlength]
    exact h
  · apply Nat.le_of_not_lt
    rw [← Nat.length_toDigits_le_iff (by decide) (by omega)]
    omega

theorem tenth_le_smallest : (10 : ℚ) ^ (-400 : ℤ) ≤ 2 ^ (-1074 : ℤ) := by
  have hnat : (2 : ℚ) ^ 1074 ≤ 10 ^ 400 := by
    calc
      (2 : ℚ) ^ 1074 ≤ 2 ^ (3 * 400) := pow_le_pow_right₀ one_le_two (by decide)
      _ = 8 ^ 400 := by rw [pow_mul, show (2 : ℚ) ^ 3 = 8 by norm_num1]
      _ ≤ 10 ^ 400 := pow_le_pow_left₀ (by norm_num1) (by norm_num1) 400
  rw [zpow_neg, zpow_neg]
  exact inv_anti₀ (by positivity) (by exact_mod_cast hnat)

theorem smallest_le_size {x : Binary64} (hx : x.isZero = false) :
    (2 : ℚ) ^ (-1074 : ℤ) ≤ x.size := by
  have hpos : (1 : ℚ) ≤ x.significand := by exact_mod_cast significand_pos hx
  have hexponent : -1074 ≤ x.exponent := by
    rw [exponent_eq]
    omega
  calc
    (2 : ℚ) ^ (-1074 : ℤ) ≤ 2 ^ x.exponent := zpow_le_zpow_right₀ one_le_two hexponent
    _ ≤ x.significand * 2 ^ x.exponent := le_mul_of_one_le_left (by positivity) hpos

/-- The leading power of ten is at most the quantity itself. -/
theorem pow_leadingPower_le {x : Binary64} (hx : x.isZero = false) :
    (10 : ℚ) ^ x.leadingPower ≤ x.size := by
  have hten : (0 : ℚ) < 10 ^ (-400 : ℤ) := by positivity
  have hone : 1 ≤ x.size / (10 : ℚ) ^ (-400 : ℤ) := by
    rw [one_le_div hten]
    exact tenth_le_smallest.trans (smallest_le_size hx)
  have hfloor : 0 < ⌊x.size / (10 : ℚ) ^ (-400 : ℤ)⌋₊ := Nat.floor_pos.mpr hone
  have hleading : x.leadingPower =
      ((Decimal.countDigits ⌊x.size / (10 : ℚ) ^ (-400 : ℤ)⌋₊ - 1 : ℕ) : ℤ) + -400 := by
    have hcount : 0 < Decimal.countDigits ⌊x.size / (10 : ℚ) ^ (-400 : ℤ)⌋₊ :=
      Nat.length_toDigits_pos
    simp only [leadingPower, floor_overPower]
    omega
  have hcount : ((10 ^ (Decimal.countDigits ⌊x.size / (10 : ℚ) ^ (-400 : ℤ)⌋₊ - 1) : ℕ) : ℚ) ≤
      x.size / (10 : ℚ) ^ (-400 : ℤ) :=
    (Nat.cast_le.mpr (pow_countDigits_le hfloor)).trans (Nat.floor_le (by linarith))
  rw [hleading, zpow_add₀ (by norm_num1), zpow_natCast, ← le_div_iff₀ hten]
  exact_mod_cast hcount

/-- Seventeen places below the leading one the grid is fine enough. -/
theorem grid_fine_enough {x : Binary64} (hx : x.isZero = false) :
    (10 : ℚ) ^ (x.leadingPower - 17) ≤ 2 ^ (x.exponent - 2) := by
  have hleading := pow_leadingPower_le hx
  have hsignificand : (x.significand : ℚ) < 2 ^ 53 := by exact_mod_cast significand_lt x
  have hpower : (0 : ℚ) < 2 ^ x.exponent := by positivity
  have hsize : x.size < 2 ^ 53 * 2 ^ x.exponent := mul_lt_mul_of_pos_right hsignificand hpower
  rw [zpow_sub₀ (by norm_num1), zpow_sub₀ two_ne_zero, div_le_div_iff₀ (by positivity)
    (by positivity)]
  norm_num1
  norm_num1 at hsize
  linarith

@[simp] theorem dropZeros_value (fuel : ℕ) (d : Decimal) : (d.dropZeros fuel).value = d.value := by
  induction fuel generalizing d with
  | zero => rfl
  | succ fuel ih =>
      rw [Decimal.dropZeros]
      split
      · next hzero =>
        have hdigits : d.digits = d.digits / 10 * 10 := by omega
        rw [ih]
        simp only [Decimal.value]
        rw [zpow_add₀ (by norm_num1), zpow_one]
        conv_rhs => rw [hdigits]
        push_cast
        ring
      · rfl

/-- The shortest decimal has the quantity of one that reads back. -/
theorem shortest_readsBack {x : Binary64} (hx : x.isZero = false) :
    ∃ d, x.readsBack d = true ∧ x.shortest.value = d.value := by
  have hlast : (x.onGrid? (x.leadingPower - 17)).isSome = true := by
    apply onGrid?_isSome
    rw [floor_overPower]
    exact readsBack_floor hx (grid_fine_enough hx)
  have hfound : ((List.range 18).findSome?
      fun (k : ℕ) => x.onGrid? (x.leadingPower - (k : ℤ))).isSome = true := by
    rw [List.findSome?_isSome_iff]
    exact ⟨17, by decide, hlast⟩
  obtain ⟨d, hd⟩ := Option.isSome_iff_exists.mp hfound
  obtain ⟨k, -, hk⟩ := List.exists_of_findSome?_eq_some hd
  refine ⟨d, readsBack_of_onGrid? hk, ?_⟩
  rw [shortest]
  simp only [hd, Option.getD_some, dropZeros_value]

theorem shortest_value_pos {x : Binary64} (hx : x.isZero = false) : 0 < x.shortest.value := by
  obtain ⟨d, hd, hvalue⟩ := shortest_readsBack hx
  rw [hvalue]
  exact value_pos_of_readsBack hx hd

/-- Doubles with shortest decimals of one quantity have one magnitude. -/
theorem magnitude_eq_of_shortest_value {x y : Binary64} (hx : x.isZero = false)
    (hy : y.isZero = false) (h : x.shortest.value = y.shortest.value) :
    x.magnitude = y.magnitude := by
  obtain ⟨d, hd, hvalue⟩ := shortest_readsBack hx
  obtain ⟨d', hd', hvalue'⟩ := shortest_readsBack hy
  exact magnitude_eq_of_readsBack (hvalue.symm.trans (h.trans hvalue')) hd hd'

end Binary64

end RowPolicy
