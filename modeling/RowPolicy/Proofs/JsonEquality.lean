import RowPolicy.Decision
import RowPolicy.Proofs.Pairing

/-!
# Equality of JSON values

Two values are equal when they are of one kind and equal part by part. A number is an integer or
a float, and the two kinds never mix; integers are equal by value, and floats are too, so that the
two zeros are equal. The comparison of values decides this relation, which is an equivalence.
-/

namespace RowPolicy

namespace Json

/-- Induction on values, in which a container has the hypothesis for each value in it. -/
@[elab_as_elim]
theorem induction {motive : Json → Prop} (null : motive .null) (bool : ∀ value, motive (.bool value))
    (number : ∀ value, motive (.number value)) (string : ∀ text, motive (.string text))
    (array : ∀ items, (∀ item ∈ items, motive item) → motive (.array items))
    (object : ∀ members, (∀ value ∈ members.map Prod.snd, motive value) → motive (.object members)) :
    ∀ json, motive json
  | .null => null
  | .bool value => bool value
  | .number value => number value
  | .string text => string text
  | .array items =>
    array items fun item _ => induction null bool number string array object item
  | .object members =>
    object members fun value hvalue => by
      obtain ⟨member, hmember, rfl⟩ := List.mem_map.mp hvalue
      have hsize := List.sizeOf_lt_of_mem hmember
      have hpart : sizeOf member.2 < sizeOf member := by
        cases member
        simp only [Prod.mk.sizeOf_spec]
        omega
      exact induction null bool number string array object member.2
termination_by json => sizeOf json
decreasing_by
  · have hsize := List.sizeOf_lt_of_mem ‹item ∈ items›
    simp only [Json.array.sizeOf_spec]
    omega
  · simp only [Json.object.sizeOf_spec]
    omega

inductive Equals : Json → Json → Prop
  | null : Equals .null .null
  | bool (value : Bool) : Equals (.bool value) (.bool value)
  | integer (value : Integer) : Equals (.number (.integer value)) (.number (.integer value))
  | real {x y : Binary64} :
      x = y ∨ (x.isZero = true ∧ y.isZero = true) → Equals (.number (.real x)) (.number (.real y))
  | string (value : String) : Equals (.string value) (.string value)
  | array {as bs : List Json} : List.Forall₂ Equals as bs → Equals (.array as) (.array bs)
  | object {as bs : List (String × Json)} :
      as.map Prod.fst = bs.map Prod.fst →
      List.Forall₂ Equals (as.map Prod.snd) (bs.map Prod.snd) →
      Equals (.object as) (.object bs)

theorem real_same_iff {x y : Binary64} :
    x.same y = true ↔ x = y ∨ (x.isZero = true ∧ y.isZero = true) := by
  obtain ⟨negative, magnitude, hx⟩ := x
  obtain ⟨negative', magnitude', hy⟩ := y
  simp only [Binary64.same, Binary64.isZero, Binary64.mk.injEq, Bool.and_eq_true, Bool.or_eq_true,
    beq_iff_eq]
  grind

theorem number_same_iff {a b : Number} :
    a.same b = true ↔ Equals (.number a) (.number b) := by
  cases a with
  | integer a =>
      cases b with
      | integer b =>
          rw [Number.same, beq_iff_eq]
          constructor
          · intro h
            obtain rfl : a = b := by
              cases a
              cases b
              cases h
              rfl
            exact .integer a
          · intro h
            cases h
            rfl
      | real b => exact iff_of_false (nomatch ·) (nomatch ·)
  | real a =>
      cases b with
      | integer b => exact iff_of_false (nomatch ·) (nomatch ·)
      | real b =>
          rw [Number.same, real_same_iff]
          constructor
          · exact .real
          · intro h
            cases h with
            | real h => exact h

theorem sameItems_iff {as bs : List Json}
    (h : ∀ a ∈ as, ∀ b, same a b = true ↔ Equals a b) :
    sameItems as bs = true ↔ List.Forall₂ Equals as bs := by
  induction as generalizing bs with
  | nil => cases bs <;> simp [sameItems]
  | cons a as ih =>
      obtain ⟨ha, has⟩ := List.forall_mem_cons.mp h
      cases bs with
      | nil => simp [sameItems]
      | cons b bs => rw [sameItems, Bool.and_eq_true, ha b, ih has, List.forall₂_cons]

theorem sameMembers_iff {as bs : List (String × Json)}
    (h : ∀ a ∈ as, ∀ b, same a.2 b = true ↔ Equals a.2 b) :
    sameMembers as bs = true ↔ as.map Prod.fst = bs.map Prod.fst ∧
      List.Forall₂ Equals (as.map Prod.snd) (bs.map Prod.snd) := by
  induction as generalizing bs with
  | nil => cases bs <;> simp [sameMembers]
  | cons a as ih =>
      obtain ⟨ha, has⟩ := List.forall_mem_cons.mp h
      cases bs with
      | nil => simp [sameMembers]
      | cons b bs =>
          simp only [sameMembers, Bool.and_eq_true, beq_iff_eq, ha b.2, ih has, List.map_cons,
            List.cons.injEq, List.forall₂_cons]
          tauto

/-- The comparison of values decides their equality. -/
theorem same_iff (a b : Json) : a.same b = true ↔ Equals a b := by
  induction a using Json.induction generalizing b with
  | null =>
      cases b with
      | null => exact ⟨fun _ => .null, fun _ => rfl⟩
      | _ => exact iff_of_false (nomatch ·) (nomatch ·)
  | bool value =>
      cases b with
      | bool value' =>
          rw [same, beq_iff_eq]
          constructor
          · rintro rfl
            exact .bool value
          · intro h
            cases h
            rfl
      | _ => exact iff_of_false (nomatch ·) (nomatch ·)
  | number value =>
      cases b with
      | number value' => rw [same, number_same_iff]
      | _ => exact iff_of_false (nomatch ·) (nomatch ·)
  | string value =>
      cases b with
      | string value' =>
          rw [same, beq_iff_eq]
          constructor
          · rintro rfl
            exact .string value
          · intro h
            cases h
            rfl
      | _ => exact iff_of_false (nomatch ·) (nomatch ·)
  | array items ih =>
      cases b with
      | array items' =>
          rw [same, sameItems_iff ih]
          constructor
          · exact .array
          · intro h
            cases h with
            | array h => exact h
      | _ => exact iff_of_false (nomatch ·) (nomatch ·)
  | object members ih =>
      cases b with
      | object members' =>
          rw [same, sameMembers_iff fun member hmember => ih _ (List.mem_map_of_mem hmember)]
          constructor
          · rintro ⟨hkeys, hvalues⟩
            exact .object hkeys hvalues
          · intro h
            cases h with
            | object hkeys hvalues => exact ⟨hkeys, hvalues⟩
      | _ => exact iff_of_false (nomatch ·) (nomatch ·)

namespace Equals

theorem refl (a : Json) : Equals a a := by
  induction a using Json.induction with
  | null => exact .null
  | bool value => exact .bool value
  | number value =>
      cases value with
      | integer value => exact .integer value
      | real value => exact .real (Or.inl rfl)
  | string text => exact .string text
  | array items ih => exact .array (List.forall₂_same.mpr ih)
  | object members ih => exact .object rfl (List.forall₂_same.mpr ih)

/-- Values that equal a common one are equal. -/
theorem of_common {a b c : Json} (h : Equals a b) (h' : Equals a c) : Equals b c := by
  induction a using Json.induction generalizing b c with
  | null =>
      cases h
      exact h'
  | bool value =>
      cases h
      exact h'
  | number value =>
      cases h with
      | integer value => exact h'
      | real h =>
          cases h' with
          | real h' =>
              apply real
              -- Only the zeros equal anything but themselves.
              rcases h with rfl | ⟨hzero, hb⟩
              · exact h'
              · rcases h' with rfl | ⟨-, hc⟩
                · exact Or.inr ⟨hb, hzero⟩
                · exact Or.inr ⟨hb, hc⟩
  | string text =>
      cases h
      exact h'
  | array items ih =>
      cases h with
      | array h =>
          cases h' with
          | array h' =>
              exact .array (forall₂_of_common h h' fun item hitem _ _ => ih item hitem)
  | object members ih =>
      cases h with
      | object hkeys hvalues =>
          cases h' with
          | object hkeys' hvalues' =>
              exact .object (hkeys.symm.trans hkeys')
                (forall₂_of_common hvalues hvalues' fun value hvalue _ _ => ih value hvalue)

theorem symm {a b : Json} (h : Equals a b) : Equals b a := h.of_common (refl a)

theorem trans {a b c : Json} (h : Equals a b) (h' : Equals b c) : Equals a c := h.symm.of_common h'

theorem isNull_eq {a b : Json} (h : Equals a b) : a.isNull = b.isNull := by
  cases h <;> rfl

end Equals

theorem not_isNull_of_equals {actual expected : Json} (h : Equals actual expected)
    (hexpected : expected.isNull = false) : actual.isNull = false :=
  h.isNull_eq.trans hexpected

end Json

/-- A value matches when it is not null and equals the expected one. -/
theorem matchesValue_iff {actual expected : Json} :
    matchesValue actual expected = true ↔ actual.isNull = false ∧ Json.Equals actual expected := by
  rw [matchesValue, Bool.and_eq_true, Bool.not_eq_true', Json.same_iff]

end RowPolicy
