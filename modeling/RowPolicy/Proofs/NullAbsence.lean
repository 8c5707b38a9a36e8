import RowPolicy.Proofs.Footprint
import RowPolicy.Proofs.Monotonicity

/-!
# Null is absence

Null matches nothing, whether it stands in a record, among the attributes of the principal, in a rule or
in what a template refers to. An entry that is null therefore tells a rule as much as no entry at all,
and no record as much as an empty one.
-/

namespace RowPolicy

variable {principal : Principal} {record : Option Record}

/-- Leaves out nulls, some of them or all. -/
def SparesValues (keep : String → Json → Bool) : Prop :=
  ∀ name value, value.isNull = false → keep name value = true

theorem present?_filter {keep : String → Json → Bool} (hkeep : SparesValues keep) (dict : Dict Json)
    (name : String) : Json.present? ((dict.filter keep).get? name) = Json.present? (dict.get? name) := by
  ext value
  rw [Json.present?_eq_some_iff, Json.present?_eq_some_iff, Dict.get?_filter_eq_some_iff]
  constructor
  · rintro ⟨⟨hentry, -⟩, hnull⟩
    exact ⟨hentry, hnull⟩
  · rintro ⟨hentry, hnull⟩
    exact ⟨⟨hentry, hkeep name value hnull⟩, hnull⟩

theorem Json.alike_of_present?_eq {found found' : Option Json}
    (h : present? found = present? found') : Alike found found' := by
  rw [Alike, h]
  exact rel_refl Equals.refl _

/-- Leaving out nulls tells a rule the same. -/
theorem alikeOn_keeping {keep keep' : String → Json → Bool} (hkeep : SparesValues keep)
    (hkeep' : SparesValues keep') (attributes fields : List String) :
    AlikeOn attributes fields (principal.keeping keep) principal (record.map (·.keeping keep'))
      record where
  principals name _ := Json.alike_of_present?_eq (present?_filter hkeep principal.attributes name)
  records field _ := by
    cases record with
    | none => exact .refl none
    | some row => exact Json.alike_of_present?_eq (present?_filter hkeep' row.fields field)

theorem alikeOn_none_empty (attributes fields : List String) :
    AlikeOn attributes fields principal principal none (some Record.empty) where
  principals name _ := .refl (principal.get? name)
  records _ _ := .refl none

/-! ## Conditions that ask for null -/

theorem Json.not_equals_null {actual : Json} (hnull : actual.isNull = false) :
    ¬ Equals actual .null := by
  intro h
  rw [h.isNull_eq] at hnull
  cases hnull

namespace Condition

theorem holds_fieldEquals_null (field : String) :
    (fieldEquals field (.literal .null)).holds principal record = false := by
  rw [Bool.eq_false_iff]
  intro h
  obtain ⟨_, actual, expected, -, -, hexpected, hnull, hequals⟩ := holds_fieldEquals_iff.mp h
  cases hexpected
  exact Json.not_equals_null hnull hequals

theorem holds_attributeMatch_null (attributes : Dict Json) (name : String) :
    (attributeMatch (attributes.insert name .null)).holds principal record = false := by
  rw [Bool.eq_false_iff]
  intro h
  have hentry : (attributes.insert name .null).get? name = some .null := by
    rw [Dict.get?_insert, if_pos rfl]
  obtain ⟨actual, -, hnull, hequals⟩ := (holds_attributeMatch_iff.mp h).2 name .null hentry
  exact Json.not_equals_null hnull hequals

end Condition

/-- Nothing changes when nulls are left out of the principal and the record, or when there is an empty
record instead of none. A condition that asks for null does not hold of any request. -/
theorem null_is_absence :
    (∀ (rule : Rule) (principal : Principal) (record : Option Record)
        (keep keep' : String → Json → Bool), SparesValues keep → SparesValues keep' →
      rule.evaluate (principal.keeping keep) (record.map (·.keeping keep')) =
        rule.evaluate principal record) ∧
    (∀ (set : PolicySet) (operation : Operation) (principal : Principal) (record : Option Record)
        (keep keep' : String → Json → Bool), SparesValues keep → SparesValues keep' →
      set.decideTraced operation (principal.keeping keep) (record.map (·.keeping keep')) =
        set.decideTraced operation principal record) ∧
    (∀ (rule : Rule) (principal : Principal),
      rule.evaluate principal none = rule.evaluate principal (some .empty)) ∧
    (∀ (set : PolicySet) (operation : Operation) (principal : Principal),
      set.decideTraced operation principal none =
        set.decideTraced operation principal (some .empty)) ∧
    ∀ (principal : Principal) (record : Option Record),
      (∀ field, (Condition.fieldEquals field (.literal .null)).holds principal record = false) ∧
      ∀ (attributes : Dict Json) (name : String),
        (Condition.attributeMatch (attributes.insert name .null)).holds principal record = false := by
  refine ⟨?evaluate, ?traced, ?empty, ?tracedEmpty, ?conditions⟩
  case evaluate =>
    intro rule principal record keep keep' hkeep hkeep'
    exact (alikeOn_keeping hkeep hkeep' rule.attributes rule.fields).evaluate_eq
  case traced =>
    intro set operation principal record keep keep' hkeep hkeep'
    exact (alikeOn_keeping hkeep hkeep' _ _).decideTraced_eq
  case empty =>
    intro rule principal
    exact (alikeOn_none_empty rule.attributes rule.fields).evaluate_eq
  case tracedEmpty =>
    intro set operation principal
    exact (alikeOn_none_empty _ _).decideTraced_eq
  case conditions =>
    intro principal record
    exact ⟨Condition.holds_fieldEquals_null, Condition.holds_attributeMatch_null⟩

def notNull (_ : String) (value : Json) : Bool := !value.isNull

theorem notNull_sparesValues : SparesValues notNull := by
  intro name value hnull
  rw [notNull, hnull, Bool.not_false]

/-- The author, with a role that is null, and an open record without a title. -/
theorem null_is_absence_openRecord :
    SparesValues notNull ∧
    adminOrOpenOwner.evaluate ((author.withAttribute "role" .null).keeping notNull)
      ((some (openRecord.withField "title" .null)).map (·.keeping notNull)) = true ∧
    (PolicySet.decideTraced ⟨adminOrOpenOwner, .unrestricted⟩ .read author none).trace =
      some [⟨"read.$or[0]", .attributeMatch, false⟩, ⟨"read.$or[1].$and[0]", .fieldEquals, false⟩,
        ⟨"read.$or[1]", .all, false⟩, ⟨"read", .any, false⟩] ∧
    (Condition.fieldEquals "title" (.literal .null)).holds author
      (some (openRecord.withField "title" .null)) = false := by
  obtain ⟨hevaluate, -, -, hempty, hconditions⟩ := null_is_absence
  refine ⟨notNull_sparesValues, ?_, ?_, (hconditions _ _).1 "title"⟩
  · rw [hevaluate _ _ _ _ _ notNull_sparesValues notNull_sparesValues]
    decide +kernel
  · rw [hempty]
    decide +kernel

end RowPolicy
