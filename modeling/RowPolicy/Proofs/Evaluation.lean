import RowPolicy.Proofs.DictLookup
import RowPolicy.Proofs.JsonEquality

/-!
# Outcomes of rules

Stopping at the first settling sub-rule changes nothing: "any of" is a disjunction over all
sub-rules and "all of" a conjunction. Keeping a trace changes nothing either.
-/

namespace RowPolicy

variable {principal : Principal} {record : Option Record}

namespace Condition

/-- An attribute of the principal is there, is not null, and equals a value. -/
def AttributeIs (principal : Principal) (name : String) (expected : Json) : Prop :=
  ∃ actual, principal.get? name = some actual ∧ actual.isNull = false ∧
    Json.Equals actual expected

theorem holds_attributeMatch_iff {attributes : Dict Json} :
    holds principal record (.attributeMatch attributes) = true ↔
      attributes.isEmpty = false ∧ ∀ name expected, attributes.get? name = some expected →
        AttributeIs principal name expected := by
  simp only [holds, Bool.and_eq_true, Bool.not_eq_true', List.all_eq_true, Option.any_eq_true,
    matchesValue_iff, Prod.forall, Dict.get?_eq_some_iff, AttributeIs]

theorem holds_fieldEquals_iff {field : String} {source : ValueSource} :
    holds principal record (.fieldEquals field source) = true ↔
      ∃ row actual expected, record = some row ∧ row.get? field = some actual ∧
        source.resolve? principal = some expected ∧ actual.isNull = false ∧
          Json.Equals actual expected := by
  simp only [holds]
  split
  · next actual expected hactual hexpected =>
    obtain ⟨row, hrow, hfield⟩ := Option.bind_eq_some_iff.mp hactual
    rw [matchesValue_iff]
    constructor
    · rintro ⟨hnull, hequals⟩
      exact ⟨row, actual, expected, hrow, hfield, hexpected, hnull, hequals⟩
    · rintro ⟨row', actual', expected', hrow', hfield', hexpected', hnull, hequals⟩
      obtain rfl : row = row' := Option.some.inj (hrow.symm.trans hrow')
      obtain rfl : actual = actual' := Option.some.inj (hfield.symm.trans hfield')
      obtain rfl : expected = expected' := Option.some.inj (hexpected.symm.trans hexpected')
      exact ⟨hnull, hequals⟩
  · next hmissing =>
    refine iff_of_false (nomatch ·) ?_
    rintro ⟨row, actual, expected, rfl, hfield, hexpected, -⟩
    exact hmissing actual expected hfield hexpected

end Condition

namespace Connective

/-- What the outcomes of all sub-rules amount to. -/
def join : Connective → List Bool → Bool
  | .any, outcomes => outcomes.any id
  | .all, outcomes => outcomes.all id

theorem join_cons (connective : Connective) (outcome : Bool) (outcomes : List Bool) :
    connective.join (outcome :: outcomes) =
      if outcome = connective.settles then connective.settles else connective.join outcomes := by
  cases connective with
  | any => cases outcome <;> simp [join, settles]
  | all => cases outcome <;> simp [join, settles]

end Connective

namespace Rule

theorem evaluateUntil_eq_join (connective : Connective) (rules : List Rule) :
    evaluateUntil principal record connective.settles rules =
      connective.join (rules.map (evaluate principal record)) := by
  induction rules with
  | nil => cases connective <;> rfl
  | cons rule rules ih => rw [evaluateUntil, ih, List.map_cons, Connective.join_cons]

@[simp] theorem evaluate_composite (connective : Connective) (rules : List Rule) :
    (composite connective rules).evaluate principal record =
      connective.join (rules.map (evaluate principal record)) := by
  rw [evaluate, evaluateUntil_eq_join]

theorem evaluate_any {rules : List Rule} :
    (composite .any rules).evaluate principal record = true ↔
      ∃ rule ∈ rules, rule.evaluate principal record = true := by
  simp [Connective.join]

theorem evaluate_all {rules : List Rule} :
    (composite .all rules).evaluate principal record = true ↔
      ∀ rule ∈ rules, rule.evaluate principal record = true := by
  simp [Connective.join]

/-! ## Traces -/

theorem visitUntil_fst {path : String} {connective : Connective} {index : Nat} {rules : List Rule}
    (h : ∀ rule ∈ rules, ∀ here,
      (visit principal record here rule).1 = rule.evaluate principal record) :
    (visitUntil principal record path connective index rules).1 =
      evaluateUntil principal record connective.settles rules := by
  induction rules generalizing index with
  | nil => rfl
  | cons rule rules ih =>
      obtain ⟨hrule, hrules⟩ := List.forall_mem_cons.mp h
      rw [visitUntil, evaluateUntil]
      simp only [hrule]
      split
      · next hsettled => exact hsettled
      · exact ih hrules

/-- A visit has the outcome of the evaluation. -/
@[simp] theorem visit_fst (path : String) (rule : Rule) :
    (visit principal record path rule).1 = rule.evaluate principal record := by
  induction rule generalizing path with
  | unrestricted => rfl
  | composite connective rules ih =>
      rw [visit, evaluate]
      exact visitUntil_fst fun rule hrule here => ih rule hrule here
  | leaf condition => rfl

end Rule

namespace PolicySet

@[simp] theorem decide_allow (set : PolicySet) (operation : Operation) :
    (set.decide operation principal record).allow =
      (set.rule operation).evaluate principal record := rfl

@[simp] theorem decideTraced_allow (set : PolicySet) (operation : Operation) :
    (set.decideTraced operation principal record).allow =
      (set.rule operation).evaluate principal record :=
  Rule.visit_fst operation.name (set.rule operation)

end PolicySet

end RowPolicy
