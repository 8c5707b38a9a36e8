import RowPolicy.Proofs.Evaluation
import Mathlib.Logic.Relation

/-!
# The denotation of rules

A rule denotes a truth value for each request, in which a composite looks at all of its sub-rules.
Evaluating a rule, deciding with it, and deciding with a trace all answer with this value. It is not
changed by putting the sub-rules of a composite in another order, or by repeating some of them,
however deep the composite stands.
-/

namespace RowPolicy

variable {principal : Principal} {record : Option Record}

namespace Connective

/-- Only which outcomes there are matters to a composite. -/
theorem join_eq_of_mem_iff (connective : Connective) {outcomes outcomes' : List Bool}
    (h : ∀ outcome, outcome ∈ outcomes ↔ outcome ∈ outcomes') :
    connective.join outcomes = connective.join outcomes' := by
  rw [Bool.eq_iff_iff]
  cases connective with
  | any => simp only [join, List.any_eq_true, h]
  | all => simp only [join, List.all_eq_true, h]

end Connective

namespace Rule

mutual

def denote (principal : Principal) (record : Option Record) : Rule → Bool
  | .unrestricted => true
  | .composite connective rules => connective.join (denoteAll principal record rules)
  | .leaf condition => condition.holds principal record

def denoteAll (principal : Principal) (record : Option Record) : List Rule → List Bool
  | [] => []
  | rule :: rules => denote principal record rule :: denoteAll principal record rules

end

@[simp] theorem denoteAll_eq_map (rules : List Rule) :
    denoteAll principal record rules = rules.map (denote principal record) := by
  induction rules with
  | nil => rfl
  | cons rule rules ih => rw [denoteAll, ih, List.map_cons]

theorem denote_composite (connective : Connective) (rules : List Rule) :
    (composite connective rules).denote principal record =
      connective.join (rules.map (denote principal record)) := by
  rw [denote, denoteAll_eq_map]

theorem evaluate_eq_denote (rule : Rule) :
    rule.evaluate principal record = rule.denote principal record := by
  induction rule with
  | unrestricted => rfl
  | composite connective rules ih =>
      rw [evaluate_composite, denote_composite, List.map_congr_left ih]
  | leaf condition => rfl

/-! ## Rearranging sub-rules -/

/-- One change to the order or the number of sub-rules, at some place in a rule. -/
inductive Rearranges : Rule → Rule → Prop
  | reorder (connective : Connective) {rules rules' : List Rule} :
      rules.Perm rules' → Rearranges (.composite connective rules) (.composite connective rules')
  | duplicate (connective : Connective) {rule : Rule} {rules : List Rule} :
      rule ∈ rules →
      Rearranges (.composite connective rules) (.composite connective (rule :: rules))
  | inside (connective : Connective) (before after : List Rule) {rule rule' : Rule} :
      Rearranges rule rule' →
      Rearranges (.composite connective (before ++ rule :: after))
        (.composite connective (before ++ rule' :: after))

abbrev Rearranged : Rule → Rule → Prop := Relation.EqvGen Rearranges

variable {rule rule' : Rule}

theorem Rearranges.denote_eq (h : Rearranges rule rule') :
    rule.denote principal record = rule'.denote principal record := by
  induction h with
  | reorder connective hperm =>
      rw [denote_composite, denote_composite]
      apply connective.join_eq_of_mem_iff
      intro outcome
      exact (hperm.map _).mem_iff
  | duplicate connective hmem =>
      rw [denote_composite, denote_composite]
      apply connective.join_eq_of_mem_iff
      intro outcome
      rw [List.map_cons, List.mem_cons, iff_or_self]
      rintro rfl
      exact List.mem_map_of_mem hmem
  | inside connective before after _ ih =>
      rw [denote_composite, denote_composite, List.map_append, List.map_append,
        List.map_cons, List.map_cons, ih]

theorem Rearranged.denote_eq (h : Rearranged rule rule') :
    rule.denote principal record = rule'.denote principal record := by
  induction h with
  | rel _ _ hstep => exact hstep.denote_eq
  | refl _ => rfl
  | symm _ _ _ ih => exact ih.symm
  | trans _ _ _ _ _ ih ih' => exact ih.trans ih'

theorem Rearranged.evaluate_eq (h : Rearranged rule rule') :
    rule.evaluate principal record = rule'.evaluate principal record := by
  rw [evaluate_eq_denote, evaluate_eq_denote, h.denote_eq]

end Rule

/-- Evaluating, deciding and deciding with a trace answer with the denotation of the rule, which
rearranging sub-rules does not change. -/
theorem decisions_agree (principal : Principal) (record : Option Record) :
    (∀ rule : Rule, rule.evaluate principal record = rule.denote principal record) ∧
    (∀ (set : PolicySet) (operation : Operation), set.decide operation principal record =
      ⟨(set.rule operation).denote principal record, none⟩) ∧
    (∀ (set : PolicySet) (operation : Operation), ∃ steps,
      set.decideTraced operation principal record =
        ⟨(set.rule operation).denote principal record, some steps⟩) ∧
    (∀ rule rule' : Rule, rule.Rearranged rule' →
      rule.evaluate principal record = rule'.evaluate principal record) ∧
    ∀ (set set' : PolicySet) (operation : Operation),
      (set.rule operation).Rearranged (set'.rule operation) →
      (set.decide operation principal record).allow =
          (set'.decide operation principal record).allow ∧
        (set.decideTraced operation principal record).allow =
          (set'.decideTraced operation principal record).allow := by
  refine ⟨Rule.evaluate_eq_denote, ?_, ?_, fun _ _ => Rule.Rearranged.evaluate_eq, ?_⟩
  · intro set operation
    rw [PolicySet.decide, Rule.evaluate_eq_denote]
  · intro set operation
    refine ⟨((set.rule operation).visit principal record operation.name).2, ?_⟩
    rw [PolicySet.decideTraced, ← Rule.evaluate_eq_denote, ← Rule.visit_fst operation.name]
  · intro set set' operation hrearranged
    rw [PolicySet.decide_allow, PolicySet.decide_allow, PolicySet.decideTraced_allow,
      PolicySet.decideTraced_allow, hrearranged.evaluate_eq]
    exact ⟨rfl, rfl⟩

def adminOrOpenOwner : Rule :=
  .composite .any
    [.leaf (.attributeMatch (Dict.ofList [("role", .string "admin")])),
      .composite .all [.leaf (.fieldEquals "owner" (.template ⟨"id"⟩)),
        .leaf (.fieldEquals "open" (.literal (.bool true)))]]

/-- The same with the owner first, where it is asked twice whether the record is open. -/
def openOwnerOrAdmin : Rule :=
  .composite .any
    [.composite .all [.leaf (.fieldEquals "open" (.literal (.bool true))),
        .leaf (.fieldEquals "owner" (.template ⟨"id"⟩)),
        .leaf (.fieldEquals "open" (.literal (.bool true)))],
      .leaf (.attributeMatch (Dict.ofList [("role", .string "admin")]))]

def author : Principal := .ofList [("id", .string "u1")]

def openRecord : Record := .ofList [("owner", .string "u1"), ("open", .bool true)]

theorem decisions_agree_openOwnerOrAdmin :
    adminOrOpenOwner.Rearranged openOwnerOrAdmin ∧
    adminOrOpenOwner.evaluate author (some openRecord) = true ∧
    openOwnerOrAdmin.evaluate author (some openRecord) = true := by
  have hrearranged : adminOrOpenOwner.Rearranged openOwnerOrAdmin := by
    refine .trans _ _ _ (.rel _ _ (.reorder .any (.swap _ _ []))) (.rel _ _ ?_)
    exact .inside .any [] _ (.duplicate .all (List.mem_cons_of_mem _ List.mem_cons_self))
  have hallows : adminOrOpenOwner.evaluate author (some openRecord) = true := by decide +kernel
  have hsame := (decisions_agree author (some openRecord)).2.2.2.1 _ _ hrearranged
  exact ⟨hrearranged, hallows, hsame ▸ hallows⟩

end RowPolicy
