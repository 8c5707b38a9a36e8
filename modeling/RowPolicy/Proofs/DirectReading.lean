import RowPolicy.Proofs.CompiledForm
import RowPolicy.Proofs.Evaluation
import RowPolicy.Proofs.Pairing

/-!
# The direct reading of declared rules

A declared rule can be read without being compiled: each shape of it says in its own words when a
request is allowed. The rule that it compiles to allows exactly the same requests.
-/

namespace RowPolicy

variable {principal : Principal} {record : Option Record}

def RecordHas (record : Option Record) (field : String) (actual : Json) : Prop :=
  ∃ row, record = some row ∧ row.get? field = some actual

/-- A declared rule allows a request. The attributes of a condition are read as a map, in which a
repeated name stands for its last value. -/
inductive Allows (principal : Principal) (record : Option Record) : Json → Prop
  | unrestricted : Allows principal record (.object [])
  | any {items : List Json} {item : Json} :
      item ∈ items → Allows principal record item →
      Allows principal record (.object [("$or", .array items)])
  | all {items : List Json} :
      (∀ item ∈ items, Allows principal record item) →
      Allows principal record (.object [("$and", .array items)])
  | attributes {members : List (String × Json)} :
      (∀ name expected, (Dict.ofList members).get? name = some expected →
        ∃ actual, principal.get? name = some actual ∧ actual.isNull = false ∧
          Json.Equals actual expected) →
      Allows principal record (.object [("user_condition", .object members)])
  | literal {field : String} {expected actual : Json} :
      IsFieldName field → IsPlain expected →
      RecordHas record field actual → Json.Equals actual expected →
      Allows principal record (.object [(field, expected)])
  | template {field raw name : String} {expected actual : Json} :
      IsFieldName field → Template.RefersTo raw name →
      RecordHas record field actual → actual.isNull = false →
      principal.get? name = some expected → Json.Equals actual expected →
      Allows principal record (.object [(field, .string raw)])

namespace Allows

theorem any_iff {items : List Json} :
    Allows principal record (.object [("$or", .array items)]) ↔
      ∃ item ∈ items, Allows principal record item := by
  constructor
  · intro h
    generalize hraw : Json.object [("$or", .array items)] = raw at h
    cases h with
    | any hmem hitem =>
        simp only [Json.object.injEq, List.cons.injEq, Prod.mk.injEq, Json.array.injEq] at hraw
        obtain ⟨⟨-, rfl⟩, -⟩ := hraw
        exact ⟨_, hmem, hitem⟩
    | literal hfield =>
        cases hraw
        exact absurd rfl hfield.2.1
    | unrestricted | all | attributes | template => simp at hraw
  · rintro ⟨item, hmem, hitem⟩
    exact .any hmem hitem

theorem all_iff {items : List Json} :
    Allows principal record (.object [("$and", .array items)]) ↔
      ∀ item ∈ items, Allows principal record item := by
  constructor
  · intro h
    generalize hraw : Json.object [("$and", .array items)] = raw at h
    cases h with
    | all hitems =>
        simp only [Json.object.injEq, List.cons.injEq, Prod.mk.injEq, Json.array.injEq] at hraw
        obtain ⟨⟨-, rfl⟩, -⟩ := hraw
        exact hitems
    | literal hfield =>
        cases hraw
        exact absurd rfl hfield.2.1
    | unrestricted | any | attributes | template => simp at hraw
  · exact .all

theorem attributes_iff {members : List (String × Json)} :
    Allows principal record (.object [(conditionKey, .object members)]) ↔
      ∀ name expected, (Dict.ofList members).get? name = some expected →
        Condition.AttributeIs principal name expected := by
  constructor
  · intro h
    generalize hraw : Json.object [(conditionKey, .object members)] = raw at h
    cases h with
    | attributes hmembers =>
        simp only [Json.object.injEq, List.cons.injEq, Prod.mk.injEq] at hraw
        obtain ⟨⟨-, rfl⟩, -⟩ := hraw
        exact hmembers
    | literal hfield =>
        cases hraw
        exact absurd rfl hfield.2.2
    | unrestricted | any | all | template => simp at hraw
  · exact .attributes

theorem field_iff {field : String} {value : Json} (hfield : IsFieldName field) :
    Allows principal record (.object [(field, value)]) ↔
      (IsPlain value ∧ ∃ actual, RecordHas record field actual ∧ Json.Equals actual value) ∨
        ∃ raw name expected actual, value = .string raw ∧ Template.RefersTo raw name ∧
          RecordHas record field actual ∧ actual.isNull = false ∧
            principal.get? name = some expected ∧ Json.Equals actual expected := by
  constructor
  · intro h
    cases h with
    | any | all => exact absurd rfl hfield.2.1
    | attributes => exact absurd rfl hfield.2.2
    | literal _ hplain hactual hequals => exact Or.inl ⟨hplain, _, hactual, hequals⟩
    | template _ hrefers hactual hnull hexpected hequals =>
        exact Or.inr ⟨_, _, _, _, rfl, hrefers, hactual, hnull, hexpected, hequals⟩
  · rintro (⟨hplain, actual, hactual, hequals⟩ |
      ⟨raw, name, expected, actual, rfl, hrefers, hactual, hnull, hexpected, hequals⟩)
    · exact .literal hfield hplain hactual hequals
    · exact .template hfield hrefers hactual hnull hexpected hequals

end Allows

theorem isNull_of_isPlain {value : Json} (h : IsPlain value) : value.isNull = false := by
  cases value <;> first | rfl | exact h.elim

theorem holds_literal_iff {field : String} {expected : Json} (hplain : IsPlain expected) :
    Condition.holds principal record (.fieldEquals field (.literal expected)) = true ↔
      ∃ actual, RecordHas record field actual ∧ Json.Equals actual expected := by
  rw [Condition.holds_fieldEquals_iff]
  constructor
  · rintro ⟨row, actual, _, hrow, hfield, hexpected, -, hequals⟩
    cases hexpected
    exact ⟨actual, ⟨row, hrow, hfield⟩, hequals⟩
  · rintro ⟨actual, ⟨row, hrow, hfield⟩, hequals⟩
    exact ⟨row, actual, expected, hrow, hfield, rfl,
      Json.not_isNull_of_equals hequals (isNull_of_isPlain hplain), hequals⟩

theorem holds_template_iff {field name : String} :
    Condition.holds principal record (.fieldEquals field (.template ⟨name⟩)) = true ↔
      ∃ expected actual, RecordHas record field actual ∧ actual.isNull = false ∧
        principal.get? name = some expected ∧ Json.Equals actual expected := by
  rw [Condition.holds_fieldEquals_iff]
  constructor
  · rintro ⟨row, actual, expected, hrow, hfield, hexpected, hnull, hequals⟩
    exact ⟨expected, actual, ⟨row, hrow, hfield⟩, hnull, hexpected, hequals⟩
  · rintro ⟨expected, actual, ⟨row, hrow, hfield⟩, hnull, hexpected, hequals⟩
    exact ⟨row, actual, expected, hrow, hfield, hexpected, hnull, hequals⟩

/-- Sub-rules that agree one by one with declared rules allow for some of them, or for all of them,
when those do. -/
theorem exists_mem_iff_of_forall₂ {items : List Json} {rules : List Rule} {p : Rule → Prop}
    {q : Json → Prop} (h : List.Forall₂ (fun item rule => p rule ↔ q item) items rules) :
    ((∃ rule ∈ rules, p rule) ↔ ∃ item ∈ items, q item) ∧
      ((∀ rule ∈ rules, p rule) ↔ ∀ item ∈ items, q item) := by
  induction h with
  | nil => simp
  | cons hhead _ ih =>
      obtain ⟨hsome, hall⟩ := ih
      rw [List.exists_mem_cons_iff, List.exists_mem_cons_iff, List.forall_mem_cons,
        List.forall_mem_cons, hhead, hsome, hall]
      exact ⟨Iff.rfl, Iff.rfl⟩

/-- A compiled rule allows what its declared rule allows. The induction is on how the declared rule
compiles. -/
theorem Compiles.evaluate_iff {scope : Namespace} {raw : Json} {rule : Rule}
    (h : Compiles scope raw rule) :
    rule.evaluate principal record = true ↔ Allows principal record raw := by
  induction h with
  | unrestricted => exact iff_of_true rfl .unrestricted
  | composite connective _ hlength _ ih =>
      obtain ⟨hsome, hall⟩ := exists_mem_iff_of_forall₂ (forall₂_of_zip hlength ih)
      cases connective with
      | any => exact Rule.evaluate_any.trans (hsome.trans Allows.any_iff.symm)
      | all => exact Rule.evaluate_all.trans (hall.trans Allows.all_iff.symm)
  | condition hne _ =>
      rw [Rule.evaluate, Condition.holds_attributeMatch_iff, Dict.isEmpty_ofList hne,
        Allows.attributes_iff]
      simp
  | literal hfield hplain =>
      rw [Rule.evaluate, holds_literal_iff hplain, Allows.field_iff hfield]
      constructor
      · intro hactual
        exact Or.inl ⟨hplain, hactual⟩
      · rintro (⟨-, hactual⟩ | ⟨raw, name, -, -, rfl, hrefers, -⟩)
        · exact hactual
        · exact absurd hrefers.marked hplain
  | template hfield hrefers _ =>
      rw [Rule.evaluate, holds_template_iff, Allows.field_iff hfield]
      constructor
      · rintro ⟨expected, actual, hactual⟩
        exact Or.inr ⟨_, _, expected, actual, rfl, hrefers, hactual⟩
      · rintro (⟨hplain, -⟩ | ⟨raw, name, expected, actual, heq, hother, hactual⟩)
        · exact absurd hrefers.marked hplain
        · cases heq
          obtain rfl := hrefers.unique hother
          exact ⟨expected, actual, hactual⟩

/-- Compiling keeps the meaning of a declared rule: the compiled rule allows exactly the requests
that the declared rule, read directly, allows. -/
theorem compile_keeps_reading {compiler : Compiler} {raw : Json} {rule : Rule}
    (h : compiler.compile raw = .ok rule) (principal : Principal) (record : Option Record) :
    rule.evaluate principal record = true ↔ Allows principal record raw :=
  (compile_eq_ok_iff.mp h).evaluate_iff

def ownerOrAdmin : Json :=
  .object [("$or", .array
    [.object [("created_by", .string "\x7b\x7b user.email\x7d\x7d")],
      .object [("user_condition", .object [("role", .string "admin")])]])]

def ownerOrAdminRule : Rule :=
  .composite .any [.leaf (.fieldEquals "created_by" (.template ⟨"email"⟩)),
    .leaf (.attributeMatch (Dict.ofList [("role", .string "admin")]))]

def administrator : Principal := Principal.ofList [("role", .string "admin")]

theorem compile_keeps_reading_ownerOrAdmin :
    Compiler.compile {} ownerOrAdmin = .ok ownerOrAdminRule ∧
    (ownerOrAdminRule.evaluate administrator none = true ↔
      Allows administrator none ownerOrAdmin) := by
  have hcompile : Compiler.compile {} ownerOrAdmin = .ok ownerOrAdminRule := rfl
  exact ⟨hcompile, compile_keeps_reading hcompile administrator none⟩

end RowPolicy
