import RowPolicy.Compiler
import RowPolicy.Proofs.TemplateGrammar
import RowPolicy.Proofs.Outcomes

/-!
# What a declared rule compiles to

The compiler threads places through its recursion for the sake of its errors. The relation
`Compiles` leaves them out: it says which declared rules are accepted and which rule each of them
becomes. The compiler succeeds exactly where the relation holds, at whatever place it is run.
-/

namespace RowPolicy

open Compiler

/-- A value that is compared as it stands: a truth value, a number, or a string without doubled
braces. -/
def IsPlain : Json → Prop
  | .bool _ | .number _ => True
  | .string text => ¬ Template.Marked text.toList
  | _ => False

def IsFieldName (key : String) : Prop :=
  key ≠ "" ∧ key.toList.head? ≠ some '$' ∧ key ≠ conditionKey

/-- A declared rule and the rule that it compiles to. -/
inductive Compiles (scope : Namespace) : Json → Rule → Prop
  | unrestricted : Compiles scope (.object []) .unrestricted
  | composite (connective : Connective) {items : List Json} {rules : List Rule} :
      items ≠ [] → items.length = rules.length →
      (∀ item rule, (item, rule) ∈ items.zip rules → Compiles scope item rule) →
      Compiles scope (.object [(connective.operator, .array items)]) (.composite connective rules)
  | condition {members : List (String × Json)} :
      members ≠ [] → (∀ entry ∈ members, entry.1 ≠ "" ∧ IsPlain entry.2) →
      Compiles scope (.object [(conditionKey, .object members)])
        (.leaf (.attributeMatch (Dict.ofList members)))
  | literal {field : String} {value : Json} :
      IsFieldName field → IsPlain value →
      Compiles scope (.object [(field, value)]) (.leaf (.fieldEquals field (.literal value)))
  | template {field raw name : String} :
      IsFieldName field → Template.RefersTo raw name → scope.contains name = true →
      Compiles scope (.object [(field, .string raw)])
        (.leaf (.fieldEquals field (.template ⟨name⟩)))

variable {compiler : Compiler}

/-! ## Keys -/

@[simp] theorem connective?_operator (connective : Connective) :
    connective? connective.operator = some connective := by
  cases connective <;> decide

theorem connective?_eq_some {key : String} {connective : Connective}
    (h : connective? key = some connective) : key = connective.operator := by
  unfold connective? at h
  split at h
  · next heq =>
    cases h
    exact heq
  · split at h
    · next heq =>
      cases h
      exact heq
    · cases h

theorem head?_operator (connective : Connective) :
    connective.operator.toList.head? = some '$' := by
  cases connective <;> rfl

theorem connective?_eq_none {key : String} (h : key.toList.head? ≠ some '$') :
    connective? key = none := by
  cases hkey : connective? key with
  | none => rfl
  | some connective =>
      rw [connective?_eq_some hkey] at h
      exact absurd (head?_operator connective) h

theorem head?_conditionKey : conditionKey.toList.head? ≠ some '$' := by
  decide

/-! ## Leaves -/

theorem checkAttributes_eq_ok_iff {place : Location} {members : List (String × Json)} :
    checkAttributes place members = .ok () ↔ ∀ entry ∈ members, entry.1 ≠ "" ∧ IsPlain entry.2 := by
  induction members with
  | nil => simp [checkAttributes]
  | cons entry rest ih =>
      obtain ⟨name, expected⟩ := entry
      rw [List.forall_mem_cons, ← ih]
      by_cases hname : name = ""
      · simp [checkAttributes, hname, refuse]
      · cases expected with
        | string text =>
            by_cases hlike : Template.isLike text = true
            · simp [checkAttributes, hname, hlike, refuse, IsPlain, Template.isLike_iff.mp hlike]
            · simp [checkAttributes, hname, hlike, IsPlain, ← Template.isLike_iff]
        | null => simp [checkAttributes, hname, isScalar, refuse, IsPlain]
        | array items => simp [checkAttributes, hname, isScalar, refuse, IsPlain]
        | object inner => simp [checkAttributes, hname, isScalar, refuse, IsPlain]
        | bool value => simp [checkAttributes, hname, isScalar, IsPlain]
        | number value => simp [checkAttributes, hname, isScalar, IsPlain]

theorem compileCondition_eq_ok_iff {place : Location} {value : Json} {rule : Rule} :
    compileCondition place value = .ok rule ↔ ∃ members, value = .object members ∧ members ≠ [] ∧
      (∀ entry ∈ members, entry.1 ≠ "" ∧ IsPlain entry.2) ∧
      rule = .leaf (.attributeMatch (Dict.ofList members)) := by
  cases value with
  | object members =>
      cases members with
      | nil => simp [compileCondition, refuse]
      | cons entry rest =>
          simp only [← @checkAttributes_eq_ok_iff place, Json.object.injEq, exists_eq_left', ne_eq,
            reduceCtorEq, not_false_eq_true, true_and]
          simp only [compileCondition]
          cases hcheck : checkAttributes place (entry :: rest) with
          | ok _ => simp [eq_comm]
          | error error => simp
  | null => simp [compileCondition, refuse]
  | bool value => simp [compileCondition, refuse]
  | number value => simp [compileCondition, refuse]
  | string text => simp [compileCondition, refuse]
  | array items => simp [compileCondition, refuse]

theorem resolve_cases {scope : Namespace} {raw : String} {source : ValueSource}
    (h : scope.resolve raw = .ok source) :
    (¬ Template.Marked raw.toList ∧ source = .literal (.string raw)) ∨
      ∃ name, Template.RefersTo raw name ∧ scope.contains name = true ∧
        source = .template ⟨name⟩ := by
  cases source with
  | literal value =>
      obtain ⟨hmarked, rfl⟩ := Namespace.resolve_eq_literal_iff.mp h
      exact Or.inl ⟨hmarked, rfl⟩
  | template ref =>
      obtain ⟨hrefers, hknown⟩ := Namespace.resolve_eq_template_iff.mp h
      exact Or.inr ⟨ref.name, hrefers, hknown, rfl⟩

theorem compileField_eq_ok_iff {place : Location} {field : String} {value : Json} {rule : Rule} :
    compiler.compileField place field value = .ok rule ↔
      (IsPlain value ∧ rule = .leaf (.fieldEquals field (.literal value))) ∨
        ∃ raw name, value = .string raw ∧ Template.RefersTo raw name ∧
          compiler.scope.contains name = true ∧
          rule = .leaf (.fieldEquals field (.template ⟨name⟩)) := by
  cases value with
  | string raw =>
      constructor
      · intro h
        simp only [compileField] at h
        split at h
        · next source hresolve =>
          cases h
          rcases resolve_cases hresolve with ⟨hmarked, rfl⟩ | ⟨name, hrefers, hknown, rfl⟩
          · exact Or.inl ⟨hmarked, rfl⟩
          · exact Or.inr ⟨raw, name, rfl, hrefers, hknown, rfl⟩
        · cases h
      · rintro (⟨hplain, rfl⟩ | ⟨raw', name, heq, hrefers, hknown, rfl⟩)
        · rw [compileField, Namespace.resolve_eq_literal_iff.mpr ⟨hplain, rfl⟩]
        · cases heq
          rw [compileField, Namespace.resolve_eq_template_iff.mpr ⟨hrefers, hknown⟩]
  | null => simp [compileField, isScalar, refuse, IsPlain]
  | array items => simp [compileField, isScalar, refuse, IsPlain]
  | object members => simp [compileField, isScalar, refuse, IsPlain]
  | bool value => simp [compileField, isScalar, IsPlain, @eq_comm Rule rule]
  | number value => simp [compileField, isScalar, IsPlain, @eq_comm Rule rule]

theorem compileLeaf_eq_ok_iff {place : Location} {key : String} {value : Json} {rule : Rule} :
    compiler.compileLeaf place key value = .ok rule ↔
      (key = conditionKey ∧ compileCondition place value = .ok rule) ∨
        (IsFieldName key ∧ compiler.compileField place key value = .ok rule) := by
  unfold compileLeaf
  split
  · next hdollar =>
    have hne : key ≠ conditionKey := by
      rintro rfl
      exact head?_conditionKey hdollar
    simp [refuse, IsFieldName, hdollar, hne]
  · next hdollar =>
    split
    · next hkey => simp [IsFieldName, hkey]
    · next hkey =>
      split
      · next hempty =>
        subst hempty
        simp [refuse, IsFieldName, hkey]
      · next hempty => simp [IsFieldName, hdollar, hkey, hempty]

/-! ## Rules -/

theorem compileItems_eq_ok {place : Location} {index : Nat} {items : List Json}
    {rules : List Rule} (h : compileItems compiler place index items = .ok rules) :
    items.length = rules.length ∧ ∀ item rule, (item, rule) ∈ items.zip rules →
      ∃ here, compileAt compiler here item = .ok rule := by
  induction items generalizing index rules with
  | nil =>
      cases h
      simp
  | cons item items ih =>
      rw [compileItems] at h
      split at h
      · cases h
      · next rule hitem =>
        split at h
        · cases h
        · next rest hrest =>
          cases h
          obtain ⟨hlength, hmem⟩ := ih hrest
          refine ⟨by rw [List.length_cons, List.length_cons, hlength], ?_⟩
          intro item' rule' hpair
          rw [List.zip_cons_cons, List.mem_cons] at hpair
          rcases hpair with heq | hpair
          · cases heq
            exact ⟨_, hitem⟩
          · exact hmem item' rule' hpair

theorem compileItems_of_zip {place : Location} {index : Nat} {items : List Json}
    {rules : List Rule} (hlength : items.length = rules.length)
    (h : ∀ item rule, (item, rule) ∈ items.zip rules →
      ∀ here, compileAt compiler here item = .ok rule) :
    compileItems compiler place index items = .ok rules := by
  induction items generalizing index rules with
  | nil =>
      obtain rfl := List.length_eq_zero_iff.mp hlength.symm
      rfl
  | cons item items ih =>
      cases rules with
      | nil => cases hlength
      | cons rule rules =>
          have hitem := h item rule List.mem_cons_self (place.item index)
          have hrest : compileItems compiler place (index + 1) items = .ok rules := by
            apply ih (Nat.succ.inj hlength)
            intro item' rule' hpair
            exact h item' rule' (List.mem_cons_of_mem _ hpair)
          rw [compileItems, hitem]
          simp only [hrest]

theorem compileComposite_array {place : Location} {operator : String} {items : List Json} (h : items ≠ []) :
    compileComposite compiler place operator (.array items) =
      compileItems compiler place 0 items := by
  cases items with
  | nil => exact absurd rfl h
  | cons item items => rfl

theorem compileComposite_eq_ok_iff {place : Location} {operator : String} {value : Json}
    {rules : List Rule} : compileComposite compiler place operator value = .ok rules ↔
      ∃ items, value = .array items ∧ items ≠ [] ∧
        compileItems compiler place 0 items = .ok rules := by
  cases value with
  | array items => cases items <;> simp [compileComposite, refuse]
  | null => simp [compileComposite, refuse]
  | bool value => simp [compileComposite, refuse]
  | number value => simp [compileComposite, refuse]
  | string text => simp [compileComposite, refuse]
  | object members => simp [compileComposite, refuse]

/-- What the compiler accepts, and what it makes of it. The recursion is on the declared rule. -/
theorem compiles_of_compileAt {place : Location} {raw : Json} {rule : Rule}
    (h : compileAt compiler place raw = .ok rule) : Compiles compiler.scope raw rule := by
  match raw with
  | .object [] =>
      cases h
      exact .unrestricted
  | .object [(key, value)] =>
      rw [compileAt] at h
      split at h
      · next connective hkey =>
        obtain rfl := connective?_eq_some hkey
        split at h
        · next rules hrules =>
          cases h
          obtain ⟨items, hvalue, hne, hitems⟩ := compileComposite_eq_ok_iff.mp hrules
          obtain ⟨hlength, hmem⟩ := compileItems_eq_ok hitems
          have hcompiles : ∀ item rule, (item, rule) ∈ items.zip rules →
              Compiles compiler.scope item rule := by
            intro item rule hpair
            obtain ⟨here, hitem⟩ := hmem item rule hpair
            have hsize : sizeOf item < sizeOf value := by
              have hlt := List.sizeOf_lt_of_mem (List.of_mem_zip hpair).1
              rw [hvalue, Json.array.sizeOf_spec]
              omega
            exact compiles_of_compileAt hitem
          rw [hvalue]
          exact .composite connective hne hlength hcompiles
        · cases h
      · rcases compileLeaf_eq_ok_iff.mp h with ⟨rfl, hcondition⟩ | ⟨hfield, hvalue⟩
        · obtain ⟨members, rfl, hne, hmembers, rfl⟩ := compileCondition_eq_ok_iff.mp hcondition
          exact .condition hne hmembers
        · rcases compileField_eq_ok_iff.mp hvalue with
            ⟨hplain, rfl⟩ | ⟨text, name, rfl, hrefers, hknown, rfl⟩
          · exact .literal hfield hplain
          · exact .template hfield hrefers hknown
  | .object (_ :: _ :: _) => cases h
  | .null | .bool _ | .number _ | .string _ | .array _ => cases h
termination_by sizeOf raw
decreasing_by
  simp only [Json.object.sizeOf_spec, List.cons.sizeOf_spec, Prod.mk.sizeOf_spec]
  omega

theorem compileAt_of_compiles {raw : Json} {rule : Rule} (h : Compiles compiler.scope raw rule)
    (place : Location) : compileAt compiler place raw = .ok rule := by
  induction h generalizing place with
  | unrestricted => rfl
  | composite connective hne hlength _ ih =>
      rw [compileAt, connective?_operator]
      have hitems := @compileItems_of_zip compiler (place.member connective.operator) 0 _ _
        hlength ih
      simp only [compileComposite_eq_ok_iff.mpr ⟨_, rfl, hne, hitems⟩]
  | condition hne hmembers =>
      rw [compileAt, connective?_eq_none head?_conditionKey]
      exact compileLeaf_eq_ok_iff.mpr
        (Or.inl ⟨rfl, compileCondition_eq_ok_iff.mpr ⟨_, rfl, hne, hmembers, rfl⟩⟩)
  | literal hfield hplain =>
      rw [compileAt, connective?_eq_none hfield.2.1]
      exact compileLeaf_eq_ok_iff.mpr
        (Or.inr ⟨hfield, compileField_eq_ok_iff.mpr (Or.inl ⟨hplain, rfl⟩)⟩)
  | template hfield hrefers hknown =>
      rw [compileAt, connective?_eq_none hfield.2.1]
      exact compileLeaf_eq_ok_iff.mpr
        (Or.inr ⟨hfield, compileField_eq_ok_iff.mpr (Or.inr ⟨_, _, rfl, hrefers, hknown, rfl⟩)⟩)

/-- The compiler succeeds exactly where the relation holds, at any place. -/
theorem compileAt_eq_ok_iff {place : Location} {raw : Json} {rule : Rule} :
    compileAt compiler place raw = .ok rule ↔ Compiles compiler.scope raw rule :=
  ⟨compiles_of_compileAt, fun h => compileAt_of_compiles h place⟩

theorem compile_eq_ok_iff {raw : Json} {rule : Rule} :
    compiler.compile raw = .ok rule ↔ Compiles compiler.scope raw rule :=
  compileAt_eq_ok_iff

/-- A declared rule compiles to one rule only. -/
theorem Compiles.unique {scope : Namespace} {raw : Json} {rule rule' : Rule}
    (h : Compiles scope raw rule) (h' : Compiles scope raw rule') : rule = rule' := by
  have hfirst : Compiler.compile ⟨scope⟩ raw = .ok rule := compile_eq_ok_iff.mpr h
  have hsecond : Compiler.compile ⟨scope⟩ raw = .ok rule' := compile_eq_ok_iff.mpr h'
  exact Except.ok.inj (hfirst.symm.trans hsecond)

/-! ## Policy sets -/

theorem Compiler.compileSet_eq_ok_iff {compiler : Compiler} {read write : Json}
    {set : PolicySet} : compiler.compileSet read write = .ok set ↔
      compiler.compile read = .ok set.read ∧ compiler.compile write = .ok set.write := by
  have hfor : ∀ operation raw rule,
      compiler.compileFor operation raw = .ok rule ↔ compiler.compile raw = .ok rule :=
    fun _ _ _ => mapError_eq_ok_iff
  rw [← hfor .read, ← hfor .write, compileSet]
  cases compiler.compileFor .read read with
  | error error => simp
  | ok rule =>
      cases compiler.compileFor .write write with
      | error error => simp
      | ok rule' =>
          obtain ⟨read', write'⟩ := set
          simp

theorem compiles_of_compileSet {compiler : Compiler} {raws : Operation → Json} {set : PolicySet}
    (h : compiler.compileSet (raws .read) (raws .write) = .ok set) (operation : Operation) :
    Compiles compiler.scope (raws operation) (set.rule operation) := by
  obtain ⟨hread, hwrite⟩ := Compiler.compileSet_eq_ok_iff.mp h
  cases operation with
  | read => exact compile_eq_ok_iff.mp hread
  | write => exact compile_eq_ok_iff.mp hwrite

end RowPolicy
