import RowPolicy.Proofs.CompiledForm
import RowPolicy.Proofs.DictLookup
import RowPolicy.Proofs.FirstViolation

/-!
# Errors of the compiler

The compiler goes through a declared rule by recursion and stops at the first thing it cannot accept.
Each of its functions reads a value in one role, and when it fails it fails for the first violation of
the value in this role, with the location of the violation. So a declared rule is refused exactly when
it has a violation, and for the first one.
-/

namespace RowPolicy

open Compiler

/-- An outcome of compiling a value at a place: an error is about the first violation, and without an
error there is none. -/
def Reports (scope : Namespace) (role : Role) (value : Json) (place : Location) {α : Type} :
    Except CompileError α → Prop
  | .ok _ => role.Clean scope value
  | .error error => ∃ address violation, role.FirstViolation scope value address violation ∧
      error = ⟨(place.follow address).display, violation⟩

variable {compiler : Compiler} {scope : Namespace} {role : Role} {value : Json} {place : Location}
  {violation : Violation}

theorem reports_refuse {α : Type} (h : role.violation? scope value = some violation) :
    Reports scope role value place (refuse place violation : Except CompileError α) :=
  ⟨[], violation, .root h, rfl⟩

theorem Reports.map {α β : Type} {outcome : Except CompileError α} (f : α → β)
    (h : Reports scope role value place outcome) :
    Reports scope role value place (outcome.map f) := by
  cases outcome with
  | ok a => exact h
  | error error => exact h

theorem part?_member_singleton (key k : String) :
    (Json.object [(key, value)]).part? (.member k) = if k = key then some value else none := by
  rw [Json.part?, lookup_cons_ite, List.lookup_nil]

theorem Role.FirstViolation.singleton {key : String} {address : Address}
    (h : (Role.ofKey key).FirstViolation scope value address violation) :
    Role.rule.FirstViolation scope (.object [(key, value)]) (.member key :: address) violation := by
  have hself : Role.rule.violation? scope (.object [(key, value)]) = none := rfl
  apply Role.FirstViolation.inside hself rfl _ _ h
  · rw [part?_member_singleton, if_pos rfl]
  · intro segment' hsegment role'' part' _ hpart
    cases hsegment with
    | member hlt =>
        rw [part?_member_singleton, if_neg (String.ne_of_lt hlt)] at hpart
        cases hpart

theorem Reports.member {α : Type} {key : String} {outcome : Except CompileError α}
    (h : Reports scope (Role.ofKey key) value (place.member key) outcome) :
    Reports scope .rule (.object [(key, value)]) place outcome := by
  cases outcome with
  | ok a =>
      have hself : Role.rule.violation? scope (.object [(key, value)]) = none := rfl
      apply Role.clean_of_parts hself
      intro segment role' part hrole hpart
      cases segment with
      | element i => cases hrole
      | member k =>
          rw [part?_member_singleton] at hpart
          split at hpart
          · next heq =>
            cases hpart
            cases hrole
            rw [heq]
            exact h
          · cases hpart
  | error error =>
      obtain ⟨address, violation, hfirst, rfl⟩ := h
      exact ⟨.member key :: address, violation, hfirst.singleton, rfl⟩

/-! ## Sub-rules -/

theorem compileItems_eq_ok_iff {index : Nat} {items : List Json} :
    (∃ rules, compileItems compiler place index items = .ok rules) ↔
      ∀ item ∈ items, ∃ rule, Compiles compiler.scope item rule := by
  induction items generalizing index with
  | nil => simp [compileItems]
  | cons item items ih =>
      rw [List.forall_mem_cons, ← @ih (index + 1)]
      simp only [← @compileAt_eq_ok_iff compiler (place.item index), compileItems]
      cases compileAt compiler (place.item index) item with
      | error error => simp
      | ok rule => cases compileItems compiler place (index + 1) items <;> simp

/-- The loop over sub-rules fails with the error of the first sub-rule that does not compile. -/
theorem compileItems_eq_error_iff {index : Nat} {items : List Json} {error : CompileError} :
    compileItems compiler place index items = .error error ↔
      ∃ before item after, items = before ++ item :: after ∧
        (∀ sibling ∈ before, ∃ rule, Compiles compiler.scope sibling rule) ∧
        compileAt compiler (place.item (index + before.length)) item = .error error := by
  induction items generalizing index with
  | nil => simp [compileItems]
  | cons first items ih =>
      rw [compileItems]
      constructor
      · intro h
        split at h
        · next error' hfirst =>
          cases h
          exact ⟨[], first, items, rfl, List.forall_mem_nil _, hfirst⟩
        · next rule hfirst =>
          split at h
          · next error' hrest =>
            cases h
            obtain ⟨before, item, after, rfl, hbefore, hitem⟩ := ih.mp hrest
            refine ⟨first :: before, item, after, rfl, ?_, ?_⟩
            · exact List.forall_mem_cons.mpr ⟨⟨rule, compileAt_eq_ok_iff.mp hfirst⟩, hbefore⟩
            · rwa [List.length_cons, ← Nat.add_assoc, Nat.add_right_comm]
          · cases h
      · rintro ⟨before, item, after, hitems, hbefore, hitem⟩
        cases before with
        | nil =>
            cases hitems
            rw [List.length_nil, Nat.add_zero] at hitem
            rw [hitem]
        | cons first' before =>
            rw [List.cons_append] at hitems
            obtain ⟨rfl, rfl⟩ := List.cons.inj hitems
            obtain ⟨⟨rule, hrule⟩, hbefore⟩ := List.forall_mem_cons.mp hbefore
            have hrest : compileItems compiler place (index + 1) (before ++ item :: after) =
                .error error := by
              apply ih.mpr
              refine ⟨before, item, after, rfl, hbefore, ?_⟩
              rwa [Nat.add_right_comm, Nat.add_assoc]
            rw [compileAt_of_compiles hrule]
            simp only [hrest]

theorem reports_compileItems {connective : Connective} {items : List Json} (hne : items ≠ [])
    (h : ∀ item ∈ items, ∀ here,
      Reports compiler.scope .rule item here (compileAt compiler here item)) :
    Reports compiler.scope (.subrules connective) (.array items) place
      (compileItems compiler place 0 items) := by
  have hself : (Role.subrules connective).violation? compiler.scope (.array items) = none :=
    if_neg hne
  have hclean : ∀ item ∈ items, (∃ rule, Compiles compiler.scope item rule) →
      Role.rule.Clean compiler.scope item := by
    rintro item hitem ⟨rule, hrule⟩
    have hreports := h item hitem place
    rwa [compileAt_of_compiles hrule] at hreports
  cases houtcome : compileItems compiler place 0 items with
  | ok rules =>
      have hall := compileItems_eq_ok_iff.mp ⟨rules, houtcome⟩
      apply Role.clean_of_parts hself
      intro segment role' part hrole hpart
      cases segment with
      | member key => cases hrole
      | element i =>
          cases hrole
          have hmem := List.mem_of_getElem? hpart
          exact hclean part hmem (hall part hmem)
  | error error =>
      obtain ⟨before, item, after, rfl, hbefore, hitem⟩ := compileItems_eq_error_iff.mp houtcome
      have hreports := h item (by simp) (place.item (0 + before.length))
      rw [hitem, Nat.zero_add] at hreports
      obtain ⟨address, violation, hfirst, rfl⟩ := hreports
      refine ⟨.element before.length :: address, violation, ?_, rfl⟩
      apply Role.FirstViolation.inside hself rfl _ _ hfirst
      · simp [Json.part?]
      · intro segment' hsegment role'' part' hrole hpart
        cases hsegment with
        | element hlt =>
            cases hrole
            rw [Json.part?, List.getElem?_append_left hlt] at hpart
            have hmem := List.mem_of_getElem? hpart
            exact hclean part' (List.mem_append_left _ hmem) (hbefore part' hmem)

theorem reports_compileComposite {connective : Connective}
    (h : ∀ items, value = .array items → ∀ item ∈ items, ∀ here,
      Reports compiler.scope .rule item here (compileAt compiler here item)) :
    Reports compiler.scope (.subrules connective) value place
      (compileComposite compiler place connective.operator value) := by
  cases value with
  | array items =>
      by_cases hempty : items = []
      · subst hempty
        exact reports_refuse rfl
      · rw [compileComposite_array hempty]
        exact reports_compileItems hempty (h items rfl)
  | null => exact reports_refuse rfl
  | bool value => exact reports_refuse rfl
  | number value => exact reports_refuse rfl
  | string text => exact reports_refuse rfl
  | object members => exact reports_refuse rfl

/-! ## Attributes -/

theorem checkAttributes_cons (name : String) (expected : Json) (rest : List (String × Json)) :
    checkAttributes place ((name, expected) :: rest) =
      match Role.attributeViolation? name expected with
      | some violation => refuse (place.member name) violation
      | none => checkAttributes place rest := by
  by_cases hname : name = ""
  · simp [checkAttributes, Role.attributeViolation?, hname]
  · cases expected with
    | string text =>
        by_cases hlike : Template.isLike text = true <;>
          simp [checkAttributes, Role.attributeViolation?, hname, isScalar, Role.hasMarks, hlike]
    | null => simp [checkAttributes, Role.attributeViolation?, hname, isScalar]
    | bool value =>
        simp [checkAttributes, Role.attributeViolation?, hname, isScalar, Role.hasMarks]
    | number value =>
        simp [checkAttributes, Role.attributeViolation?, hname, isScalar, Role.hasMarks]
    | array items => simp [checkAttributes, Role.attributeViolation?, hname, isScalar]
    | object inner => simp [checkAttributes, Role.attributeViolation?, hname, isScalar]

/-- The loop over attributes ends with the first attribute that something is wrong with. -/
theorem checkAttributes_cases (place : Location) (members : List (String × Json)) :
    (checkAttributes place members = .ok () ∧
      ∀ entry ∈ members, Role.attributeViolation? entry.1 entry.2 = none) ∨
    ∃ before name expected after violation, members = before ++ (name, expected) :: after ∧
      (∀ entry ∈ before, Role.attributeViolation? entry.1 entry.2 = none) ∧
      Role.attributeViolation? name expected = some violation ∧
      checkAttributes place members = refuse (place.member name) violation := by
  induction members with
  | nil => exact Or.inl ⟨rfl, nofun⟩
  | cons entry rest ih =>
      obtain ⟨name, expected⟩ := entry
      rw [checkAttributes_cons]
      cases hfirst : Role.attributeViolation? name expected with
      | some violation =>
          exact Or.inr ⟨[], name, expected, rest, violation, rfl, nofun, hfirst, rfl⟩
      | none =>
          rcases ih with ⟨hok, hrest⟩ | ⟨before, name', expected', after, violation, rfl, hbefore, h⟩
          · exact Or.inl ⟨hok, List.forall_mem_cons.mpr ⟨hfirst, hrest⟩⟩
          · exact Or.inr ⟨(name, expected) :: before, name', expected', after, violation, rfl,
              List.forall_mem_cons.mpr ⟨hfirst, hbefore⟩, h⟩

theorem clean_attributeValue {name : String} (h : Role.attributeViolation? name value = none) :
    (Role.attributeValue name).Clean scope value := by
  have hself : (Role.attributeValue name).violation? scope value = none := h
  apply Role.clean_of_parts hself
  intro segment role' part hrole _
  cases segment <;> cases hrole

theorem compileCondition_object (place : Location) {members : List (String × Json)}
    (h : members ≠ []) :
    compileCondition place (.object members) =
      (checkAttributes place members).map fun _ =>
        .leaf (.attributeMatch (Dict.ofList members)) := by
  obtain ⟨entry, rest, rfl⟩ := List.exists_cons_of_ne_nil h
  rw [compileCondition]
  · cases checkAttributes place (entry :: rest) <;> rfl
  · exact List.cons_ne_nil entry rest

theorem reports_compileCondition (hvalue : value.Canonical) :
    Reports scope .attributes value place (compileCondition place value) := by
  cases value with
  | object members =>
      by_cases hempty : members = []
      · subst hempty
        exact reports_refuse rfl
      · have hordered : Ordered members := hvalue.1
        have hself : Role.attributes.violation? scope (.object members) = none := if_neg hempty
        rw [compileCondition_object place hempty]
        apply Reports.map
        rcases checkAttributes_cases place members with
          ⟨hok, hall⟩ | ⟨before, name, expected, after, violation, rfl, hbefore, hviolation, herror⟩
        · rw [hok]
          apply Role.clean_of_parts hself
          intro segment role' part hrole hpart
          cases segment with
          | element i => cases hrole
          | member k =>
              cases hrole
              exact clean_attributeValue
                (hall (k, part) ((lookup_eq_some_iff_mem hordered.nodup).mp hpart))
        · rw [herror]
          have hfirst : (Role.attributeValue name).FirstViolation scope expected [] violation :=
            .root hviolation
          refine ⟨[.member name], violation, ?_, rfl⟩
          apply Role.FirstViolation.inside hself rfl _ _ hfirst
          · exact (lookup_eq_some_iff_mem hordered.nodup).mpr (by simp)
          · intro segment' hsegment role'' part' hrole hpart
            cases hsegment with
            | member hlt =>
                cases hrole
                have hmem := (lookup_eq_some_iff_mem hordered.nodup).mp hpart
                exact clean_attributeValue (hbefore _ (hordered.mem_before hmem hlt))
  | null => exact reports_refuse rfl
  | bool value => exact reports_refuse rfl
  | number value => exact reports_refuse rfl
  | string text => exact reports_refuse rfl
  | array items => exact reports_refuse rfl

/-! ## Rules -/

theorem reports_fieldValue {key : String} {outcome : Except CompileError Rule}
    (h : match Role.fieldViolation? scope key value with
      | some violation => outcome = refuse place violation
      | none => ∃ rule, outcome = .ok rule) :
    Reports scope (.fieldValue key) value place outcome := by
  cases hviolation : Role.fieldViolation? scope key value with
  | some violation =>
      rw [hviolation] at h
      rw [h]
      exact reports_refuse hviolation
  | none =>
      rw [hviolation] at h
      obtain ⟨rule, rfl⟩ := h
      have hself : (Role.fieldValue key).violation? scope value = none := hviolation
      apply Role.clean_of_parts hself
      intro segment role' part hrole _
      cases segment <;> cases hrole

theorem reports_compileField {key : String} (hfield : IsFieldName key) :
    Reports compiler.scope (.fieldValue key) value place (compiler.compileField place key value) := by
  obtain ⟨hne, hdollar, -⟩ := hfield
  apply reports_fieldValue
  rw [Role.fieldViolation?, if_neg hdollar, if_neg hne]
  cases value with
  | string raw =>
      simp only [compileField, isScalar, Role.templateError?]
      cases compiler.scope.resolve raw with
      | ok source => exact ⟨_, rfl⟩
      | error error => rfl
  | bool value => exact ⟨_, rfl⟩
  | number value => exact ⟨_, rfl⟩
  | null => rfl
  | array items => rfl
  | object members => rfl

theorem reports_compileLeaf {key : String} (hkey : connective? key = none)
    (hvalue : value.Canonical) :
    Reports compiler.scope (Role.ofKey key) value place (compiler.compileLeaf place key value) := by
  rw [Role.ofKey, hkey, compileLeaf]
  by_cases hdollar : key.toList.head? = some '$'
  · -- An operator that is not known is refused whatever its value is.
    have hcondition : key ≠ conditionKey := by
      rintro rfl
      exact head?_conditionKey hdollar
    have hviolation : Role.fieldViolation? compiler.scope key value =
        some (.unknownOperator key) := if_pos hdollar
    simp only [if_pos hdollar, if_neg hcondition]
    exact reports_refuse hviolation
  · rw [if_neg hdollar]
    by_cases hcondition : key = conditionKey
    · simp only [if_pos hcondition]
      exact reports_compileCondition hvalue
    · simp only [if_neg hcondition]
      by_cases hempty : key = ""
      · have hviolation : Role.fieldViolation? compiler.scope key value =
            some (.malformed .emptyField) := by
          rw [Role.fieldViolation?, if_neg hdollar, if_pos hempty]
        rw [if_pos hempty]
        exact reports_refuse hviolation
      · rw [if_neg hempty]
        exact reports_compileField ⟨hempty, hdollar, hcondition⟩

theorem compileAt_composite (connective : Connective) (value : Json) :
    compileAt compiler place (.object [(connective.operator, value)]) =
      (compileComposite compiler (place.member connective.operator) connective.operator value).map
        (.composite connective) := by
  rw [compileAt, connective?_operator]
  simp only
  cases compileComposite compiler (place.member connective.operator) connective.operator value <;>
    rfl

@[simp] theorem ofKey_operator (connective : Connective) :
    Role.ofKey connective.operator = .subrules connective := by
  rw [Role.ofKey, connective?_operator]

/-- Compiling reports the first violation. The recursion is on the declared rule. -/
theorem reports_compileAt (raw : Json) (hraw : raw.Canonical) (place : Location) :
    Reports compiler.scope .rule raw place (compileAt compiler place raw) := by
  match raw with
  | .object [] =>
      apply Role.clean_of_parts rfl
      intro segment role' part _ hpart
      cases segment <;> cases hpart
  | .object [(key, value)] =>
      have hvalue : value.Canonical := (Json.canonicalMembers_iff.mp hraw.2) _ List.mem_cons_self
      apply Reports.member
      cases hkey : connective? key with
      | none =>
          rw [compileAt, hkey]
          exact reports_compileLeaf hkey hvalue
      | some connective =>
          obtain rfl := connective?_eq_some hkey
          rw [compileAt_composite, ofKey_operator]
          apply Reports.map
          apply reports_compileComposite
          intro items hitems item hitem here
          have hsize : sizeOf item < sizeOf value := by
            have hlt := List.sizeOf_lt_of_mem hitem
            rw [hitems, Json.array.sizeOf_spec]
            omega
          rw [hitems] at hvalue
          exact reports_compileAt item ((Json.canonicalItems_iff.mp hvalue) item hitem) here
  | .object (first :: second :: rest) =>
      apply reports_refuse
      simp [Role.violation?]
  | .null => exact reports_refuse rfl
  | .bool value => exact reports_refuse rfl
  | .number value => exact reports_refuse rfl
  | .string text => exact reports_refuse rfl
  | .array items => exact reports_refuse rfl
termination_by sizeOf raw
decreasing_by
  simp only [Json.object.sizeOf_spec, List.cons.sizeOf_spec, Prod.mk.sizeOf_spec]
  omega

/-- A declared rule is refused exactly for its first violation. -/
theorem compileAt_eq_error_iff {raw : Json} (hraw : raw.Canonical) {error : CompileError} :
    compileAt compiler place raw = .error error ↔ ∃ address violation,
      Role.rule.FirstViolation compiler.scope raw address violation ∧
        error = ⟨(place.follow address).display, violation⟩ := by
  have hreports := @reports_compileAt compiler raw hraw place
  constructor
  · intro h
    rwa [h] at hreports
  · rintro ⟨address, violation, hfirst, rfl⟩
    cases houtcome : compileAt compiler place raw with
    | ok rule =>
        rw [houtcome] at hreports
        have hnone := hreports address
        rw [hfirst.here] at hnone
        cases hnone
    | error error =>
        -- The error is about a first violation, and there is only one.
        rw [houtcome] at hreports
        obtain ⟨address', violation', hfirst', rfl⟩ := hreports
        obtain ⟨rfl, rfl⟩ := hfirst.unique hfirst'
        rfl

/-! ## Composites and policy sets -/

/-- A composite fails with the error of its first sub-rule that does not compile. -/
theorem compileAt_composite_eq_error_iff {connective : Connective} {items : List Json}
    (hne : items ≠ []) {error : CompileError} :
    compileAt compiler place (.object [(connective.operator, .array items)]) = .error error ↔
      ∃ before item after, items = before ++ item :: after ∧
        (∀ sibling ∈ before, ∃ rule, Compiles compiler.scope sibling rule) ∧
        compileAt compiler ((place.member connective.operator).item before.length) item =
          .error error := by
  rw [compileAt_composite, compileComposite_array hne]
  have hitems := @compileItems_eq_error_iff compiler (place.member connective.operator) 0 items error
  simp only [Nat.zero_add] at hitems
  rw [← hitems]
  cases compileItems compiler (place.member connective.operator) 0 items <;> simp

/-- A policy set fails with the error of its rule for reading, or else of its rule for writing. -/
theorem compileSet_eq_error_iff {read write : Json} {error : CompileError} :
    compiler.compileSet read write = .error error ↔
      (∃ error', compiler.compile read = .error error' ∧
        error = error'.under Operation.read.name) ∨
      ∃ rule error', compiler.compile read = .ok rule ∧ compiler.compile write = .error error' ∧
        error = error'.under Operation.write.name := by
  rw [compileSet, compileFor, compileFor]
  cases compiler.compile read with
  | error error' => simp [Except.mapError, eq_comm]
  | ok rule => cases compiler.compile write <;> simp [Except.mapError, eq_comm]

end RowPolicy
