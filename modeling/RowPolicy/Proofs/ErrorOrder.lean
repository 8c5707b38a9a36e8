import RowPolicy.Proofs.CompileErrors
import RowPolicy.Proofs.ReadingSurface

/-!
# Errors follow the order of reading

A declared rule may have many violations, and the error is about the one that is read first. What is
read after it can be changed without changing the error, location included. A policy set reads the rule
for reading before the rule for writing.
-/

namespace RowPolicy

open Compiler

/-! ## Refusals -/

/-- A declared rule is refused for a violation, wherever the error locates it. -/
def Compiler.Refuses (compiler : Compiler) (raw : Json) (violation : Violation) : Prop :=
  ∃ location, compiler.compile raw = .error ⟨location, violation⟩

variable {compiler : Compiler} {connective : Connective} {raw : Json} {items : List Json}
  {members : List (String × Json)} {violation : Violation}

theorem exists_refuses_iff :
    (∃ violation, compiler.Refuses raw violation) ↔ ¬ ∃ rule, compiler.compile raw = .ok rule := by
  cases hcompile : compiler.compile raw with
  | ok rule => simp [Refuses, hcompile]
  | error error => exact iff_of_true ⟨error.violation, error.location, hcompile⟩ (by simp)

theorem refuses_iff_firstViolation (hraw : raw.Canonical) :
    compiler.Refuses raw violation ↔
      ∃ address, Role.rule.FirstViolation compiler.scope raw address violation := by
  simp only [Refuses, compile, compileAt_eq_error_iff hraw, CompileError.mk.injEq]
  constructor
  · rintro ⟨location, address, violation', hfirst, -, rfl⟩
    exact ⟨address, hfirst⟩
  · rintro ⟨address, hfirst⟩
    exact ⟨_, address, violation, hfirst, rfl, rfl⟩

theorem exists_refuses_iff_violationAt? (hraw : raw.Canonical) :
    (∃ violation, compiler.Refuses raw violation) ↔
      ∃ address violation, Role.rule.violationAt? compiler.scope raw address = some violation := by
  constructor
  · rintro ⟨violation, hrefuses⟩
    obtain ⟨address, hfirst⟩ := (refuses_iff_firstViolation hraw).mp hrefuses
    exact ⟨address, violation, hfirst.here⟩
  · rintro ⟨address, violation, hviolation⟩
    rw [exists_refuses_iff]
    rintro ⟨rule, hcompile⟩
    have hreports := @reports_compileAt compiler raw hraw ""
    rw [compile] at hcompile
    rw [hcompile] at hreports
    rw [hreports address] at hviolation
    cases hviolation

/-- For what a declared rule is refused does not depend on its place. -/
theorem exists_compileAt_eq_error_iff (hraw : raw.Canonical) (place : Location) :
    (∃ location, compileAt compiler place raw = .error ⟨location, violation⟩) ↔
      compiler.Refuses raw violation := by
  rw [refuses_iff_firstViolation hraw]
  simp only [compileAt_eq_error_iff hraw, CompileError.mk.injEq]
  constructor
  · rintro ⟨location, address, violation', hfirst, -, rfl⟩
    exact ⟨address, hfirst⟩
  · rintro ⟨address, hfirst⟩
    exact ⟨_, address, violation, hfirst, rfl, rfl⟩

/-- A composite is refused for what its first refused sub-rule is refused for. -/
theorem refuses_composite_iff (hitems : ∀ item ∈ items, item.Canonical) (hne : items ≠ []) :
    compiler.Refuses (.object [(connective.operator, .array items)]) violation ↔
      ∃ before item after, items = before ++ item :: after ∧
        (∀ sibling ∈ before, ∃ rule, compiler.compile sibling = .ok rule) ∧
        compiler.Refuses item violation := by
  simp only [compile_eq_ok_iff]
  constructor
  · rintro ⟨location, hcompile⟩
    obtain ⟨before, item, after, rfl, hbefore, hitem⟩ :=
      (compileAt_composite_eq_error_iff hne).mp hcompile
    exact ⟨before, item, after, rfl, hbefore,
      (exists_compileAt_eq_error_iff (hitems item (by simp)) _).mp ⟨location, hitem⟩⟩
  · rintro ⟨before, item, after, rfl, hbefore, hrefuses⟩
    obtain ⟨location, hitem⟩ := (exists_compileAt_eq_error_iff (hitems item (by simp))
      ((Location.member "" connective.operator).item before.length)).mpr hrefuses
    exact ⟨location, (compileAt_composite_eq_error_iff hne).mpr
      ⟨before, item, after, rfl, hbefore, hitem⟩⟩

theorem exists_refuses_composite_iff (hne : items ≠ []) :
    (∃ violation, compiler.Refuses (.object [(connective.operator, .array items)]) violation) ↔
      ∃ item ∈ items, ∃ violation, compiler.Refuses item violation := by
  have hcompiles : (∃ rule, compiler.compile (.object [(connective.operator, .array items)]) =
      .ok rule) ↔ ∀ item ∈ items, ∃ rule, compiler.compile item = .ok rule := by
    simp only [compile_eq_ok_iff]
    rw [← @compileItems_eq_ok_iff compiler (Location.member "" connective.operator) 0 items]
    simp only [← compile_eq_ok_iff, compile, compileAt_composite, compileComposite_array hne]
    cases compileItems compiler (Location.member "" connective.operator) 0 items <;> simp
  simp only [exists_refuses_iff, hcompiles]
  push Not
  rfl

theorem compile_condition (value : Json) :
    compiler.compile (.object [(conditionKey, value)]) = compileCondition conditionKey value := by
  have hconnective : connective? conditionKey = none := connective?_eq_none head?_conditionKey
  have hmember : Location.member "" conditionKey = conditionKey := if_pos rfl
  rw [compile, compileAt, hconnective]
  simp only [compileLeaf, if_neg head?_conditionKey, hmember, if_pos]

/-- A condition is refused for what is wrong with the first attribute, in the order of the keys, that
something is wrong with. -/
theorem refuses_condition_iff (hordered : Ordered members) (hne : members ≠ []) :
    compiler.Refuses (.object [(conditionKey, .object members)]) violation ↔
      ∃ name expected, (name, expected) ∈ members ∧
        Role.attributeViolation? name expected = some violation ∧
        ∀ entry ∈ members, entry.1 < name → Role.attributeViolation? entry.1 entry.2 = none := by
  have houtcome := compileCondition_object conditionKey hne
  simp only [Refuses, compile_condition, houtcome]
  rcases checkAttributes_cases conditionKey members with
    ⟨hok, hall⟩ | ⟨before, name, expected, after, violation', hmembers, hbefore, hviolation, herror⟩
  · rw [hok]
    apply iff_of_false
    · rintro ⟨location, hcompile⟩
      cases hcompile
    · rintro ⟨name, expected, hmem, hviolation, -⟩
      rw [hall _ hmem] at hviolation
      cases hviolation
  · rw [herror]
    have hmem : (name, expected) ∈ members := by simp [hmembers]
    have hsmaller : ∀ entry ∈ members, entry.1 < name →
        Role.attributeViolation? entry.1 entry.2 = none := by
      intro entry hentry hlt
      rw [hmembers] at hordered hentry
      exact hbefore entry (hordered.mem_before hentry hlt)
    constructor
    · rintro ⟨location, hcompile⟩
      cases hcompile
      exact ⟨name, expected, hmem, hviolation, hsmaller⟩
    · rintro ⟨name', expected', hmem', hviolation', hsmaller'⟩
      -- With a smaller key the one attribute would be in order by what is known of the other.
      have hname : name = name' := by
        apply String.le_antisymm
        · rw [← String.not_lt]
          intro hlt
          rw [hsmaller _ hmem' hlt] at hviolation'
          cases hviolation'
        · rw [← String.not_lt]
          intro hlt
          rw [hsmaller' _ hmem hlt] at hviolation
          cases hviolation
      subst hname
      rw [← lookup_eq_some_iff_mem hordered.nodup] at hmem hmem'
      cases hmem.symm.trans hmem'
      cases hviolation.symm.trans hviolation'
      exact ⟨_, rfl⟩

theorem exists_refuses_condition_iff (hne : members ≠ []) :
    (∃ violation, compiler.Refuses (.object [(conditionKey, .object members)]) violation) ↔
      ∃ entry ∈ members, (Role.attributeViolation? entry.1 entry.2).isSome := by
  have houtcome := compileCondition_object conditionKey hne
  simp only [Refuses, compile_condition, houtcome]
  rcases checkAttributes_cases conditionKey members with
    ⟨hok, hall⟩ | ⟨before, name, expected, after, violation, rfl, -, hviolation, herror⟩
  · rw [hok]
    apply iff_of_false
    · rintro ⟨violation, location, hcompile⟩
      cases hcompile
    · rintro ⟨entry, hmem, hviolation⟩
      rw [hall entry hmem] at hviolation
      cases hviolation
  · rw [herror]
    refine iff_of_true ⟨violation, _, rfl⟩ ⟨(name, expected), by simp, ?_⟩
    rw [hviolation, Option.isSome_some]

/-- Declared rules that reading up to a first violation does not tell apart have the same error. -/
theorem compile_eq_of_agreeUpTo {raw' : Json} {address : Address} (hraw : raw.Canonical)
    (hraw' : raw'.Canonical)
    (hfirst : Role.rule.FirstViolation compiler.scope raw address violation)
    (hagree : Role.rule.AgreeUpTo raw raw' address) :
    compiler.compile raw' = compiler.compile raw := by
  have hcompile : compiler.compile raw = .error ⟨(Location.follow "" address).display, violation⟩ :=
    (compileAt_eq_error_iff hraw).mpr ⟨address, violation, hfirst, rfl⟩
  rw [hcompile]
  exact (compileAt_eq_error_iff hraw').mpr ⟨address, violation, hfirst.of_agreeUpTo hagree, rfl⟩

/-- A composite is refused for its first refused sub-rule, a condition for its first bad attribute, and
any declared rule for its first violation in the order of reading. What is read later has no influence
on the error. A policy set is refused for its rule for reading, or else for its rule for writing. -/
theorem errors_follow_reading_order (compiler : Compiler) :
    (∀ (connective : Connective) (items : List Json), items ≠ [] →
      (∀ item ∈ items, item.Canonical) →
      ((∃ violation, compiler.Refuses (.object [(connective.operator, .array items)]) violation) ↔
        ∃ item ∈ items, ∃ violation, compiler.Refuses item violation) ∧
      ∀ violation, compiler.Refuses (.object [(connective.operator, .array items)]) violation ↔
        ∃ before item after, items = before ++ item :: after ∧
          (∀ sibling ∈ before, ∃ rule, compiler.compile sibling = .ok rule) ∧
          compiler.Refuses item violation) ∧
    (∀ members : List (String × Json), members ≠ [] → (Json.object members).Canonical →
      ((∃ violation, compiler.Refuses (.object [(conditionKey, .object members)]) violation) ↔
        ∃ entry ∈ members, (Role.attributeViolation? entry.1 entry.2).isSome) ∧
      ∀ violation, compiler.Refuses (.object [(conditionKey, .object members)]) violation ↔
        ∃ name expected, (name, expected) ∈ members ∧
          Role.attributeViolation? name expected = some violation ∧
          ∀ entry ∈ members, entry.1 < name → Role.attributeViolation? entry.1 entry.2 = none) ∧
    (∀ raw : Json, raw.Canonical →
      ((∃ violation, compiler.Refuses raw violation) ↔
        ∃ address violation, Role.rule.violationAt? compiler.scope raw address = some violation) ∧
      ∀ violation, compiler.Refuses raw violation ↔
        ∃ address, Role.rule.FirstViolation compiler.scope raw address violation) ∧
    (∀ raw address violation, raw.Canonical →
      Role.rule.FirstViolation compiler.scope raw address violation →
      (∀ raw' : Json, raw'.Canonical → Role.rule.AgreeUpTo raw raw' address →
        compiler.compile raw' = compiler.compile raw) ∧
      ∀ (later : Address) (new : Json), address.Before later → new.Canonical →
        compiler.compile (raw.put later new) = compiler.compile raw) ∧
    (∀ read error, compiler.compile read = .error error → ∀ write,
      compiler.compileSet read write = .error (error.under Operation.read.name)) ∧
    ∀ read rule, compiler.compile read = .ok rule → ∀ write error,
      compiler.compileSet read write = .error error ↔
        ∃ error', compiler.compile write = .error error' ∧
          error = error'.under Operation.write.name := by
  refine ⟨?composites, ?conditions, ?rules, ?later, ?reading, ?writing⟩
  case composites =>
    intro connective items hne hitems
    exact ⟨exists_refuses_composite_iff hne, fun _ => refuses_composite_iff hitems hne⟩
  case conditions =>
    intro members hne hmembers
    exact ⟨exists_refuses_condition_iff hne, fun _ => refuses_condition_iff hmembers.1 hne⟩
  case rules =>
    intro raw hraw
    exact ⟨exists_refuses_iff_violationAt? hraw, fun _ => refuses_iff_firstViolation hraw⟩
  case later =>
    intro raw address violation hraw hfirst
    refine ⟨fun raw' hraw' => compile_eq_of_agreeUpTo hraw hraw' hfirst, ?_⟩
    intro later new hlater hnew
    exact compile_eq_of_agreeUpTo hraw (canonical_put hraw hnew later) hfirst (agreeUpTo_put hlater)
  case reading =>
    intro read error hread write
    exact compileSet_eq_error_iff.mpr (Or.inl ⟨error, hread, rfl⟩)
  case writing =>
    intro read rule hread write error
    rw [compileSet_eq_error_iff, hread]
    simp

/-! ## Several violations at once -/

def muddledAttributes : List (String × Json) :=
  [("age", .array []), ("role", .string "\x7b\x7buser.role\x7d\x7d")]

def muddled : Json := .object [("user_condition", .object muddledAttributes)]

def muddledAlternatives : Json := .object [("$or", .array [.object [], muddled, .null])]

theorem muddledAttributes_before_age :
    ∀ entry ∈ muddledAttributes, entry.1 < "age" →
      Role.attributeViolation? entry.1 entry.2 = none := by
  intro entry hentry hlt
  simp only [muddledAttributes, List.mem_cons, List.not_mem_nil, or_false] at hentry
  rcases hentry with rfl | rfl <;> exact absurd hlt (by decide)

theorem errors_follow_reading_order_muddled :
    Compiler.Refuses {} muddledAlternatives (.malformed (.notScalar "array")) ∧
    Compiler.compile {} (muddled.put [.member "user_condition", .member "role"] .null) =
      Compiler.compile {} muddled ∧
    Compiler.compileSet {} muddled .null =
      .error ⟨"read.user_condition.age", .malformed (.notScalar "array")⟩ := by
  obtain ⟨hcomposites, hconditions, -, hlater, hreading, -⟩ := errors_follow_reading_order {}
  have hattributes : (Json.object muddledAttributes).Canonical := by
    refine ⟨?_, by simp [muddledAttributes, Json.CanonicalMembers, Json.Canonical, Json.CanonicalItems]⟩
    simp only [Ordered, muddledAttributes, List.map_cons, List.map_nil, List.pairwise_cons]
    decide
  have hmuddled : muddled.Canonical := ⟨List.pairwise_singleton _ _, hattributes, trivial⟩
  refine ⟨?_, ?_, hreading muddled _ rfl .null⟩
  · have hrefuses : Compiler.Refuses {} muddled (.malformed (.notScalar "array")) :=
      ((hconditions _ (List.cons_ne_nil _ _) hattributes).2 _).mpr
        ⟨"age", .array [], by simp, by decide, muddledAttributes_before_age⟩
    have hitems : ∀ item ∈ [.object [], muddled, .null], Json.Canonical item := by
      simp [hmuddled, Json.Canonical, Json.CanonicalMembers, Ordered]
    exact ((hcomposites .any _ (List.cons_ne_nil _ _) hitems).2 _).mpr
      ⟨[.object []], muddled, [.null], rfl, List.forall_mem_singleton.mpr ⟨_, rfl⟩, hrefuses⟩
  · have hage : Role.attributes.FirstViolation Namespace.standard (.object muddledAttributes)
        [.member "age"] (.malformed (.notScalar "array")) := by
      apply Role.FirstViolation.inside rfl rfl rfl _ (.root rfl)
      intro segment hsegment role part hrole hpart
      cases hsegment with
      | member hlt =>
          cases hrole
          have hmem := (lookup_eq_some_iff_mem hattributes.1.nodup).mp hpart
          exact clean_attributeValue (muddledAttributes_before_age _ hmem hlt)
    have hlt : Segment.Before (.member "age") (.member "role") := .member (by decide)
    exact (hlater muddled _ _ hmuddled (.singleton hage)).2 _ .null (.cons (.rel hlt)) trivial

end RowPolicy
