import RowPolicy.Proofs.CompileErrors
import RowPolicy.Proofs.DirectReading
import RowPolicy.Proofs.Footprint
import RowPolicy.Proofs.TemplateLanguage

/-!
# Namespaces and templates

A namespace matters for the templates of a declared rule only. Where it is too small for one of
them the rule is refused for the first such template in the order of reading, and otherwise the
outcome is the one for any larger namespace. The attributes of a condition need not be known.
-/

namespace RowPolicy

open Compiler

/-! ## References -/

/-- The attribute that a condition compares a field with, if it does. -/
def Condition.references : Condition → List String
  | .fieldEquals _ source => source.attributes
  | .attributeMatch _ => []

def Rule.references (rule : Rule) : List String := rule.conditions.flatMap Condition.references

/-- The template of an attribute stands at an address of a declared rule, as the value of a field.
-/
def Json.RefersAt (raw : Json) (address : Address) (name : String) : Prop :=
  ∃ key text, Role.rule.reach? raw address = some (.fieldValue key, .string text) ∧
    Template.RefersTo text name

namespace Namespace

def Within (A B : Namespace) : Prop := ∀ name, A.contains name = true → B.contains name = true

def addAll (scope : Namespace) (names : List String) : Namespace := names.foldl add scope

/-- The first template of a declared rule whose attribute the namespace lacks. -/
structure FirstUnknown (scope : Namespace) (raw : Json) (address : Address) (name : String) :
    Prop where
  here : raw.RefersAt address name
  unknown : scope.contains name = false
  earlier : ∀ before name', Address.Before before address → raw.RefersAt before name' →
    scope.contains name' = true

def unknownAt (address : Address) (name : String) : CompileError :=
  ⟨(Location.follow "" address).display, .template (.unknownReference (TemplateRef.path ⟨name⟩))⟩

theorem contains_addAll (scope : Namespace) (names : List String) (name : String) :
    (scope.addAll names).contains name = true ↔ scope.contains name = true ∨ name ∈ names := by
  induction names generalizing scope with
  | nil => simp [addAll]
  | cons added names ih =>
      have hstep : scope.addAll (added :: names) = (scope.add added).addAll names := rfl
      rw [hstep, ih]
      simp [add, contains, or_assoc]

end Namespace

variable {A B : Namespace} {raw : Json} {rule : Rule} {role : Role} {value : Json}
  {address : Address} {name : String}

theorem Rule.mem_references_composite {connective : Connective} {rules : List Rule} :
    name ∈ (composite connective rules).references ↔ ∃ rule ∈ rules, name ∈ rule.references := by
  simp only [references, conditions, conditionsOf_eq_flatMap, List.mem_flatMap]
  constructor
  · rintro ⟨condition, ⟨rule, hrule, hcondition⟩, hname⟩
    exact ⟨rule, hrule, condition, hcondition, hname⟩
  · rintro ⟨rule, hrule, condition, hcondition, hname⟩
    exact ⟨condition, ⟨rule, hrule, hcondition⟩, hname⟩

/-! ## What is accepted -/

theorem Compiles.contains_references (h : Compiles A raw rule) :
    ∀ name ∈ rule.references, A.contains name = true := by
  induction h with
  | composite connective _ hlength _ ih =>
      intro name hname
      obtain ⟨rule, hrule, hname⟩ := Rule.mem_references_composite.mp hname
      obtain ⟨item, -, hitem⟩ := exists_left_of_forall₂ (forall₂_of_zip hlength ih) hrule
      exact hitem name hname
  | template _ _ hknown => simpa [Rule.references, Rule.conditions, Condition.references,
      ValueSource.attributes] using hknown
  | _ => simp [Rule.references, Rule.conditions, Condition.references, ValueSource.attributes]

/-- A namespace with the attributes that a compiled rule refers to is as good as any other. -/
theorem Compiles.of_references (h : Compiles B raw rule)
    (hknown : ∀ name ∈ rule.references, A.contains name = true) : Compiles A raw rule := by
  induction h with
  | unrestricted => exact .unrestricted
  | composite connective hne hlength _ ih =>
      refine .composite connective hne hlength fun item rule hpair => ih item rule hpair ?_
      intro name hname
      exact hknown name
        (Rule.mem_references_composite.mpr ⟨rule, (List.of_mem_zip hpair).2, hname⟩)
  | condition hne hmembers => exact .condition hne hmembers
  | literal hfield hplain => exact .literal hfield hplain
  | @template field raw name hfield hrefers _ =>
      have hname : name ∈ [name] := List.mem_singleton_self name
      exact .template hfield hrefers (hknown name hname)

theorem Compiles.mono (h : Compiles A raw rule) (hwithin : A.Within B) : Compiles B raw rule :=
  h.of_references fun name hname => hwithin name (h.contains_references name hname)

theorem Compiles.iff_references (h : Compiles B raw rule) :
    Compiles A raw rule ↔ ∀ name ∈ rule.references, A.contains name = true :=
  ⟨Compiles.contains_references, h.of_references⟩

/-- A declared rule compiles to one rule only, in whatever namespaces it does. -/
theorem Compiles.unique_across {rule' : Rule} (h : Compiles A raw rule)
    (h' : Compiles B raw rule') : rule = rule' := by
  have hleft : A.Within (A.addAll B.names) := fun name hname =>
    (Namespace.contains_addAll A B.names name).mpr (Or.inl hname)
  have hright : B.Within (A.addAll B.names) := fun name hname =>
    (Namespace.contains_addAll A B.names name).mpr (Or.inr (List.contains_iff_mem.mp hname))
  exact (h.mono hleft).unique (h'.mono hright)

/-! ## What is refused -/

theorem Namespace.resolve_congr {text : String}
    (h : ∀ name, Template.RefersTo text name → A.contains name = B.contains name) :
    A.resolve text = B.resolve text := by
  rw [resolve, resolve]
  split
  · next ref hparse =>
    rw [h ref.name (Template.parse_eq_template_iff.mp hparse)]
  · rfl

/-- What is wrong with a value depends on the namespace only if it is a template of a field. -/
theorem Role.violation?_congr
    (h : ∀ key text name, role = .fieldValue key → value = .string text →
      Template.RefersTo text name → A.contains name = B.contains name) :
    role.violation? A value = role.violation? B value := by
  cases role with
  | fieldValue key =>
      have htemplate : templateError? A value = templateError? B value := by
        cases value with
        | string text =>
            simp only [templateError?, Namespace.resolve_congr fun name hrefers =>
              h key text name rfl rfl hrefers]
        | _ => rfl
      simp only [violation?, fieldViolation?, htemplate]
  | rule => cases value <;> rfl
  | subrules connective => cases value <;> rfl
  | attributes => cases value <;> rfl
  | attributeValue name => rfl

theorem Role.templateError?_of_refersTo {text : String} (h : Template.RefersTo text name) :
    templateError? A (.string text) =
      if A.contains name then none else some (.unknownReference (TemplateRef.path ⟨name⟩)) := by
  cases hknown : A.contains name with
  | true =>
      have hresolve := Namespace.resolve_eq_template_iff.mpr ⟨h, hknown⟩
      simp [templateError?, hresolve]
  | false =>
      have hname : name ∉ A.names := by simpa [Namespace.contains] using hknown
      have hresolve := Namespace.resolve_of_unknown (Template.parse_eq_template_iff.mpr h) hname
      simp only [templateError?, hresolve]
      rfl

/-- Where nothing is wrong in one namespace, only an unknown attribute in a template can be wrong in
another. -/
theorem Role.violation?_eq_some_iff {violation : Violation}
    (hclean : role.violation? B value = none) :
    role.violation? A value = some violation ↔ ∃ name, A.contains name = false ∧
      violation = .template (.unknownReference (TemplateRef.path ⟨name⟩)) ∧
      ∃ key text, role = .fieldValue key ∧ value = .string text ∧ Template.RefersTo text name := by
  have htemplate : ∀ key text name, role = .fieldValue key → value = .string text →
      Template.RefersTo text name → B.contains name = true ∧ role.violation? A value =
        if A.contains name then none
        else some (.template (.unknownReference (TemplateRef.path ⟨name⟩))) := by
    rintro key text name rfl rfl hrefers
    rw [violation?, fieldViolation?, templateError?_of_refersTo hrefers] at hclean ⊢
    split_ifs at hclean with hdollar hempty hscalar hknown
    · rw [if_neg hdollar, if_neg hempty, if_neg hscalar]
      exact ⟨hknown, by split_ifs <;> rfl⟩
    · cases hclean
  constructor
  · intro h
    -- The namespaces differ on the attribute of a template, and the second one has it.
    by_contra hnone
    have hsame : role.violation? A value = role.violation? B value := by
      apply violation?_congr
      intro key text name hrole hvalue hrefers
      obtain ⟨hknown, hviolation⟩ := htemplate key text name hrole hvalue hrefers
      cases hunknown : A.contains name with
      | true => exact hknown.symm
      | false =>
          rw [h, hunknown, if_neg Bool.false_ne_true] at hviolation
          have hsome := Option.some.inj hviolation
          exact absurd ⟨name, hunknown, hsome, key, text, hrole, hvalue, hrefers⟩ hnone
    rw [h, hclean] at hsame
    cases hsame
  · rintro ⟨name, hunknown, rfl, key, text, hrole, hvalue, hrefers⟩
    rw [(htemplate key text name hrole hvalue hrefers).2, hunknown]
    rfl

/-! ## Errors -/

theorem violationAt?_congr
    (h : ∀ address name, raw.RefersAt address name → A.contains name = B.contains name)
    (address : Address) :
    Role.rule.violationAt? A raw address = Role.rule.violationAt? B raw address := by
  rw [Role.violationAt?, Role.violationAt?]
  cases hreach : Role.rule.reach? raw address with
  | none => rfl
  | some found =>
      apply Role.violation?_congr
      intro key text name hrole hvalue hrefers
      have hfound : found = (.fieldValue key, .string text) := Prod.ext hrole hvalue
      exact h address name ⟨key, text, hfound ▸ hreach, hrefers⟩

theorem firstViolation_congr {violation : Violation}
    (h : ∀ address, Role.rule.violationAt? A raw address = Role.rule.violationAt? B raw address) :
    Role.rule.FirstViolation A raw address violation ↔
      Role.rule.FirstViolation B raw address violation := by
  constructor
  · rintro ⟨hhere, hearlier⟩
    exact ⟨(h _).symm.trans hhere, fun before hbefore => (h _).symm.trans (hearlier before hbefore)⟩
  · rintro ⟨hhere, hearlier⟩
    exact ⟨(h _).trans hhere, fun before hbefore => (h _).trans (hearlier before hbefore)⟩

/-- Two namespaces that agree on the templates of a declared rule have the same outcome for it. -/
theorem compile_congr (hraw : raw.Canonical)
    (h : ∀ address name, raw.RefersAt address name → A.contains name = B.contains name) :
    Compiler.compile ⟨A⟩ raw = Compiler.compile ⟨B⟩ raw := by
  have herror : ∀ error, Compiler.compile ⟨A⟩ raw = .error error ↔
      Compiler.compile ⟨B⟩ raw = .error error := by
    intro error
    rw [compile, compile, compileAt_eq_error_iff hraw, compileAt_eq_error_iff hraw]
    simp only [firstViolation_congr (violationAt?_congr h)]
  cases hA : Compiler.compile ⟨A⟩ raw with
  | error error => exact ((herror error).mp hA).symm
  | ok rule =>
      cases hB : Compiler.compile ⟨B⟩ raw with
      | error error =>
          rw [(herror error).mpr hB] at hA
          cases hA
      | ok rule' =>
          rw [(compile_eq_ok_iff.mp hA).unique_across (compile_eq_ok_iff.mp hB)]

theorem violationAt?_eq_some_iff {violation : Violation} (hclean : Role.rule.Clean B raw) :
    Role.rule.violationAt? A raw address = some violation ↔ ∃ name, A.contains name = false ∧
      violation = .template (.unknownReference (TemplateRef.path ⟨name⟩)) ∧
      raw.RefersAt address name := by
  have hnone := hclean address
  rw [Role.violationAt?] at hnone ⊢
  simp only [Json.RefersAt]
  cases hreach : Role.rule.reach? raw address with
  | none => simp
  | some found =>
      rw [hreach, Option.bind_some] at hnone
      rw [Option.bind_some, Role.violation?_eq_some_iff hnone]
      simp only [Option.some.injEq, Prod.ext_iff, and_assoc]

/-- A rule that is accepted in one namespace is refused in another for its first template with an
unknown attribute. -/
theorem firstViolation_iff_firstUnknown {violation : Violation} (hclean : Role.rule.Clean B raw) :
    Role.rule.FirstViolation A raw address violation ↔ ∃ name, A.FirstUnknown raw address name ∧
      violation = .template (.unknownReference (TemplateRef.path ⟨name⟩)) := by
  constructor
  · rintro ⟨hhere, hearlier⟩
    obtain ⟨name, hunknown, hviolation, hrefers⟩ := (violationAt?_eq_some_iff hclean).mp hhere
    refine ⟨name, ⟨hrefers, hunknown, ?_⟩, hviolation⟩
    intro before name' hbefore hrefers'
    by_contra hname'
    rw [Bool.not_eq_true] at hname'
    have hviolation' := (violationAt?_eq_some_iff hclean).mpr ⟨name', hname', rfl, hrefers'⟩
    rw [hearlier before hbefore] at hviolation'
    cases hviolation'
  · rintro ⟨name, ⟨hrefers, hunknown, hearlier⟩, rfl⟩
    refine ⟨(violationAt?_eq_some_iff hclean).mpr ⟨name, hunknown, rfl, hrefers⟩, ?_⟩
    intro before hbefore
    rw [Option.eq_none_iff_forall_ne_some]
    intro violation hviolation
    obtain ⟨name', hunknown', -, hrefers'⟩ := (violationAt?_eq_some_iff hclean).mp hviolation
    rw [hearlier before name' hbefore hrefers'] at hunknown'
    cases hunknown'

theorem Compiles.clean (h : Compiles B raw rule) (hraw : raw.Canonical) :
    Role.rule.Clean B raw := by
  have hreports := @reports_compileAt ⟨B⟩ raw hraw ""
  have hcompile : compileAt ⟨B⟩ "" raw = .ok rule := compileAt_of_compiles h ""
  rwa [hcompile] at hreports

theorem contains_of_refersAt (hclean : Role.rule.Clean B raw) (h : raw.RefersAt address name) :
    B.contains name = true := by
  by_contra hunknown
  rw [Bool.not_eq_true] at hunknown
  have hviolation := (violationAt?_eq_some_iff hclean).mpr ⟨name, hunknown, rfl, h⟩
  rw [hclean address] at hviolation
  cases hviolation

/-- What happens in a namespace to a rule that is accepted in another: it is accepted, or refused
for its first template with an unknown attribute. -/
theorem Compiles.outcome (h : Compiles B raw rule) (hraw : raw.Canonical) (A : Namespace) :
    Compiler.compile ⟨A⟩ raw = .ok rule ∨ ∃ address name, A.FirstUnknown raw address name ∧
      B.contains name = true ∧
      Compiler.compile ⟨A⟩ raw = .error (Namespace.unknownAt address name) := by
  cases houtcome : Compiler.compile ⟨A⟩ raw with
  | ok rule' =>
      rw [(compile_eq_ok_iff.mp houtcome).unique_across h]
      exact Or.inl rfl
  | error error =>
      obtain ⟨address, violation, hfirst, rfl⟩ := (compileAt_eq_error_iff hraw).mp houtcome
      obtain ⟨name, hunknown, rfl⟩ := (firstViolation_iff_firstUnknown (h.clean hraw)).mp hfirst
      exact Or.inr ⟨address, name, hunknown,
        contains_of_refersAt (h.clean hraw) hunknown.here, rfl⟩

/-! ## Policy sets -/

variable {raws : Operation → Json} {set : PolicySet}

theorem compileSet_eq_ok_iff_compiles {compiler : Compiler} :
    compiler.compileSet (raws .read) (raws .write) = .ok set ↔
      ∀ operation, Compiles compiler.scope (raws operation) (set.rule operation) := by
  refine ⟨compiles_of_compileSet, fun h => ?_⟩
  exact compileSet_eq_ok_iff.mpr ⟨compile_eq_ok_iff.mpr (h .read), compile_eq_ok_iff.mpr (h .write)⟩

/-- Of a policy set the rule for reading is refused first. -/
theorem compileSet_outcome (hset : Compiler.compileSet ⟨B⟩ (raws .read) (raws .write) = .ok set)
    (hraws : ∀ operation, (raws operation).Canonical) (A : Namespace) :
    Compiler.compileSet ⟨A⟩ (raws .read) (raws .write) = .ok set ∨
      ∃ operation address name, A.FirstUnknown (raws operation) address name ∧
        B.contains name = true ∧
        (operation = .write → ∀ known ∈ set.read.references, A.contains known = true) ∧
        Compiler.compileSet ⟨A⟩ (raws .read) (raws .write) =
          .error ((Namespace.unknownAt address name).under operation.name) := by
  have hrules := compileSet_eq_ok_iff_compiles.mp hset
  rcases (hrules .read).outcome (hraws .read) A with hread | ⟨address, name, hfirst, hname, hread⟩
  · rcases (hrules .write).outcome (hraws .write) A with
      hwrite | ⟨address, name, hfirst, hname, hwrite⟩
    · exact Or.inl (compileSet_eq_ok_iff.mpr ⟨hread, hwrite⟩)
    · have hknown := (compile_eq_ok_iff.mp hread).contains_references
      exact Or.inr ⟨.write, address, name, hfirst, hname, fun _ => hknown,
        compileSet_eq_error_iff.mpr (Or.inr ⟨_, _, hread, hwrite, rfl⟩)⟩
  · exact Or.inr ⟨.read, address, name, hfirst, hname, nofun,
      compileSet_eq_error_iff.mpr (Or.inl ⟨_, hread, rfl⟩)⟩

/-- Two namespaces have the same outcomes for two declared rules, and for the policy set of them. -/
def Namespace.AgreeFor (A : Namespace) (raws : Operation → Json) (B : Namespace) : Prop :=
  (∀ operation, Compiler.compile ⟨A⟩ (raws operation) = Compiler.compile ⟨B⟩ (raws operation)) ∧
    Compiler.compileSet ⟨A⟩ (raws .read) (raws .write) =
      Compiler.compileSet ⟨B⟩ (raws .read) (raws .write)

theorem agreeFor_of_templates (hraws : ∀ operation, (raws operation).Canonical)
    (h : ∀ operation address name, (raws operation).RefersAt address name →
      A.contains name = B.contains name) : A.AgreeFor raws B := by
  have hrules : ∀ operation,
      Compiler.compile ⟨A⟩ (raws operation) = Compiler.compile ⟨B⟩ (raws operation) :=
    fun operation => compile_congr (hraws operation) (h operation)
  refine ⟨hrules, ?_⟩
  simp only [compileSet, compileFor, hrules]

/-- A declared rule under a namespace and under a larger one. -/
structure Gated (A B : Namespace) (raw : Json) (rule : Rule) : Prop where
  grown : Compiler.compile ⟨A⟩ raw = .ok rule → Compiler.compile ⟨B⟩ raw = .ok rule
  accepted : Compiler.compile ⟨B⟩ raw = .ok rule →
    (Compiler.compile ⟨A⟩ raw = .ok rule ↔ ∀ name ∈ rule.references, A.contains name = true)
  refused : Compiler.compile ⟨B⟩ raw = .ok rule → raw.Canonical →
    (∃ name ∈ rule.references, A.contains name = false) →
    ∃ address name, A.FirstUnknown raw address name ∧ B.contains name = true ∧
      Compiler.compile ⟨A⟩ raw = .error (Namespace.unknownAt address name)

/-- Two declared rules under a namespace and under a larger one; the rule for writing is refused
only if the one for reading is not. -/
structure GatedSet (A B : Namespace) (raws : Operation → Json) (set : PolicySet) : Prop where
  grown : Compiler.compileSet ⟨A⟩ (raws .read) (raws .write) = .ok set →
    Compiler.compileSet ⟨B⟩ (raws .read) (raws .write) = .ok set
  accepted : Compiler.compileSet ⟨B⟩ (raws .read) (raws .write) = .ok set →
    (Compiler.compileSet ⟨A⟩ (raws .read) (raws .write) = .ok set ↔
      ∀ operation, ∀ name ∈ (set.rule operation).references, A.contains name = true)
  refused : Compiler.compileSet ⟨B⟩ (raws .read) (raws .write) = .ok set →
    (∀ operation, (raws operation).Canonical) →
    (∃ operation, ∃ name ∈ (set.rule operation).references, A.contains name = false) →
    ∃ operation address name, A.FirstUnknown (raws operation) address name ∧
      B.contains name = true ∧
      (operation = .write → ∀ known ∈ set.read.references, A.contains known = true) ∧
      Compiler.compileSet ⟨A⟩ (raws .read) (raws .write) =
        .error ((Namespace.unknownAt address name).under operation.name)

theorem gated {A B : Namespace} (h : A.Within B) (raw : Json) (rule : Rule) :
    Gated A B raw rule where
  grown := by
    simp only [compile_eq_ok_iff]
    exact fun hA => hA.mono h
  accepted := by
    simp only [compile_eq_ok_iff]
    exact fun hB => hB.iff_references
  refused := by
    intro hB hraw ⟨name, hname, hunknown⟩
    rcases (compile_eq_ok_iff.mp hB).outcome hraw A with hA | hrefused
    · rw [(compile_eq_ok_iff.mp hA).contains_references name hname] at hunknown
      cases hunknown
    · exact hrefused

theorem gatedSet {A B : Namespace} (h : A.Within B) (raws : Operation → Json) (set : PolicySet) :
    GatedSet A B raws set where
  grown := by
    simp only [compileSet_eq_ok_iff_compiles]
    exact fun hA operation => (hA operation).mono h
  accepted := by
    simp only [compileSet_eq_ok_iff_compiles]
    exact fun hB => forall_congr' fun operation => (hB operation).iff_references
  refused := by
    intro hB hraws ⟨operation, name, hname, hunknown⟩
    rcases compileSet_outcome hB hraws A with hA | hrefused
    · have hrules := compileSet_eq_ok_iff_compiles.mp hA
      rw [(hrules operation).contains_references name hname] at hunknown
      cases hunknown
    · exact hrefused

/-- A larger namespace accepts what a smaller one does, as the same rule. What the larger one
accepts the smaller one accepts when it has the attributes of all templates in the rule, and
otherwise refuses for the first template whose attribute it lacks. The same holds of policy sets,
with the rule for reading first. Namespaces that agree on the attributes of templates agree
altogether, and it does not matter in which order or how often attributes are added. -/
theorem namespace_only_gates_templates :
    (∀ A B : Namespace, A.Within B → ∀ (raw : Json) (rule : Rule), Gated A B raw rule) ∧
    (∀ A B : Namespace, A.Within B → ∀ (raws : Operation → Json) (set : PolicySet),
      GatedSet A B raws set) ∧
    (∀ (raws : Operation → Json), (∀ operation, (raws operation).Canonical) → ∀ A B : Namespace,
      (∀ operation address name, (raws operation).RefersAt address name →
        A.contains name = B.contains name) → A.AgreeFor raws B) ∧
    ∀ (A : Namespace) (names : List String), A.Within (A.addAll names) ∧
      (∀ name, (A.addAll names).contains name = true ↔ A.contains name = true ∨ name ∈ names) ∧
      ∀ names', (∀ name, name ∈ names ↔ name ∈ names') → ∀ raws : Operation → Json,
        (∀ operation, (raws operation).Canonical) →
        (A.addAll names).AgreeFor raws (A.addAll names') := by
  refine ⟨fun _ _ => gated, fun _ _ => gatedSet, fun _ hraws _ _ => agreeFor_of_templates hraws, ?_⟩
  intro A names
  have hcontains := A.contains_addAll names
  refine ⟨fun name hname => (hcontains name).mpr (Or.inl hname), hcontains, ?_⟩
  intro names' hsame raws hraws
  apply agreeFor_of_templates hraws
  intro _ _ name _
  rw [Bool.eq_iff_iff, hcontains, A.contains_addAll, hsame]

/-- A declared rule for principals with some clearance, which no namespace here has, and for
members of the team of a record. -/
def clearedOrTeam : Json :=
  .object [("$or", .array
    [.object [("user_condition", .object [("clearance", .bool true)])],
      .object [("team", .string "\x7b\x7buser.team\x7d\x7d")]])]

def clearedOrTeamRule : Rule :=
  .composite .any [.leaf (.attributeMatch (Dict.ofList [("clearance", .bool true)])),
    .leaf (.fieldEquals "team" (.template ⟨"team"⟩))]

theorem namespace_only_gates_templates_team :
    let grown := Namespace.standard.addAll ["team", "id", "team"]
    Namespace.standard.Within grown ∧ clearedOrTeam.Canonical ∧
    Compiler.compile ⟨grown⟩ clearedOrTeam = .ok clearedOrTeamRule ∧
    (∃ name ∈ clearedOrTeamRule.references, Namespace.standard.contains name = false) ∧
    ∃ address name, Namespace.standard.FirstUnknown clearedOrTeam address name ∧
      grown.contains name = true ∧
      Compiler.compile ⟨Namespace.standard⟩ clearedOrTeam =
        .error (Namespace.unknownAt address name) := by
  intro grown
  obtain ⟨hrules, -, -, hgrowth⟩ := namespace_only_gates_templates
  have hwithin := (hgrowth Namespace.standard ["team", "id", "team"]).1
  have hcanonical : clearedOrTeam.Canonical := by
    simp [clearedOrTeam, Json.Canonical, Json.CanonicalItems, Json.CanonicalMembers, Ordered]
  have hgrown : Compiler.compile ⟨grown⟩ clearedOrTeam = .ok clearedOrTeamRule := rfl
  have hunknown : ∃ name ∈ clearedOrTeamRule.references, Namespace.standard.contains name = false :=
    ⟨"team", by simp [clearedOrTeamRule, Rule.references, Rule.conditions, Rule.conditionsOf,
      Condition.references, ValueSource.attributes], by decide⟩
  have hgated := hrules _ _ hwithin clearedOrTeam clearedOrTeamRule
  exact ⟨hwithin, hcanonical, hgrown, hunknown, hgated.refused hgrown hcanonical hunknown⟩

end RowPolicy
