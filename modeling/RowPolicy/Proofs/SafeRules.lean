import RowPolicy.Proofs.CompiledForm
import RowPolicy.Proofs.DictLookup
import RowPolicy.Proofs.Pairing
import RowPolicy.Proofs.TemplateSpacing

/-!
# The rules that compiling yields

A rule may have shapes that no declared rule has: a composite of nothing, a test of no attribute, a
field compared with null. Compiling yields exactly the safe rules, for each of these is what its own
declaration compiles to. Two declared rules that compile to one rule are the same, except for the
spaces inside the braces of their templates.
-/

namespace RowPolicy

/-! ## Safe rules -/

namespace ValueSource

/-- A plain value, or a reference to one of some attributes. -/
def Safe (attributes : List String) : ValueSource → Prop
  | .literal value => IsPlain value
  | .template ref => Template.IsIdentifier ref.name.toList ∧ ref.name ∈ attributes

def declaration : ValueSource → Json
  | .literal value => value
  | .template ref => .string ref.display

end ValueSource

namespace Condition

def Safe (attributes : List String) : Condition → Prop
  | .fieldEquals field source => IsFieldName field ∧ source.Safe attributes
  | .attributeMatch expected =>
      expected.entries ≠ [] ∧ ∀ entry ∈ expected.entries, entry.1 ≠ "" ∧ IsPlain entry.2

def declaration : Condition → Json
  | .fieldEquals field source => .object [(field, source.declaration)]
  | .attributeMatch expected => .object [(conditionKey, .ofDict expected)]

end Condition

namespace Rule

/-- Every composite has a sub-rule, and every leaf is safe. -/
inductive Safe (attributes : List String) : Rule → Prop
  | unrestricted : Safe attributes .unrestricted
  | composite {connective : Connective} {rules : List Rule} :
      rules ≠ [] → (∀ rule ∈ rules, Safe attributes rule) →
      Safe attributes (.composite connective rules)
  | leaf {condition : Condition} :
      condition.Safe attributes → Safe attributes (.leaf condition)

mutual

def declaration : Rule → Json
  | .unrestricted => .object []
  | .composite connective rules => .object [(connective.operator, .array (declarations rules))]
  | .leaf condition => condition.declaration

def declarations : List Rule → List Json
  | [] => []
  | rule :: rules => declaration rule :: declarations rules

end

@[simp] theorem declarations_eq_map (rules : List Rule) : declarations rules = rules.map declaration := by
  induction rules with
  | nil => rfl
  | cons rule rules ih => rw [declarations, ih, List.map_cons]

end Rule

variable {attributes : List String} {raw raw' : Json} {rule : Rule}

theorem Compiles.safe (h : Compiles ⟨attributes⟩ raw rule) : rule.Safe attributes := by
  induction h with
  | unrestricted => exact .unrestricted
  | composite connective hne hlength _ ih =>
      have hpairs := forall₂_of_zip hlength ih
      apply Rule.Safe.composite
      · rintro rfl
        exact hne (List.length_eq_zero_iff.mp hlength)
      · intro rule hrule
        obtain ⟨_, -, hsafe⟩ := exists_left_of_forall₂ hpairs hrule
        exact hsafe
  | @condition members hne hmembers =>
      apply Rule.Safe.leaf
      refine ⟨?_, ?_⟩
      · intro hentries
        have hempty := Dict.isEmpty_ofList hne
        rw [Dict.isEmpty, hentries] at hempty
        cases hempty
      · intro entry hentry
        exact hmembers entry (Dict.mem_of_mem_ofList hentry)
  | literal hfield hplain => exact .leaf ⟨hfield, hplain⟩
  | template hfield hrefers hknown =>
      exact .leaf ⟨hfield, hrefers.1, List.contains_iff_mem.mp hknown⟩

theorem Condition.Safe.compiles {condition : Condition} (h : condition.Safe attributes) :
    Compiles ⟨attributes⟩ condition.declaration (.leaf condition) := by
  cases condition with
  | fieldEquals field source =>
      obtain ⟨hfield, hsource⟩ := h
      cases source with
      | literal value => exact .literal hfield hsource
      | template ref =>
          obtain ⟨hname, hknown⟩ := hsource
          exact .template hfield (refersTo_display hname) (List.contains_iff_mem.mpr hknown)
  | attributeMatch expected =>
      obtain ⟨hne, hentries⟩ := h
      have hcompiles : Compiles ⟨attributes⟩ _ _ := .condition hne hentries
      rwa [Dict.ofList_entries] at hcompiles

theorem Rule.Safe.compiles (h : rule.Safe attributes) :
    Compiles ⟨attributes⟩ rule.declaration rule := by
  induction h with
  | unrestricted => exact .unrestricted
  | @composite connective rules hne _ ih =>
      rw [Rule.declaration, Rule.declarations_eq_map]
      have hpairs : List.Forall₂ (Compiles ⟨attributes⟩) (rules.map Rule.declaration) rules :=
        forall₂_map_left_of_mem ih
      obtain ⟨hlength, hcompiles⟩ := List.forall₂_iff_zip.mp hpairs
      refine .composite connective ?_ hlength fun _ _ => hcompiles
      rwa [ne_eq, List.map_eq_nil_iff]
  | leaf hcondition => exact hcondition.compiles

theorem canonical_of_isPlain {value : Json} (h : IsPlain value) : value.Canonical := by
  cases value with
  | array items => exact h.elim
  | object members => exact h.elim
  | _ => exact trivial

theorem canonical_member {key : String} {value : Json} :
    (Json.object [(key, value)]).Canonical ↔ value.Canonical := by
  simp [Json.Canonical, Json.CanonicalMembers, Ordered]

theorem Condition.Safe.canonical {condition : Condition} (h : condition.Safe attributes) :
    condition.declaration.Canonical := by
  cases condition with
  | fieldEquals field source =>
      apply canonical_member.mpr
      cases source with
      | literal value => exact canonical_of_isPlain h.2
      | template ref => exact trivial
  | attributeMatch expected =>
      apply canonical_member.mpr
      refine ⟨expected.ordered, Json.canonicalMembers_iff.mpr ?_⟩
      intro entry hentry
      exact canonical_of_isPlain (h.2 entry hentry).2

theorem Rule.Safe.canonical (h : rule.Safe attributes) : rule.declaration.Canonical := by
  induction h with
  | unrestricted => exact ⟨List.Pairwise.nil, trivial⟩
  | composite _ _ ih =>
      apply canonical_member.mpr
      rw [Json.Canonical, Json.canonicalItems_iff, Rule.declarations_eq_map, List.forall_mem_map]
      exact ih
  | leaf hcondition => exact hcondition.canonical

/-! ## Declarations of one rule -/

theorem eq_of_respaced_of_isPlain {value value' : Json} (hplain : IsPlain value)
    (h : Json.Respaced value value') : value' = value := by
  cases h with
  | string htext =>
      have heq := htext.eq_of_not_marked hplain
      rw [String.toList_inj.mp heq]
  | array | object => exact hplain.elim
  | null | bool | number => rfl

theorem eq_of_respaced_members {members members' : List (String × Json)}
    (hplain : ∀ entry ∈ members, IsPlain entry.2)
    (hkeys : members.map Prod.fst = members'.map Prod.fst)
    (hvalues : List.Forall₂ Json.Respaced (members.map Prod.snd) (members'.map Prod.snd)) :
    members' = members := by
  induction members generalizing members' with
  | nil => exact List.map_eq_nil_iff.mp hkeys.symm
  | cons entry members ih =>
      cases members' with
      | nil => cases hkeys
      | cons entry' members' =>
          obtain ⟨hkey, hkeys⟩ := List.cons.inj hkeys
          obtain ⟨hvalue, hvalues⟩ := List.forall₂_cons.mp hvalues
          obtain ⟨hfirst, hrest⟩ := List.forall_mem_cons.mp hplain
          have hentry : entry' = entry :=
            Prod.ext hkey.symm (eq_of_respaced_of_isPlain hfirst hvalue)
          rw [hentry, ih hrest hkeys hvalues]

/-- A respacing of a declared rule compiles to the same rule. -/
theorem Compiles.of_respaced {scope : Namespace} (h : Compiles scope raw rule)
    (hspaces : raw.Respaced raw') : Compiles scope raw' rule := by
  induction h generalizing raw' with
  | unrestricted =>
      cases hspaces with
      | object hkeys _ =>
          obtain rfl := List.map_eq_nil_iff.mp hkeys.symm
          exact .unrestricted
  | composite connective hne hlength _ ih =>
      obtain ⟨value', rfl, hvalue⟩ := hspaces.of_member
      cases hvalue with
      | array hitems =>
          -- The respaced elements and the sub-rules are both paired with the elements.
          have hrules := forall₂_of_zip hlength ih
          have hcompiles := forall₂_of_common hitems hrules fun _ _ _ _ hsame hrule => hrule hsame
          obtain ⟨hlength', hzip⟩ := List.forall₂_iff_zip.mp hcompiles
          refine .composite connective ?_ hlength' fun _ _ => hzip
          rintro rfl
          exact hne (List.forall₂_nil_right_iff.mp hitems)
  | condition hne hmembers =>
      obtain ⟨value', rfl, hvalue⟩ := hspaces.of_member
      cases hvalue with
      | object hkeys hvalues =>
          have hplain := fun entry hentry => (hmembers entry hentry).2
          obtain rfl := eq_of_respaced_members hplain hkeys hvalues
          exact .condition hne hmembers
  | literal hfield hplain =>
      obtain ⟨value', rfl, hvalue⟩ := hspaces.of_member
      obtain rfl := eq_of_respaced_of_isPlain hplain hvalue
      exact .literal hfield hplain
  | template hfield hrefers hknown =>
      obtain ⟨value', rfl, hvalue⟩ := hspaces.of_member
      cases hvalue with
      | string htext => exact .template hfield (htext.refersTo hrefers) hknown

/-- A declared rule differs from the declaration of the rule that it compiles to in spaces only. -/
theorem Compiles.declaration_respaced {scope : Namespace} (h : Compiles scope raw rule)
    (hcanonical : raw.Canonical) : rule.declaration.Respaced raw := by
  induction h with
  | unrestricted => exact .refl _
  | composite connective _ hlength _ ih =>
      rw [canonical_member, Json.Canonical, Json.canonicalItems_iff] at hcanonical
      rw [Rule.declaration, Rule.declarations_eq_map]
      have hrules := forall₂_of_zip hlength ih
      have hboth := (List.forall₂_and_left _ _).mpr ⟨hcanonical, hrules⟩
      have hitems : List.Forall₂ (flip fun rule item => (Rule.declaration rule).Respaced item)
          _ _ := hboth.imp fun _ _ hitem => hitem.2 hitem.1
      exact .member _ (.array (List.forall₂_map_left_iff.mpr hitems.flip))
  | condition hne hmembers =>
      rw [canonical_member] at hcanonical
      rw [Rule.declaration, Condition.declaration, Json.ofDict,
        Dict.ofList_of_ordered hcanonical.1]
      exact .refl _
  | literal hfield hplain => exact .refl _
  | template hfield hrefers hknown =>
      have hdisplay := refersTo_display hrefers.1
      exact .member _ (.string (.of_refersTo hdisplay hrefers))

theorem Compiles.eq_iff_respaced {scope : Namespace} {rule' : Rule} (h : Compiles scope raw rule)
    (h' : Compiles scope raw' rule') (hcanonical : raw.Canonical) (hcanonical' : raw'.Canonical) :
    rule = rule' ↔ raw.Respaced raw' := by
  constructor
  · rintro rfl
    exact (h.declaration_respaced hcanonical).common (h'.declaration_respaced hcanonical')
  · intro hspaces
    exact (h.of_respaced hspaces).unique h'

theorem compiles_unrestricted_iff {scope : Namespace} :
    Compiles scope raw .unrestricted ↔ raw = .object [] := by
  constructor
  · intro h
    cases h
    rfl
  · rintro rfl
    exact .unrestricted

/-- Compiling yields exactly the safe rules, and declarations that it takes to one rule differ in
the spaces inside the braces of their templates only. -/
theorem compile_yields_safe_rules (attributes : List String) :
    (∀ rule : Rule,
      ((∃ raw, Compiler.compile ⟨⟨attributes⟩⟩ raw = .ok rule) ↔ rule.Safe attributes) ∧
      ((∃ raw : Json, raw.Canonical ∧ Compiler.compile ⟨⟨attributes⟩⟩ raw = .ok rule) ↔
        rule.Safe attributes)) ∧
    (∀ (raw raw' : Json) (rule rule' : Rule), raw.Canonical → raw'.Canonical →
      Compiler.compile ⟨⟨attributes⟩⟩ raw = .ok rule →
      Compiler.compile ⟨⟨attributes⟩⟩ raw' = .ok rule' → (rule = rule' ↔ raw.Respaced raw')) ∧
    ∀ raw, Compiler.compile ⟨⟨attributes⟩⟩ raw = .ok .unrestricted ↔ raw = .object [] := by
  simp only [compile_eq_ok_iff]
  refine ⟨?_, ?_, fun raw => compiles_unrestricted_iff⟩
  · intro rule
    constructor
    · constructor
      · rintro ⟨raw, hcompiles⟩
        exact hcompiles.safe
      · intro hsafe
        exact ⟨_, hsafe.compiles⟩
    · constructor
      · rintro ⟨raw, -, hcompiles⟩
        exact hcompiles.safe
      · intro hsafe
        exact ⟨_, hsafe.canonical, hsafe.compiles⟩
  · intro raw raw' rule rule' hcanonical hcanonical' hcompiles hcompiles'
    exact hcompiles.eq_iff_respaced hcompiles' hcanonical hcanonical'

/-- Access for the owner of a record, declared with and without spaces in its template. -/
def tightOwner : Json := .object [("owner", .string "\x7b\x7buser.id\x7d\x7d")]

def spacedOwner : Json := .object [("owner", .string "\x7b\x7b  user.id \x7d\x7d")]

def ownerRule : Rule := .leaf (.fieldEquals "owner" (.template ⟨"id"⟩))

theorem compile_yields_safe_rules_owner :
    tightOwner.Canonical ∧ spacedOwner.Canonical ∧
    Compiler.compile ⟨⟨["id"]⟩⟩ tightOwner = .ok ownerRule ∧
    Compiler.compile ⟨⟨["id"]⟩⟩ spacedOwner = .ok ownerRule ∧
    tightOwner.Respaced spacedOwner := by
  have htight : tightOwner.Canonical := canonical_member.mpr trivial
  have hspaced : spacedOwner.Canonical := canonical_member.mpr trivial
  have hcompile : Compiler.compile ⟨⟨["id"]⟩⟩ tightOwner = .ok ownerRule := rfl
  have hcompile' : Compiler.compile ⟨⟨["id"]⟩⟩ spacedOwner = .ok ownerRule := rfl
  refine ⟨htight, hspaced, hcompile, hcompile', ?_⟩
  have hspaces := (compile_yields_safe_rules ["id"]).2.1
  exact (hspaces _ _ _ _ htight hspaced hcompile hcompile').mp rfl

end RowPolicy
