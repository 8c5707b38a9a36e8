import RowPolicy.Proofs.Denotation

/-!
# What a decision depends on

A decision depends on the attributes and fields that the rule names, and of these only on the values
that are there and are not null. Two requests with equal values for these names are decided alike, with
the same trace, whatever else they say.
-/

namespace RowPolicy

/-! ## Footprints -/

def ValueSource.attributes : ValueSource → List String
  | .literal _ => []
  | .template ref => [ref.name]

namespace Condition

def attributes : Condition → List String
  | .fieldEquals _ source => source.attributes
  | .attributeMatch attributes => attributes.keys

def fields : Condition → List String
  | .fieldEquals field _ => [field]
  | .attributeMatch _ => []

end Condition

namespace Rule

mutual

def conditions : Rule → List Condition
  | .unrestricted => []
  | .composite _ rules => conditionsOf rules
  | .leaf condition => [condition]

def conditionsOf : List Rule → List Condition
  | [] => []
  | rule :: rules => conditions rule ++ conditionsOf rules

end

def attributes (rule : Rule) : List String := rule.conditions.flatMap Condition.attributes

def fields (rule : Rule) : List String := rule.conditions.flatMap Condition.fields

theorem conditionsOf_eq_flatMap (rules : List Rule) :
    conditionsOf rules = rules.flatMap conditions := by
  induction rules with
  | nil => rfl
  | cons rule rules ih => rw [conditionsOf, ih, List.flatMap_cons]

theorem mem_conditions_composite {connective : Connective} {rules : List Rule} {rule : Rule}
    {condition : Condition} (hrule : rule ∈ rules) (h : condition ∈ rule.conditions) :
    condition ∈ (composite connective rules).conditions := by
  rw [conditions, conditionsOf_eq_flatMap]
  exact List.mem_flatMap.mpr ⟨rule, hrule, h⟩

end Rule

/-! ## Visits that no condition tells apart -/

variable {principal principal' : Principal} {record record' : Option Record}

namespace Rule

theorem visitUntil_congr {rules : List Rule}
    (h : ∀ rule ∈ rules, ∀ here,
      rule.visit principal record here = rule.visit principal' record' here)
    (path : String) (connective : Connective) (index : Nat) :
    visitUntil principal record path connective index rules =
      visitUntil principal' record' path connective index rules := by
  induction rules generalizing index with
  | nil => rfl
  | cons rule rules ih =>
      obtain ⟨hrule, hrules⟩ := List.forall_mem_cons.mp h
      rw [visitUntil, visitUntil, hrule, ih hrules]

/-- A visit is the same for two requests that agree on all conditions of the rule, also on those that
are not evaluated. -/
theorem visit_congr {rule : Rule}
    (h : ∀ condition ∈ rule.conditions,
      condition.holds principal record = condition.holds principal' record') (path : String) :
    rule.visit principal record path = rule.visit principal' record' path := by
  induction rule generalizing path with
  | unrestricted => rfl
  | composite connective rules ih =>
      have hrules : ∀ rule ∈ rules, ∀ here,
          rule.visit principal record here = rule.visit principal' record' here := by
        intro rule hrule here
        apply ih rule hrule
        intro condition hcondition
        exact h condition (mem_conditions_composite hrule hcondition)
      rw [visit, visit, visitUntil_congr hrules]
  | leaf condition => rw [visit, visit, h condition List.mem_cons_self]

end Rule

/-! ## What look-ups tell -/

namespace Json

/-- What a look-up has found, if that is not null. -/
def present? (found : Option Json) : Option Json := found.filter fun value => !value.isNull

/-- No condition tells the one look-up from the other. -/
def Alike (found found' : Option Json) : Prop := Option.Rel Equals (present? found) (present? found')

theorem present?_eq_some_iff {found : Option Json} {value : Json} :
    present? found = some value ↔ found = some value ∧ value.isNull = false := by
  rw [present?, Option.filter_eq_some_iff, Bool.not_eq_true']

theorem Alike.refl (found : Option Json) : Alike found found := rel_refl Equals.refl _

theorem Alike.symm {found found' : Option Json} (h : Alike found found') : Alike found' found :=
  rel_symm (fun _ _ => Equals.symm) h

theorem alike_of_rel {found found' : Option Json} (h : Option.Rel Equals found found') :
    Alike found found' := by
  cases h with
  | none => exact .none
  | @some a b h =>
      rw [Alike, present?, present?, Option.filter_some, Option.filter_some, h.isNull_eq]
      split
      · exact .some h
      · exact .none

theorem Alike.exists_eq_some {found found' : Option Json} {value : Json} (h : Alike found found')
    (hfound : found = some value) (hnull : value.isNull = false) :
    ∃ value', found' = some value' ∧ value'.isNull = false ∧ Equals value value' := by
  have hpresent : present? found = some value := present?_eq_some_iff.mpr ⟨hfound, hnull⟩
  rw [Alike, hpresent] at h
  obtain ⟨value', hpresent', hequals⟩ := exists_right_of_rel h
  obtain ⟨hfound', hnull'⟩ := present?_eq_some_iff.mp hpresent'
  exact ⟨value', hfound', hnull', hequals⟩

end Json

/-- Two requests tell alike about some attributes and fields. -/
structure AlikeOn (attributes fields : List String) (principal principal' : Principal)
    (record record' : Option Record) : Prop where
  principals : ∀ name ∈ attributes, Json.Alike (principal.get? name) (principal'.get? name)
  records : ∀ field ∈ fields,
    Json.Alike (record.bind (·.get? field)) (record'.bind (·.get? field))

theorem AlikeOn.symm {attributes fields : List String}
    (h : AlikeOn attributes fields principal principal' record record') :
    AlikeOn attributes fields principal' principal record' record where
  principals name hname := (h.principals name hname).symm
  records field hfield := (h.records field hfield).symm

theorem ValueSource.resolve?_alike {source : ValueSource}
    (h : ∀ name ∈ source.attributes, Json.Alike (principal.get? name) (principal'.get? name)) :
    Json.Alike (source.resolve? principal) (source.resolve? principal') := by
  cases source with
  | literal value => exact .refl _
  | template ref => exact h ref.name List.mem_cons_self

namespace Condition

variable {condition : Condition}

theorem holds_of_alikeOn
    (h : AlikeOn condition.attributes condition.fields principal principal' record record')
    (hholds : condition.holds principal record = true) :
    condition.holds principal' record' = true := by
  cases condition with
  | fieldEquals field source =>
      obtain ⟨row, actual, expected, rfl, hactual, hexpected, hnull, hequals⟩ :=
        holds_fieldEquals_iff.mp hholds
      -- What equals the value of the field is not null either.
      have hnull' : expected.isNull = false := hequals.isNull_eq.symm.trans hnull
      obtain ⟨actual', hactual', hnull'', hsame⟩ :=
        (h.records field List.mem_cons_self).exists_eq_some hactual hnull
      obtain ⟨expected', hexpected', -, hsame'⟩ :=
        (ValueSource.resolve?_alike h.principals).exists_eq_some hexpected hnull'
      obtain ⟨row', hrow', hfield'⟩ := Option.bind_eq_some_iff.mp hactual'
      exact holds_fieldEquals_iff.mpr ⟨row', actual', expected', hrow', hfield', hexpected', hnull'',
        (hsame.of_common hequals).trans hsame'⟩
  | attributeMatch attributes =>
      obtain ⟨hne, hmatch⟩ := holds_attributeMatch_iff.mp hholds
      refine holds_attributeMatch_iff.mpr ⟨hne, ?_⟩
      intro name expected hentry
      obtain ⟨actual, hactual, hnull, hequals⟩ := hmatch name expected hentry
      have hname : name ∈ attributes.keys :=
        List.mem_map_of_mem (Dict.get?_eq_some_iff.mp hentry)
      obtain ⟨actual', hactual', hnull', hsame⟩ :=
        (h.principals name hname).exists_eq_some hactual hnull
      exact ⟨actual', hactual', hnull', hsame.of_common hequals⟩

theorem holds_congr
    (h : AlikeOn condition.attributes condition.fields principal principal' record record') :
    condition.holds principal record = condition.holds principal' record' :=
  Bool.eq_iff_iff.mpr ⟨holds_of_alikeOn h, holds_of_alikeOn h.symm⟩

end Condition

theorem AlikeOn.of_mem {rule : Rule} {condition : Condition}
    (h : AlikeOn rule.attributes rule.fields principal principal' record record')
    (hcondition : condition ∈ rule.conditions) :
    AlikeOn condition.attributes condition.fields principal principal' record record' where
  principals name hname := h.principals name (List.mem_flatMap.mpr ⟨condition, hcondition, hname⟩)
  records field hfield := h.records field (List.mem_flatMap.mpr ⟨condition, hcondition, hfield⟩)

/-- Requests that tell alike about what a rule names are visited alike. -/
theorem AlikeOn.visit_eq {rule : Rule}
    (h : AlikeOn rule.attributes rule.fields principal principal' record record') (path : String) :
    rule.visit principal record path = rule.visit principal' record' path :=
  Rule.visit_congr (fun _ hcondition => Condition.holds_congr (h.of_mem hcondition)) path

theorem AlikeOn.evaluate_eq {rule : Rule}
    (h : AlikeOn rule.attributes rule.fields principal principal' record record') :
    rule.evaluate principal record = rule.evaluate principal' record' := by
  rw [← Rule.visit_fst "", ← Rule.visit_fst "", h.visit_eq]

theorem AlikeOn.decideTraced_eq {set : PolicySet} {operation : Operation}
    (h : AlikeOn (set.rule operation).attributes (set.rule operation).fields principal principal'
      record record') :
    set.decideTraced operation principal record = set.decideTraced operation principal' record' := by
  rw [PolicySet.decideTraced, PolicySet.decideTraced, h.visit_eq]

/-! ## Requests that agree on a footprint -/

/-- Equal values under some names, or none in both. -/
def Dict.AgreeOn (names : List String) (dict dict' : Dict Json) : Prop :=
  ∀ name ∈ names, Option.Rel Json.Equals (dict.get? name) (dict'.get? name)

def Principal.AgreeOn (names : List String) (principal principal' : Principal) : Prop :=
  principal.attributes.AgreeOn names principal'.attributes

def Record.AgreeOn (names : List String) (row row' : Record) : Prop :=
  row.fields.AgreeOn names row'.fields

theorem Dict.agreeOn_refl (names : List String) (dict : Dict Json) : dict.AgreeOn names dict :=
  fun name _ => rel_refl Json.Equals.refl (dict.get? name)

theorem Dict.agreeOn_insert {names : List String} {name : String} (h : name ∉ names)
    (dict : Dict Json) (value : Json) : (dict.insert name value).AgreeOn names dict := by
  intro k hk
  have hne : k ≠ name := fun heq => h (heq ▸ hk)
  rw [get?_insert, if_neg hne]
  exact rel_refl Json.Equals.refl (dict.get? k)

theorem alikeOn_of_agreeOn {attributes fields : List String}
    (hprincipal : principal.AgreeOn attributes principal')
    (hrecord : Option.Rel (Record.AgreeOn fields) record record') :
    AlikeOn attributes fields principal principal' record record' where
  principals name hname := Json.alike_of_rel (hprincipal name hname)
  records field hfield := by
    apply Json.alike_of_rel
    cases hrecord with
    | none => exact .none
    | some hrow => exact hrow field hfield

namespace PolicySet

def allowedAt (set : PolicySet) (operation : Operation) (principal : Principal)
    (rows : List Record) : List Nat :=
  (List.range rows.length).filter fun i =>
    rows[i]?.any fun row => (set.rule operation).evaluate principal (some row)

theorem mem_allowedAt_iff {set : PolicySet} {operation : Operation} {rows : List Record} {i : Nat} :
    i ∈ set.allowedAt operation principal rows ↔
      ∃ row, rows[i]? = some row ∧ (set.rule operation).evaluate principal (some row) = true := by
  rw [allowedAt, List.mem_filter, List.mem_range, Option.any_eq_true]
  constructor
  · rintro ⟨-, row, hrow, hallow⟩
    exact ⟨row, hrow, hallow⟩
  · rintro ⟨row, hrow, hallow⟩
    exact ⟨(List.getElem?_eq_some_iff.mp hrow).1, row, hrow, hallow⟩

end PolicySet

theorem filter_eq_filterMap_range {α : Type} (keep : α → Bool) (items : List α) :
    items.filter keep =
      ((List.range items.length).filter fun i => items[i]?.any keep).filterMap (items[·]?) := by
  induction items with
  | nil => rfl
  | cons item items ih =>
      rw [List.length_cons, List.range_succ_eq_map, List.filter_cons, List.filter_cons,
        List.filter_map]
      simp only [List.getElem?_cons_zero, Option.any_some, Function.comp_def, Nat.succ_eq_add_one,
        List.getElem?_cons_succ]
      split <;> simp [List.filterMap_map, ih]

theorem PolicySet.allowedAt_eq {set : PolicySet} {operation : Operation} {rows rows' : List Record}
    (hprincipal : principal.AgreeOn (set.rule operation).attributes principal')
    (hrows : List.Forall₂ (Record.AgreeOn (set.rule operation).fields) rows rows') :
    set.allowedAt operation principal rows = set.allowedAt operation principal' rows' := by
  rw [allowedAt, allowedAt, hrows.length_eq]
  apply List.filter_congr
  intro i _
  have hrow := rel_getElem? hrows i
  generalize rows[i]? = row? at hrow
  generalize rows'[i]? = row?' at hrow
  cases hrow with
  | none => rfl
  | some hrow =>
      rw [Option.any_some, Option.any_some]
      exact (alikeOn_of_agreeOn hprincipal (.some hrow)).evaluate_eq

/-- Requests that agree on the attributes and fields of a rule are decided alike, with one trace, and a
filter keeps the rows at the same places. Attributes and fields that the rule does not name have no
influence. -/
theorem decisions_depend_on_footprint :
    (∀ (rule : Rule) (principal principal' : Principal) (record record' : Option Record),
      principal.AgreeOn rule.attributes principal' →
      Option.Rel (Record.AgreeOn rule.fields) record record' →
      rule.evaluate principal record = rule.evaluate principal' record') ∧
    (∀ (set : PolicySet) (operation : Operation) (principal principal' : Principal)
        (record record' : Option Record),
      principal.AgreeOn (set.rule operation).attributes principal' →
      Option.Rel (Record.AgreeOn (set.rule operation).fields) record record' →
      set.decideTraced operation principal record =
        set.decideTraced operation principal' record') ∧
    (∀ (set : PolicySet) (operation : Operation) (principal principal' : Principal)
        (rows rows' : List Record),
      principal.AgreeOn (set.rule operation).attributes principal' →
      List.Forall₂ (Record.AgreeOn (set.rule operation).fields) rows rows' →
      ∃ kept : List Nat, kept.Pairwise (· < ·) ∧
        (∀ i, i ∈ kept ↔
          ∃ row, rows[i]? = some row ∧ (set.decide operation principal (some row)).allow = true) ∧
        set.filter operation principal rows = kept.filterMap (rows[·]?) ∧
        set.filter operation principal' rows' = kept.filterMap (rows'[·]?)) ∧
    ∀ (set : PolicySet) (operation : Operation) (principal : Principal) (name : String)
        (value : Json),
      (name ∉ (set.rule operation).attributes → ∀ record,
        set.decideTraced operation (principal.withAttribute name value) record =
          set.decideTraced operation principal record) ∧
      (name ∉ (set.rule operation).fields → ∀ row,
        set.decideTraced operation principal (some (row.withField name value)) =
          set.decideTraced operation principal (some row)) := by
  refine ⟨?evaluate, ?traced, ?rows, ?extra⟩
  case evaluate =>
    intro rule principal principal' record record' hprincipal hrecord
    exact (alikeOn_of_agreeOn hprincipal hrecord).evaluate_eq
  case traced =>
    intro set operation principal principal' record record' hprincipal hrecord
    exact (alikeOn_of_agreeOn hprincipal hrecord).decideTraced_eq
  case rows =>
    intro set operation principal principal' rows rows' hprincipal hrows
    refine ⟨set.allowedAt operation principal rows, ?_, fun _ => PolicySet.mem_allowedAt_iff,
      filter_eq_filterMap_range _ rows, ?_⟩
    · exact List.Pairwise.filter _ List.pairwise_lt_range
    · rw [PolicySet.allowedAt_eq hprincipal hrows]
      exact filter_eq_filterMap_range _ rows'
  case extra =>
    intro set operation principal name value
    constructor
    · intro hname record
      have hrecord : Option.Rel (Record.AgreeOn (set.rule operation).fields) record record :=
        rel_refl (fun row => row.fields.agreeOn_refl _) record
      exact (alikeOn_of_agreeOn (principal.attributes.agreeOn_insert hname value)
        hrecord).decideTraced_eq
    · intro hname row
      have hrecord := row.fields.agreeOn_insert hname value
      exact (alikeOn_of_agreeOn (principal.attributes.agreeOn_refl _)
        (.some hrecord)).decideTraced_eq

/-- What is decided about the open record of its author does not depend on a team or a title. -/
theorem decisions_depend_on_footprint_openRecord :
    adminOrOpenOwner.evaluate (author.withAttribute "team" .null)
        (some (openRecord.withField "title" (.string "Notes"))) = true ∧
    PolicySet.decideTraced ⟨adminOrOpenOwner, .unrestricted⟩ .read
        (author.withAttribute "team" .null) (some (openRecord.withField "title" (.array []))) =
      PolicySet.decideTraced ⟨adminOrOpenOwner, .unrestricted⟩ .read author (some openRecord) ∧
    ∃ kept : List Nat, 1 ∈ kept ∧
      PolicySet.filter ⟨adminOrOpenOwner, .unrestricted⟩ .read (author.withAttribute "team" .null)
          [Record.empty.withField "title" .null, openRecord.withField "title" .null] =
        kept.filterMap
          ([Record.empty.withField "title" .null, openRecord.withField "title" .null][·]?) ∧
      PolicySet.filter ⟨adminOrOpenOwner, .unrestricted⟩ .read author [.empty, openRecord] =
        kept.filterMap ([Record.empty, openRecord][·]?) := by
  obtain ⟨hevaluate, htraced, hrows, -⟩ := decisions_depend_on_footprint
  have hprincipal : (author.withAttribute "team" .null).AgreeOn adminOrOpenOwner.attributes author :=
    author.attributes.agreeOn_insert (by decide +kernel) .null
  have hrow : ∀ (row : Record) (value : Json),
      (row.withField "title" value).AgreeOn adminOrOpenOwner.fields row :=
    fun row value => row.fields.agreeOn_insert (by decide +kernel) value
  refine ⟨?_, ?_, ?_⟩
  · rw [hevaluate _ _ _ _ _ hprincipal (.some (hrow openRecord _))]
    decide +kernel
  · exact htraced ⟨adminOrOpenOwner, .unrestricted⟩ .read _ _ _ _ hprincipal
      (.some (hrow openRecord _))
  · obtain ⟨kept, -, hkept, hfilter, hfilter'⟩ :=
      hrows ⟨adminOrOpenOwner, .unrestricted⟩ .read _ _ _ _ hprincipal
        (.cons (hrow .empty .null) (.cons (hrow openRecord .null) .nil))
    exact ⟨kept, (hkept 1).mpr ⟨_, rfl, by decide +kernel⟩, hfilter, hfilter'⟩

end RowPolicy
