import RowPolicy.Rule.Decoding
import RowPolicy.Proofs.JsonOrder
import RowPolicy.Proofs.Pairing

/-!
# Reading back the exchange form

What is written for a rule, or for a part of one, reads as that rule. This holds of the members in
the order written and in key order, and whatever the literals in the rule look like. A value that a
reader takes in another form, such as an array of its fields, is written in the exchange form and
then reads as the same rule for good.
-/

namespace RowPolicy

/-! ## Canonical rules -/

/-- A JSON value has its members in key order; this is asked of each literal. -/
def ValueSource.Canonical : ValueSource → Prop
  | .literal value => value.Canonical
  | .template _ => True

def Condition.Canonical : Condition → Prop
  | .fieldEquals _ source => source.Canonical
  | .attributeMatch attributes => (Json.ofDict attributes).Canonical

inductive Rule.Canonical : Rule → Prop
  | unrestricted : Canonical .unrestricted
  | composite {connective : Connective} {rules : List Rule} :
      (∀ rule ∈ rules, Canonical rule) → Canonical (.composite connective rules)
  | leaf {condition : Condition} : condition.Canonical → Canonical (.leaf condition)

def PolicySet.Canonical (set : PolicySet) : Prop := set.read.Canonical ∧ set.write.Canonical

variable {place : TagPlace} {members : List (String × Json)} {json value value' : Json}

/-! ## Readers of objects -/

theorem fields?_singleton {name : String} (h : members.lookup name = some value) :
    fields? [name] (.object members) = some [value] := by
  simp [fields?, h]

theorem fields?_pair {name name' : String} (h : members.lookup name = some value)
    (h' : members.lookup name' = some value') :
    fields? [name, name'] (.object members) = some [value, value'] := by
  simp [fields?, h, h']

theorem TemplateRef.ofJson?_object {name : String}
    (h : members.lookup "attribute" = some (.string name)) :
    ofJson? (.object members) = some ⟨name⟩ := by
  rw [ofJson?, fields?_singleton h]
  rfl

namespace ValueSource

theorem ofJson?_literal (hkind : members.lookup "kind" = some (.string "literal"))
    (hvalue : members.lookup "value" = some value) :
    ofJson? place (.object members) = some (.literal value) := by
  rw [ofJson?, fields?_pair hkind hvalue]
  rfl

theorem ofJson?_template {ref : TemplateRef}
    (hkind : members.lookup "kind" = some (.string "template"))
    (hvalue : members.lookup "value" = some value) (href : TemplateRef.ofJson? value = some ref) :
    ofJson? place (.object members) = some (.template ref) := by
  rw [ofJson?, fields?_pair hkind hvalue]
  simp only [bareTag?, href, Option.map_some]

end ValueSource

namespace Condition

theorem ofJson?_fieldEquals {field : String} {source : ValueSource}
    (hkind : members.lookup "kind" = some (.string "field_equals"))
    (hfield : members.lookup "field" = some (.string field))
    (hvalue : members.lookup "value_source" = some value)
    (hsource : ValueSource.ofJson? .inner value = some source) :
    ofJson? place (.object members) = some (.fieldEquals field source) := by
  simp only [ofJson?, tagged?, hkind, Option.map_some]
  rw [fields?_pair hfield hvalue]
  simp only [tagPosition?, text?, hsource]
  rfl

theorem ofJson?_attributeMatch {attributes : Dict Json}
    (hkind : members.lookup "kind" = some (.string "user_attribute_match"))
    (hattributes : members.lookup "attributes" = some (.ofDict attributes)) :
    ofJson? place (.object members) = some (.attributeMatch attributes) := by
  simp only [ofJson?, tagged?, hkind, Option.map_some]
  rw [fields?_singleton hattributes]
  simp only [tagPosition?, Json.ofDict, Dict.ofList_entries]
  rfl

end Condition

theorem Connective.exists_position (connective : Connective) (place : TagPlace) :
    ∃ position, tagPosition? Rule.tags place (.string connective.tag) = some position ∧
      Rule.connectiveAt? position = some connective := by
  cases connective with
  | all => exact ⟨1, rfl, rfl⟩
  | any => exact ⟨2, rfl, rfl⟩

namespace Rule

theorem memberRules?_eq (members : List (String × Json)) :
    memberRules? members = (members.lookup "rules").bind arrayRules? := by
  induction members with
  | nil => rfl
  | cons member members ih =>
      obtain ⟨key, value⟩ := member
      rw [memberRules?, ih, lookup_cons_ite]
      by_cases hkey : key = "rules"
      · rw [if_pos hkey, if_pos hkey.symm, Option.bind_some]
      · rw [if_neg hkey, if_neg (Ne.symm hkey)]

theorem ofJsons?_eq_some_iff {items : List Json} {rules : List Rule} :
    ofJsons? items = some rules ↔
      List.Forall₂ (fun item rule => ofJson? .inner item = some rule) items rules := by
  induction items generalizing rules with
  | nil => simp [ofJsons?, eq_comm]
  | cons item items ih =>
      rw [ofJsons?, List.forall₂_cons_left_iff]
      simp only [← ih]
      cases ofJson? .inner item with
      | none => simp
      | some rule =>
          cases ofJsons? items with
          | none => simp
          | some rest => simp [eq_comm]

theorem ofJson?_unrestricted (htype : members.lookup "type" = some (.string "Empty")) :
    ofJson? place (.object members) = some .unrestricted := by
  rw [ofJson?, htype]
  rfl

theorem ofJson?_composite {connective : Connective} {items : List Json} {rules : List Rule}
    (htype : members.lookup "type" = some (.string connective.tag))
    (hrules : members.lookup "rules" = some (.array items))
    (hitems : List.Forall₂ (fun item rule => ofJson? .inner item = some rule) items rules) :
    ofJson? place (.object members) = some (.composite connective rules) := by
  have hmembers : memberRules? members = some rules := by
    rw [memberRules?_eq, hrules, Option.bind_some, arrayRules?]
    exact ofJsons?_eq_some_iff.mpr hitems
  obtain ⟨position, hposition, hconnective⟩ := connective.exists_position place
  rw [ofJson?, htype, Option.bind_some, hposition]
  simp only [hconnective, hmembers, Option.map_some]

theorem ofJson?_leaf {condition : Condition} (htype : members.lookup "type" = some (.string "Leaf"))
    (hvalue : members.lookup "condition" = some value)
    (hcondition : Condition.ofJson? .inner value = some condition) :
    ofJson? place (.object members) = some (.leaf condition) := by
  have hleaf : leafOf? (.object members) = some (.leaf condition) := by
    rw [leafOf?, fields?_singleton hvalue]
    simp only [hcondition, Option.map_some]
  rw [ofJson?, htype]
  exact hleaf

end Rule

theorem PolicySet.ofJson?_object {set : PolicySet} (hread : members.lookup "read" = some value)
    (hwrite : members.lookup "write" = some value')
    (hreadRule : Rule.ofJson? .outermost value = some set.read)
    (hwriteRule : Rule.ofJson? .outermost value' = some set.write) :
    ofJson? (.object members) = some set := by
  rw [ofJson?, fields?_pair hread hwrite]
  simp only [hreadRule, hwriteRule]

/-! ## Reading what is written -/

@[simp] theorem Rule.toJsons_eq_map (rules : List Rule) : toJsons rules = rules.map toJson := by
  induction rules with
  | nil => rfl
  | cons rule rules ih => rw [toJsons, ih, List.map_cons]

@[simp] theorem TemplateRef.ofJson?_toJson (ref : TemplateRef) : ofJson? ref.toJson = some ref :=
  ofJson?_object rfl

@[simp] theorem ValueSource.ofJson?_toJson (source : ValueSource) :
    ofJson? place source.toJson = some source := by
  cases source with
  | literal value => exact ofJson?_literal rfl rfl
  | template ref => exact ofJson?_template rfl rfl ref.ofJson?_toJson

@[simp] theorem Condition.ofJson?_toJson (condition : Condition) :
    ofJson? place condition.toJson = some condition := by
  cases condition with
  | fieldEquals field source => exact ofJson?_fieldEquals rfl rfl rfl source.ofJson?_toJson
  | attributeMatch attributes => exact ofJson?_attributeMatch rfl rfl

@[simp] theorem Rule.ofJson?_toJson (rule : Rule) : ofJson? place rule.toJson = some rule := by
  induction rule generalizing place with
  | unrestricted => exact ofJson?_unrestricted rfl
  | composite connective rules ih =>
      rw [toJson, toJsons_eq_map]
      apply ofJson?_composite rfl rfl
      exact forall₂_map_left_of_mem fun rule hrule => ih rule hrule
  | leaf condition => exact ofJson?_leaf rfl rfl condition.ofJson?_toJson

@[simp] theorem PolicySet.ofJson?_toJson (set : PolicySet) : ofJson? set.toJson = some set :=
  ofJson?_object rfl rfl set.read.ofJson?_toJson set.write.ofJson?_toJson

/-! ## Reading with the members in key order -/

theorem TemplateRef.ofJson?_sorted (ref : TemplateRef) : ofJson? ref.toJson.sorted = some ref :=
  ofJson?_object (Json.lookup_sorted (by simp) rfl)

theorem ValueSource.ofJson?_sorted {source : ValueSource} (h : source.Canonical) :
    ofJson? place source.toJson.sorted = some source := by
  cases source with
  | literal value =>
      have hvalue : some value.sorted = some value := congrArg some (Json.sorted_of_canonical h)
      exact ofJson?_literal (Json.lookup_sorted (by simp) rfl) (Json.lookup_sorted (by simp) hvalue)
  | template ref =>
      exact ofJson?_template (Json.lookup_sorted (by simp) rfl) (Json.lookup_sorted (by simp) rfl)
        ref.ofJson?_sorted

theorem Condition.ofJson?_sorted {condition : Condition} (h : condition.Canonical) :
    ofJson? place condition.toJson.sorted = some condition := by
  cases condition with
  | fieldEquals field source =>
      exact ofJson?_fieldEquals (Json.lookup_sorted (by simp) rfl)
        (Json.lookup_sorted (by simp) rfl) (Json.lookup_sorted (by simp) rfl)
        (ValueSource.ofJson?_sorted h)
  | attributeMatch attributes =>
      have hattributes : some (Json.ofDict attributes).sorted = some (.ofDict attributes) :=
        congrArg some (Json.sorted_of_canonical h)
      exact ofJson?_attributeMatch (Json.lookup_sorted (by simp) rfl)
        (Json.lookup_sorted (by simp) hattributes)

theorem Rule.ofJson?_sorted {rule : Rule} (h : rule.Canonical) :
    ofJson? place rule.toJson.sorted = some rule := by
  -- A sub-rule is read from the inner place whatever the place of the composite is.
  induction h generalizing place with
  | unrestricted => exact ofJson?_unrestricted (Json.lookup_sorted (by simp) rfl)
  | @composite connective rules _ ih =>
      have hrules : (Json.array (toJsons rules)).sorted =
          .array (rules.map fun rule => rule.toJson.sorted) := by
        rw [Json.sorted, Json.sortedItems_eq_map, toJsons_eq_map, List.map_map]
        rfl
      refine ofJson?_composite (Json.lookup_sorted (by simp) rfl)
        (Json.lookup_sorted (by simp) (congrArg some hrules)) ?_
      exact forall₂_map_left_of_mem fun rule hrule => ih rule hrule
  | leaf hcondition =>
      exact ofJson?_leaf (Json.lookup_sorted (by simp) rfl) (Json.lookup_sorted (by simp) rfl)
        (Condition.ofJson?_sorted hcondition)

theorem PolicySet.ofJson?_sorted {set : PolicySet} (h : set.Canonical) :
    ofJson? set.toJson.sorted = some set :=
  ofJson?_object (Json.lookup_sorted (by simp) rfl) (Json.lookup_sorted (by simp) rfl)
    (Rule.ofJson?_sorted h.1) (Rule.ofJson?_sorted h.2)

/-! ## Canonical values read as canonical rules -/

theorem canonical_of_fields? {names : List String} {values : List Json} (hjson : json.Canonical)
    (h : fields? names json = some values) : ∀ value ∈ values, value.Canonical := by
  cases json with
  | object members =>
      intro value hvalue
      obtain ⟨name, -, hlookup⟩ := exists_left_of_forall₂ (forall₂_of_mapM_eq_some h) hvalue
      exact Json.canonical_of_lookup hjson hlookup
  | array items =>
      rw [fields?] at h
      split at h
      · cases h
        intro item hitem
        exact Json.canonical_of_mem_items hjson hitem
      · cases h
  | null => cases h
  | bool value => cases h
  | number value => cases h
  | string text => cases h

theorem canonical_of_tagged? {tagName : String} {tag content : Json} (hjson : json.Canonical)
    (h : tagged? tagName json = some (tag, content)) : content.Canonical := by
  cases json with
  | object members =>
      obtain ⟨tag', -, heq⟩ := Option.map_eq_some_iff.mp h
      cases heq
      exact hjson
  | array items =>
      cases items with
      | nil => cases h
      | cons tag' items =>
          cases h
          exact hjson.2
  | null => cases h
  | bool value => cases h
  | number value => cases h
  | string text => cases h

theorem ValueSource.canonical_of_ofJson? {source : ValueSource} (hjson : json.Canonical)
    (h : ofJson? place json = some source) : source.Canonical := by
  cases source with
  | template ref => trivial
  | literal value =>
      rw [ofJson?] at h
      split at h
      · next kind value' hfields =>
        have hvalue : value'.Canonical := canonical_of_fields? hjson hfields value' (by simp)
        split at h
        · cases h
          exact hvalue
        · obtain ⟨ref, -, heq⟩ := Option.map_eq_some_iff.mp h
          cases heq
        · cases h
      · cases h

theorem Condition.canonical_of_ofJson? {condition : Condition} (hjson : json.Canonical)
    (h : ofJson? place json = some condition) : condition.Canonical := by
  rw [ofJson?] at h
  split at h
  · cases h
  · next tag content htagged =>
    have hcontent := canonical_of_tagged? hjson htagged
    split at h
    · split at h
      · next field source hfields =>
        have hsource : source.Canonical := canonical_of_fields? hcontent hfields source (by simp)
        split at h
        · next field' source' _ hread =>
          cases h
          exact ValueSource.canonical_of_ofJson? hsource hread
        · cases h
      · cases h
    · split at h
      · next attributes hfields =>
        have hattributes := canonical_of_fields? hcontent hfields (.object attributes) (by simp)
        cases h
        rwa [Canonical, Json.ofDict, Dict.ofList_of_ordered hattributes.1]
      · cases h
    · cases h

namespace Rule

/-- What a rule is read from, whichever form it has: canonical items for the sub-rules of a composite,
and a canonical value for the condition of a leaf. -/
def ReadFrom (rule : Rule) : Prop :=
  rule = .unrestricted ∨
    (∃ connective items rules, rule = .composite connective rules ∧
      (Json.array items).Canonical ∧ ofJsons? items = some rules) ∨
    ∃ value condition, rule = .leaf condition ∧ value.Canonical ∧
      Condition.ofJson? .inner value = some condition

variable {rule : Rule}

theorem readFrom_of_arrayRules? {connective : Connective} (hvalue : value.Canonical)
    (h : (arrayRules? value).map (.composite connective) = some rule) : rule.ReadFrom := by
  obtain ⟨rules, hrules, rfl⟩ := Option.map_eq_some_iff.mp h
  cases value with
  | array items => exact Or.inr (Or.inl ⟨connective, items, rules, rfl, hvalue, hrules⟩)
  | null => cases hrules
  | bool value => cases hrules
  | number value => cases hrules
  | string text => cases hrules
  | object members => cases hrules

theorem readFrom_of_simpleOf? {position : Nat} {content : Json} (hcontent : content.Canonical)
    (h : simpleOf? position content = some rule) : rule.ReadFrom := by
  unfold simpleOf? at h
  split at h
  · split at h
    · cases h
    · cases h
      exact Or.inl rfl
  · rw [leafOf?] at h
    split at h
    · next value hfields =>
      have hvalue : value.Canonical := canonical_of_fields? hcontent hfields value (by simp)
      obtain ⟨condition, hcondition, rfl⟩ := Option.map_eq_some_iff.mp h
      exact Or.inr (Or.inr ⟨value, condition, rfl, hvalue, hcondition⟩)
    · cases h
  · cases h

theorem readFrom_of_ofJson? (hjson : json.Canonical) (h : ofJson? place json = some rule) :
    rule.ReadFrom := by
  cases json with
  | object members =>
      rw [ofJson?] at h
      split at h
      · cases h
      · split at h
        · rw [memberRules?_eq] at h
          cases hvalue : members.lookup "rules" with
          | none =>
              rw [hvalue] at h
              cases h
          | some value =>
              rw [hvalue, Option.bind_some] at h
              exact readFrom_of_arrayRules? (Json.canonical_of_lookup hjson hvalue) h
        · exact readFrom_of_simpleOf? hjson h
  | array items =>
      cases items with
      | nil => cases h
      | cons tag items =>
          rw [ofJson?] at h
          split at h
          · cases h
          · split at h
            · unfold soleRules? at h
              split at h
              · exact readFrom_of_arrayRules? hjson.2.1 h
              · cases h
            · have hitems : (Json.array items).Canonical := hjson.2
              exact readFrom_of_simpleOf? hitems h
  | null => cases h
  | bool value => cases h
  | number value => cases h
  | string text => cases h

theorem canonical_of_ofJson? (hjson : json.Canonical) (h : ofJson? place json = some rule) :
    rule.Canonical := by
  -- The induction is on the rule, since the forms of the value branch in different ways.
  induction rule generalizing place json with
  | unrestricted => exact .unrestricted
  | composite connective rules ih =>
      rcases readFrom_of_ofJson? hjson h with heq | ⟨_, items, _, heq, hitems, hread⟩ | ⟨_, _, heq, _⟩
      · cases heq
      · cases heq
        apply Canonical.composite
        intro rule hrule
        obtain ⟨item, hitem, hreads⟩ := exists_left_of_forall₂ (ofJsons?_eq_some_iff.mp hread) hrule
        exact ih rule hrule (Json.canonical_of_mem_items hitems hitem) hreads
      · cases heq
  | leaf condition =>
      rcases readFrom_of_ofJson? hjson h with heq | ⟨_, _, _, heq, _⟩ | ⟨_, _, heq, hvalue, hread⟩
      · cases heq
      · cases heq
      · cases heq
        exact .leaf (Condition.canonical_of_ofJson? hvalue hread)

end Rule

theorem PolicySet.canonical_of_ofJson? {set : PolicySet} (hjson : json.Canonical)
    (h : ofJson? json = some set) : set.Canonical := by
  rw [ofJson?] at h
  split at h
  · next read write hfields =>
    have hvalues := canonical_of_fields? hjson hfields
    have hread : read.Canonical := hvalues read (by simp)
    have hwrite : write.Canonical := hvalues write (by simp)
    split at h
    · next readRule writeRule hreadRule hwriteRule =>
      cases h
      exact ⟨Rule.canonical_of_ofJson? hread hreadRule, Rule.canonical_of_ofJson? hwrite hwriteRule⟩
    · cases h
  · cases h

/-! ## Reading back -/

/-- A value reads back from its exchange form, with the members as listed or in key order. What is
read from any form of JSON value is settled after one writing: it reads as the same, and has the same
text and fingerprint. -/
structure ReadsBack {α : Type} (write : α → Json) (read? : Json → Option α)
    (Canonical : α → Prop) : Prop where
  listed : ∀ value, read? (write value) = some value
  sorted : ∀ value, Canonical value → read? (write value).sorted = some value
  settled : ∀ json value, json.Canonical → read? json = some value →
    ∃ again, read? (write value) = some again ∧ read? (write value).sorted = some again ∧
      again = value ∧ (write again).compact = (write value).compact ∧
      (write again).fingerprint = (write value).fingerprint

theorem ReadsBack.of_canonical {α : Type} {write : α → Json} {read? : Json → Option α}
    {Canonical : α → Prop} (listed : ∀ value, read? (write value) = some value)
    (sorted : ∀ value, Canonical value → read? (write value).sorted = some value)
    (canonical : ∀ json value, json.Canonical → read? json = some value → Canonical value) :
    ReadsBack write read? Canonical where
  listed := listed
  sorted := sorted
  settled := by
    intro json value hjson h
    have hvalue := sorted value (canonical json value hjson h)
    exact ⟨value, listed value, hvalue, rfl, rfl, rfl⟩

/-- Rules, conditions, value sources, references and policy sets read back, the ones whose tag may
stand in two ways from either place. -/
theorem exchange_form_reads_back (place : TagPlace) :
    ReadsBack Rule.toJson (Rule.ofJson? place) Rule.Canonical ∧
    ReadsBack Condition.toJson (Condition.ofJson? place) Condition.Canonical ∧
    ReadsBack ValueSource.toJson (ValueSource.ofJson? place) ValueSource.Canonical ∧
    ReadsBack TemplateRef.toJson TemplateRef.ofJson? (fun _ => True) ∧
    ReadsBack PolicySet.toJson PolicySet.ofJson? PolicySet.Canonical := by
  refine ⟨?rule, ?condition, ?source, ?ref, ?set⟩
  case rule =>
    exact .of_canonical Rule.ofJson?_toJson (fun _ => Rule.ofJson?_sorted)
      fun _ _ => Rule.canonical_of_ofJson?
  case condition =>
    exact .of_canonical Condition.ofJson?_toJson (fun _ => Condition.ofJson?_sorted)
      fun _ _ => Condition.canonical_of_ofJson?
  case source =>
    exact .of_canonical ValueSource.ofJson?_toJson (fun _ => ValueSource.ofJson?_sorted)
      fun _ _ => ValueSource.canonical_of_ofJson?
  case ref =>
    exact .of_canonical TemplateRef.ofJson?_toJson (fun ref _ => ref.ofJson?_sorted)
      fun _ _ _ _ => trivial
  case set =>
    exact .of_canonical PolicySet.ofJson?_toJson (fun _ => PolicySet.ofJson?_sorted)
      fun _ _ => PolicySet.canonical_of_ofJson?

/-- A rule with a literal that looks like the exchange form of a rule, and with an empty composite. -/
def lookalike : Rule :=
  .composite .all [.leaf (.fieldEquals "type" (.literal Rule.unrestricted.toJson)),
    .composite .any []]

/-- The same rule, written as arrays of fields where that is accepted and with a member too many. -/
def lookalikeFields : Json :=
  .array [.string "And", .array
    [.array [.string "Leaf", .array [.string "field_equals", .string "type",
        .array [.string "literal", .object [("type", .string "Empty")]]]],
      .object [("note", .null), ("rules", .array []), ("type", .string "Or")]]]

theorem exchange_form_reads_back_lookalike :
    lookalikeFields.Canonical ∧
    Rule.ofJson? .outermost lookalikeFields = some lookalike ∧
    Rule.ofJson? .outermost lookalike.toJson.sorted = some lookalike ∧
    Rule.ofJson? .inner lookalike.toJson = some lookalike := by
  have htag : Ordered [("type", Json.string "Empty")] := by unfold Ordered; decide
  have hmembers : Ordered [("note", Json.null), ("rules", .array []), ("type", .string "Or")] := by
    unfold Ordered; decide
  have hjson : lookalikeFields.Canonical := by
    simp [lookalikeFields, Json.Canonical, Json.CanonicalItems, Json.CanonicalMembers, htag,
      hmembers]
  have hread : Rule.ofJson? .outermost lookalikeFields = some lookalike := rfl
  have houter := (exchange_form_reads_back .outermost).1
  obtain ⟨again, -, hsorted, rfl, -⟩ := houter.settled lookalikeFields lookalike hjson hread
  exact ⟨hjson, hread, hsorted, (exchange_form_reads_back .inner).1.listed lookalike⟩

end RowPolicy
