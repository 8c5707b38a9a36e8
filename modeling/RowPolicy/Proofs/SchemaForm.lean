import RowPolicy.Proofs.JsonOrder
import RowPolicy.Schema.Document

/-!
# The exchange form of schema documents

A document is read from an object: its name, its block of rules and, as they are, the other members.
A block may also be an array of rules, and what is null is as good as missing. Written again, a
document has its name and its block, the latter as an object, only where they are there, and it is
read as the same document from then on.
-/

namespace RowPolicy

/-- The place of a rule in a block that is an array. -/
def Operation.place : Operation → Nat
  | .read => 0
  | .write => 1

theorem Operation.name_injective : Function.Injective Operation.name := by
  intro operation operation' h
  cases operation <;> cases operation' <;> first | rfl | exact absurd h (by decide)

/-! ## Blocks of rules -/

namespace RuleBlock

variable {block block' : RuleBlock} {operation : Operation} {json rule : Json}

def rule? (block : RuleBlock) : Operation → Option Json
  | .read => block.read
  | .write => block.write

theorem eq_iff_rule? :
    block = block' ↔ ∀ operation, block.rule? operation = block'.rule? operation := by
  constructor
  · rintro rfl _
    rfl
  · intro h
    have hread : block.read = block'.read := h .read
    have hwrite : block.write = block'.write := h .write
    cases block
    cases block'
    rw [RuleBlock.mk.injEq]
    exact ⟨hread, hwrite⟩

/-- A value declares a rule for an operation, under its name or at its place. -/
def DeclaredIn (json : Json) (operation : Operation) (rule : Json) : Prop :=
  rule ≠ .null ∧
    ((∃ members, json = .object members ∧ members.lookup operation.name = some rule) ∨
      ∃ items, json = .array items ∧ items[operation.place]? = some rule)

theorem declared_eq_some_iff : declared json = some rule ↔ json = rule ∧ rule ≠ .null := by
  cases json with
  | null => simp [declared, eq_comm]
  | _ =>
      simp only [declared, Option.some.injEq, iff_self_and]
      rintro rfl
      nofun

theorem bind_declared_eq_some_iff {value? : Option Json} :
    value?.bind declared = some rule ↔ value? = some rule ∧ rule ≠ .null := by
  simp [Option.bind_eq_some_iff, declared_eq_some_iff]

theorem ofJson?_object_eq_some_iff {members : List (String × Json)} :
    ofJson? (.object members) = some block ↔
      ∀ operation, block.rule? operation = (members.lookup operation.name).bind declared := by
  rw [ofJson?, Option.some.injEq, eq_comm, eq_iff_rule?]
  exact forall_congr' fun operation => by cases operation <;> rfl

theorem ofJson?_array_eq_some_iff {items : List Json} :
    ofJson? (.array items) = some block ↔ items.length ≤ 2 ∧
      ∀ operation, block.rule? operation = items[operation.place]?.bind declared := by
  match items with
  | [] | [_] | [_, _] =>
    rw [ofJson?, Option.some.injEq, eq_comm, eq_iff_rule?]
    simp only [List.length_nil, List.length_cons, Nat.reduceAdd, Nat.reduceLeDiff, true_and]
    exact forall_congr' fun operation => by cases operation <;> rfl
  | _ :: _ :: _ :: _ => simp [ofJson?]

theorem rule?_eq_some_iff (h : ofJson? json = some block) :
    block.rule? operation = some rule ↔ DeclaredIn json operation rule := by
  match json with
  | .object members =>
    rw [ofJson?_object_eq_some_iff.mp h, bind_declared_eq_some_iff, and_comm]
    simp [DeclaredIn]
  | .array items =>
    rw [(ofJson?_array_eq_some_iff.mp h).2, bind_declared_eq_some_iff, and_comm]
    simp [DeclaredIn]
  | .null | .bool _ | .number _ | .string _ => cases h

def members (block : RuleBlock) : List (String × Json) :=
  (block.read.toList.map fun rule => (Operation.read.name, rule))
    ++ block.write.toList.map fun rule => (Operation.write.name, rule)

theorem lookup_members_eq_some_iff {key : String} :
    block.members.lookup key = some rule ↔
      ∃ operation, key = operation.name ∧ block.rule? operation = some rule := by
  have hne : Operation.write.name ≠ Operation.read.name := by decide
  rw [members, List.lookup_append, lookup_optional_entry, lookup_optional_entry, Option.map_id',
    Option.map_id']
  constructor
  · intro h
    rcases Option.or_eq_some_iff.mp h with hread | ⟨-, hwrite⟩
    · obtain ⟨hkey, hread⟩ := Option.ite_none_right_eq_some.mp hread
      exact ⟨.read, hkey, hread⟩
    · obtain ⟨hkey, hwrite⟩ := Option.ite_none_right_eq_some.mp hwrite
      exact ⟨.write, hkey, hwrite⟩
  · rintro ⟨operation, rfl, h⟩
    cases operation with
    | read => rw [if_pos rfl, show block.read = some rule from h, Option.some_or]
    | write => rw [if_neg hne, if_pos rfl, Option.none_or, show block.write = some rule from h]

@[simp] theorem lookup_members (block : RuleBlock) (operation : Operation) :
    block.members.lookup operation.name = block.rule? operation := by
  apply Option.ext
  intro rule
  rw [lookup_members_eq_some_iff]
  constructor
  · rintro ⟨operation', hname, hrule⟩
    obtain rfl := Operation.name_injective hname
    exact hrule
  · exact fun hrule => ⟨operation, rfl, hrule⟩

theorem ordered_members (block : RuleBlock) : Ordered block.members := by
  have hlt : Operation.read.name < Operation.write.name := by decide
  rcases block with ⟨_ | read, _ | write⟩
  · exact .nil
  · exact List.pairwise_singleton _ _
  · exact List.pairwise_singleton _ _
  · exact List.pairwise_pair.mpr hlt

/-- No rule of a block is null, and all are canonical. -/
def Settled (block : RuleBlock) : Prop :=
  ∀ operation rule, block.rule? operation = some rule → rule ≠ .null ∧ rule.Canonical

theorem settled_of_ofJson? (hjson : json.Canonical) (h : ofJson? json = some block) :
    block.Settled := by
  intro operation rule hrule
  obtain ⟨hne, ⟨members, rfl, hlookup⟩ | ⟨items, rfl, hitem⟩⟩ := (rule?_eq_some_iff h).mp hrule
  · exact ⟨hne, Json.canonical_of_lookup hjson hlookup⟩
  · exact ⟨hne, Json.canonical_of_mem_items hjson (List.mem_of_getElem? hitem)⟩

theorem Settled.canonical_toJson (h : block.Settled) : block.toJson.Canonical := by
  refine ⟨block.ordered_members, Json.canonicalMembers_iff.mpr ?_⟩
  rintro ⟨key, rule⟩ hmem
  have hlookup := (lookup_eq_some_iff_mem block.ordered_members.nodup).mpr hmem
  obtain ⟨operation, -, hrule⟩ := lookup_members_eq_some_iff.mp hlookup
  exact (h operation rule hrule).2

theorem Settled.ofJson?_toJson (h : block.Settled) : ofJson? block.toJson = some block := by
  refine ofJson?_object_eq_some_iff.mpr fun operation => ?_
  rw [← members, lookup_members]
  apply Option.ext
  intro rule
  rw [bind_declared_eq_some_iff, iff_self_and]
  exact fun hrule => (h operation rule hrule).1

end RuleBlock

/-! ## Documents -/

namespace SchemaDocument

def members (document : SchemaDocument) : List (String × Json) :=
  (document.name.toList.map fun name => (nameKey, .string name))
    ++ (document.rules.toList.map fun block => (rulesKey, block.toJson)) ++ document.other.entries

def member? (document : SchemaDocument) (key : String) : Option Json :=
  if key = nameKey then document.name.map .string
  else if key = rulesKey then document.rules.map RuleBlock.toJson
  else document.other.get? key

variable {document : SchemaDocument} {json : Json} {members : List (String × Json)}

def rule? (document : SchemaDocument) (operation : Operation) : Option Json :=
  document.rules.bind (·.rule? operation)

/-- No other member of a document has an interpreted key, its rules are settled, and all its values
are canonical. -/
structure Settled (document : SchemaDocument) : Prop where
  rules : ∀ block, document.rules = some block → block.Settled
  other : ∀ key, isInterpreted key = true → document.other.get? key = none
  values : ∀ key value, document.other.get? key = some value → value.Canonical

theorem isInterpreted_eq_true_iff {key : String} :
    isInterpreted key = true ↔ key = nameKey ∨ key = rulesKey := by
  simp [isInterpreted]

theorem get?_others (h : (members.map Prod.fst).Nodup) (key : String) :
    (Dict.ofList (members.filter fun member => !isInterpreted member.1)).get? key =
      if isInterpreted key then none else members.lookup key := by
  have hkept : ((members.filter fun member => !isInterpreted member.1).map Prod.fst).Nodup :=
    h.sublist (List.filter_sublist.map Prod.fst)
  rw [Dict.get?_ofList_of_nodup hkept, lookup_filter fun key => !isInterpreted key]
  cases isInterpreted key <;> rfl

theorem ofJson?_eq_some_iff (h : (members.map Prod.fst).Nodup) :
    ofJson? (.object members) = some document ↔
      nameOf? (members.lookup nameKey) = some document.name ∧
      rulesOf? (members.lookup rulesKey) = some document.rules ∧
      ∀ key, document.other.get? key =
        if isInterpreted key then none else members.lookup key := by
  simp only [← get?_others h]
  rw [ofJson?]
  cases nameOf? (members.lookup nameKey) with
  | none => simp
  | some name =>
      cases rulesOf? (members.lookup rulesKey) with
      | none => simp
      | some rules =>
          obtain ⟨name', rules', other⟩ := document
          simp only [Option.some.injEq, SchemaDocument.mk.injEq]
          refine and_congr_right fun _ => and_congr_right fun _ => ?_
          constructor
          · rintro rfl _
            rfl
          · exact fun hother => Dict.ext_get? fun key => (hother key).symm

theorem Settled.lookup_members (h : document.Settled) (key : String) :
    document.members.lookup key = document.member? key := by
  have hne : rulesKey ≠ nameKey := by decide
  have hother := h.other key
  rw [isInterpreted_eq_true_iff] at hother
  rw [members, List.lookup_append, List.lookup_append, lookup_optional_entry,
    lookup_optional_entry, member?]
  by_cases hname : key = nameKey
  · rw [if_pos hname, if_pos hname, if_neg (hname ▸ hne.symm), Option.or_none,
      show document.other.entries.lookup key = none from hother (Or.inl hname), Option.or_none]
  · rw [if_neg hname, if_neg hname, Option.none_or]
    by_cases hrules : key = rulesKey
    · rw [if_pos hrules, if_pos hrules,
        show document.other.entries.lookup key = none from hother (Or.inr hrules), Option.or_none]
    · rw [if_neg hrules, if_neg hrules, Option.none_or, Dict.get?]

theorem Settled.nodup_members (h : document.Settled) : (document.members.map Prod.fst).Nodup := by
  have habsent : ∀ key, isInterpreted key = true → key ∉ document.other.entries.map Prod.fst := by
    intro key hkey hmem
    have hsome := Dict.mem_keys_iff.mp hmem
    rw [h.other key hkey] at hsome
    cases hsome
  have hname := habsent nameKey rfl
  have hrules := habsent rulesKey rfl
  have hne : nameKey ≠ rulesKey := by decide
  have hother := document.other.ordered.nodup
  rw [members, List.map_append, List.map_append]
  rcases document with ⟨_ | name, _ | block, other⟩
  all_goals simp_all

theorem Settled.canonical_member (h : document.Settled) {key : String} {value : Json}
    (hvalue : document.member? key = some value) : value.Canonical := by
  rw [member?] at hvalue
  split at hvalue
  · obtain ⟨name, -, rfl⟩ := Option.map_eq_some_iff.mp hvalue
    trivial
  · split at hvalue
    · obtain ⟨block, hblock, rfl⟩ := Option.map_eq_some_iff.mp hvalue
      exact (h.rules block hblock).canonical_toJson
    · exact h.values key value hvalue

theorem Settled.canonicalMembers (h : document.Settled) :
    Json.CanonicalMembers document.members := by
  rw [Json.canonicalMembers_iff]
  rintro ⟨key, value⟩ hmem
  have hlookup := (lookup_eq_some_iff_mem h.nodup_members).mpr hmem
  rw [h.lookup_members] at hlookup
  exact h.canonical_member hlookup

/-- The exchange form of a document, with its members as listed or in key order. -/
def WrittenAs (document : SchemaDocument) (json : Json) : Prop :=
  json = document.toJson ∨ json = document.toJson.sorted

theorem Settled.exists_members (h : document.Settled) (hjson : document.WrittenAs json) :
    ∃ members, json = .object members ∧ (members.map Prod.fst).Nodup ∧
      ∀ key, members.lookup key = document.member? key := by
  rcases hjson with rfl | rfl
  · exact ⟨document.members, rfl, h.nodup_members, h.lookup_members⟩
  · refine ⟨(Dict.ofList document.members).entries, ?_, (Dict.ofList _).ordered.nodup, ?_⟩
    · rw [show document.toJson = .object document.members from rfl, Json.sorted,
        Json.sortedMembers_of_canonical h.canonicalMembers]
      rfl
    · intro key
      rw [← h.lookup_members]
      exact Dict.get?_ofList_of_nodup h.nodup_members key

@[simp] theorem nameOf?_map_string (name : Option String) : nameOf? (name.map .string) = some name := by
  cases name <;> rfl

theorem rulesOf?_map_toJson {rules : Option RuleBlock}
    (h : ∀ block, rules = some block → block.Settled) :
    rulesOf? (rules.map RuleBlock.toJson) = some rules := by
  cases rules with
  | none => rfl
  | some block =>
      have hread := (h block rfl).ofJson?_toJson
      rw [Option.map_some]
      exact congrArg (Option.map some) hread

@[simp] theorem member?_nameKey (document : SchemaDocument) :
    document.member? nameKey = document.name.map .string := rfl

@[simp] theorem member?_rulesKey (document : SchemaDocument) :
    document.member? rulesKey = document.rules.map RuleBlock.toJson := rfl

theorem member?_of_isInterpreted_eq_false {key : String} (h : isInterpreted key = false) :
    document.member? key = document.other.get? key := by
  have hneither : ¬ (key = nameKey ∨ key = rulesKey) := by
    rw [← isInterpreted_eq_true_iff, h]
    nofun
  rw [not_or] at hneither
  rw [member?, if_neg hneither.1, if_neg hneither.2]

theorem Settled.ofJson?_of_writtenAs (h : document.Settled) (hjson : document.WrittenAs json) :
    ofJson? json = some document := by
  obtain ⟨members, rfl, hnodup, hmembers⟩ := h.exists_members hjson
  rw [ofJson?_eq_some_iff hnodup]
  simp only [hmembers]
  refine ⟨nameOf?_map_string _, rulesOf?_map_toJson h.rules, fun key => ?_⟩
  cases hkey : isInterpreted key with
  | true => exact h.other key hkey
  | false => exact (member?_of_isInterpreted_eq_false hkey).symm

/-! ## What a document is read from -/

theorem map_string_eq_some_iff {value? : Option Json} {name? : Option String} {value : Json}
    (h : nameOf? value? = some name?) :
    name?.map .string = some value ↔ value? = some value ∧ value ≠ .null := by
  match value? with
  | none =>
    cases h
    simp
  | some .null =>
    cases h
    simp [eq_comm]
  | some (.string name) =>
    cases h
    simp only [Option.map_some, Option.some.injEq, iff_self_and]
    rintro rfl
    nofun
  | some (.bool _) | some (.number _) | some (.array _) | some (.object _) => cases h

theorem rulesOf?_eq_some_some_iff {value? : Option Json} {block : RuleBlock} :
    rulesOf? value? = some (some block) ↔
      ∃ value, value? = some value ∧ value ≠ .null ∧ RuleBlock.ofJson? value = some block := by
  match value? with
  | none => simp [rulesOf?]
  | some .null => simp [rulesOf?]
  | some (.bool _) | some (.number _) | some (.string _) => simp [rulesOf?, RuleBlock.ofJson?]
  | some (.array _) | some (.object _) => simp [rulesOf?]

theorem rulesOf?_eq_some_none_iff {value? : Option Json} :
    rulesOf? value? = some none ↔ ∀ value, value? = some value → value = .null := by
  match value? with
  | none => simp [rulesOf?]
  | some .null => simp [rulesOf?]
  | some (.bool _) | some (.number _) | some (.string _) => simp [rulesOf?, RuleBlock.ofJson?]
  | some (.array _) | some (.object _) => simp [rulesOf?]

/-- A document keeps the members that it does not interpret. -/
theorem entries_other_of_ofJson? (hmembers : Ordered members)
    (h : ofJson? (.object members) = some document) :
    document.other.entries = members.filter fun member => !isInterpreted member.1 := by
  rw [ofJson?] at h
  split at h
  · cases h
    exact Dict.ofList_of_ordered (hmembers.sublist (List.filter_sublist.map Prod.fst))
  · cases h

theorem settled_of_ofJson? (hjson : json.Canonical) (h : ofJson? json = some document) :
    document.Settled := by
  match json with
  | .object members =>
    obtain ⟨-, hrules, hother⟩ := (ofJson?_eq_some_iff hjson.1.nodup).mp h
    refine ⟨?rules, ?other, ?values⟩
    case rules =>
      intro block hblock
      rw [hblock, rulesOf?_eq_some_some_iff] at hrules
      obtain ⟨value, hvalue, -, hread⟩ := hrules
      exact RuleBlock.settled_of_ofJson? (Json.canonical_of_lookup hjson hvalue) hread
    case other =>
      intro key hkey
      rw [hother, if_pos hkey]
    case values =>
      intro key value hvalue
      rw [hother] at hvalue
      exact Json.canonical_of_lookup hjson (Option.ite_none_left_eq_some.mp hvalue).2
  | .null | .bool _ | .number _ | .string _ | .array _ => cases h

/-- How an object is written again: the members that are not interpreted as they are, the name
unless it is null, and under the key of the rules, unless null stands there, an object of the rules
that are declared. -/
structure Normalizes (json written : Json) : Prop where
  other : ∀ key, isInterpreted key = false → written.member? key = json.member? key
  name : ∀ value, written.member? nameKey = some value ↔
    json.member? nameKey = some value ∧ value ≠ .null
  absent : written.member? rulesKey = none ↔
    ∀ value, json.member? rulesKey = some value → value = .null
  rules : ∀ written', written.member? rulesKey = some written' →
    ∃ value rules, json.member? rulesKey = some value ∧ written' = .object rules ∧
      ∀ key rule, rules.lookup key = some rule ↔
        ∃ operation, key = operation.name ∧ RuleBlock.DeclaredIn value operation rule

theorem normalizes_of_ofJson? {written : Json} (hjson : json.Canonical)
    (h : ofJson? json = some document) (hwritten : document.WrittenAs written) :
    Normalizes json written := by
  have hsettled := settled_of_ofJson? hjson h
  obtain ⟨members', rfl, -, hlookup⟩ := hsettled.exists_members hwritten
  have hmember : ∀ key, (Json.object members').member? key = document.member? key := hlookup
  match json with
  | .object members =>
    obtain ⟨hname, hrules, hother⟩ := (ofJson?_eq_some_iff hjson.1.nodup).mp h
    refine ⟨?other, ?name, ?absent, ?rules⟩
    case other =>
      intro key hkey
      rw [hmember, member?_of_isInterpreted_eq_false hkey, hother, hkey]
      rfl
    case name =>
      intro value
      rw [hmember, member?_nameKey]
      exact map_string_eq_some_iff hname
    case absent =>
      rw [hmember, member?_rulesKey, Option.map_eq_none_iff]
      cases hdocument : document.rules with
      | none =>
          rw [hdocument, rulesOf?_eq_some_none_iff] at hrules
          exact iff_of_true rfl hrules
      | some block =>
          rw [hdocument, rulesOf?_eq_some_some_iff] at hrules
          obtain ⟨value, hvalue, hne, -⟩ := hrules
          exact iff_of_false nofun fun hnull => hne (hnull value hvalue)
    case rules =>
      intro written' hwritten'
      rw [hmember, member?_rulesKey] at hwritten'
      obtain ⟨block, hblock, rfl⟩ := Option.map_eq_some_iff.mp hwritten'
      rw [hblock, rulesOf?_eq_some_some_iff] at hrules
      obtain ⟨value, hvalue, -, hread⟩ := hrules
      refine ⟨value, block.members, hvalue, rfl, fun key rule => ?_⟩
      rw [RuleBlock.lookup_members_eq_some_iff]
      simp only [RuleBlock.rule?_eq_some_iff hread]
  | .null | .bool _ | .number _ | .string _ | .array _ => cases h

theorem rule?_eq_some_iff_of_ofJson? {members : List (String × Json)} {operation : Operation}
    {rule : Json} (hmembers : (members.map Prod.fst).Nodup)
    (h : ofJson? (.object members) = some document) :
    document.rule? operation = some rule ↔ ∃ value, members.lookup rulesKey = some value ∧
      RuleBlock.DeclaredIn value operation rule := by
  obtain ⟨-, hrules, -⟩ := (ofJson?_eq_some_iff hmembers).mp h
  rw [rule?]
  cases hdocument : document.rules with
  | none =>
      rw [hdocument, rulesOf?_eq_some_none_iff] at hrules
      refine iff_of_false (by simp) ?_
      rintro ⟨value, hvalue, hdeclared⟩
      obtain rfl := hrules value hvalue
      simp [RuleBlock.DeclaredIn] at hdeclared
  | some block =>
      rw [hdocument, rulesOf?_eq_some_some_iff] at hrules
      obtain ⟨value, hvalue, -, hread⟩ := hrules
      rw [Option.bind_some, RuleBlock.rule?_eq_some_iff hread]
      simp [hvalue]

end SchemaDocument

end RowPolicy
