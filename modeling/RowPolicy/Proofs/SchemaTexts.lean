import RowPolicy.Proofs.SchemaForm
import RowPolicy.Proofs.WrittenValues

/-!
# Schema documents as texts

In a text the last member with a key is read, while the members that are interpreted must not be
repeated, and members of a block that are not rules are passed over. A text that has a value as a
whole is read like that value.
-/

namespace RowPolicy

open Json (Raw)

/-! ## Members of texts -/

def lastMember? (members : List (Option String × Raw)) (key : String) : Option Raw :=
  members.reverse.lookup (some key)

theorem lookup_reverse_of_sole? {κ α : Type} [BEq κ] [LawfulBEq κ] {key : κ}
    {members : List (κ × α)} {value? : Option α} (h : sole? key members = some value?) :
    members.reverse.lookup key = value? := by
  have hfilter := lookup_filter (· == key) members.reverse key
  rw [if_pos (beq_self_eq_true key), List.filter_reverse] at hfilter
  rw [← hfilter]
  rw [sole?] at h
  split at h
  · next hnone =>
    cases h
    rw [hnone]
    rfl
  · next member hone =>
    cases h
    have hmem : member ∈ members.filter fun member => member.1 == key := by
      rw [hone]
      exact List.mem_singleton_self member
    have hkey : member.1 = key := eq_of_beq (List.mem_filter.mp hmem).2
    rw [hone, List.reverse_singleton, ← hkey]
    exact List.lookup_cons_self
  · cases h

namespace RuleBlock

variable {block : RuleBlock} {operation : Operation} {json rule : Json} {raw : Raw} {limit : Nat}

/-- What stands for the rule of an operation in a block as written. -/
def part? : Raw → Operation → Option Raw
  | .object members, operation => lastMember? members operation.name
  | .array items, operation => items[operation.place]?
  | _, _ => none

theorem ruleOfRaw?_of_ofRaw? (h : ofRaw? limit raw = some block) (operation : Operation) :
    ruleOfRaw? (limit - 1) (part? raw operation) = some (block.rule? operation) := by
  match raw with
  | .object members =>
    rw [ofRaw?] at h
    split at h
    · cases h
    · split at h
      · next read write hread hwrite =>
        split at h
        · next read' write' hread' hwrite' =>
          cases h
          rw [part?, lastMember?]
          cases operation with
          | read => rwa [lookup_reverse_of_sole? hread]
          | write => rwa [lookup_reverse_of_sole? hwrite]
        · cases h
      · cases h
  | .array items =>
    rw [ofRaw?] at h
    split at h
    · cases h
    · split at h
      · next read write hread hwrite =>
        cases h
        cases operation with
        | read => exact hread
        | write => exact hwrite
      · cases h
  | .null | .bool _ | .number _ | .string _ => cases h

theorem ruleOfRaw?_eq_some_iff {part? : Option Raw} {rule? : Option Json} :
    ruleOfRaw? limit part? = some rule? ↔
      ∃ value?, Option.Rel (fun part value => part.value? limit = some value) part? value? ∧
        rule? = value?.bind declared := by
  cases part? with
  | none =>
      rw [ruleOfRaw?, Option.some.injEq, eq_comm]
      constructor
      · rintro rfl
        exact ⟨none, .none, rfl⟩
      · rintro ⟨value?, hrel, rfl⟩
        cases hrel
        rfl
  | some part =>
      rw [ruleOfRaw?, Option.map_eq_some_iff]
      constructor
      · rintro ⟨value, hvalue, rfl⟩
        exact ⟨some value, .some hvalue, rfl⟩
      · rintro ⟨value?, hrel, rfl⟩
        obtain ⟨value, rfl, hvalue⟩ := exists_right_of_rel hrel
        exact ⟨value, hvalue, rfl⟩

def WrittenIn (limit : Nat) (raw : Raw) (operation : Operation) (rule : Json) : Prop :=
  rule ≠ .null ∧ ∃ part, part? raw operation = some part ∧ part.value? limit = some rule

theorem rule?_eq_some_iff_of_ofRaw? (h : ofRaw? limit raw = some block) :
    block.rule? operation = some rule ↔ WrittenIn (limit - 1) raw operation rule := by
  obtain ⟨value?, hrel, hrule⟩ := ruleOfRaw?_eq_some_iff.mp (ruleOfRaw?_of_ofRaw? h operation)
  rw [hrule, bind_declared_eq_some_iff, and_comm]
  refine and_congr_right fun _ => ?_
  generalize part? raw operation = part? at hrel
  cases hrel with
  | none => simp
  | some hvalue => simp [hvalue]

theorem settled_of_ofRaw? (h : ofRaw? limit raw = some block) : block.Settled := by
  intro operation rule hrule
  obtain ⟨hne, part, -, hvalue⟩ := (rule?_eq_some_iff_of_ofRaw? h).mp hrule
  exact ⟨hne, Raw.canonical_of_value? hvalue⟩

/-- A block that is read as written is read from its value in the same way. -/
theorem ofJson?_of_ofRaw? (h : ofRaw? limit raw = some block)
    (hvalue : raw.value? limit = some json) : ofJson? json = some block := by
  have hrule : ∀ operation value?,
      Option.Rel (fun part value => part.value? (limit - 1) = some value)
        (part? raw operation) value? → block.rule? operation = value?.bind declared := by
    intro operation value? hrel
    have hread := ruleOfRaw?_of_ofRaw? h operation
    rw [ruleOfRaw?_eq_some_iff.mpr ⟨value?, hrel, rfl⟩] at hread
    exact (Option.some.inj hread).symm
  cases raw with
  | object members =>
      obtain ⟨-, pairs, rfl, hpairs⟩ := Raw.value?_object_eq_some_iff.mp hvalue
      refine ofJson?_object_eq_some_iff.mpr fun operation => ?_
      exact hrule operation _ (Raw.rel_lookup_reverse hpairs operation.name)
  | array items =>
      obtain ⟨-, values, rfl, hvalues⟩ := Raw.value?_array_eq_some_iff.mp hvalue
      have hlength : items.length ≤ 2 := by
        rw [ofRaw?] at h
        split at h
        · cases h
        · next hle => exact Nat.le_of_not_lt hle
      rw [hvalues.length_eq] at hlength
      refine ofJson?_array_eq_some_iff.mpr ⟨hlength, fun operation => ?_⟩
      exact hrule operation _ (rel_getElem? hvalues operation.place)
  | null | bool _ | number _ | string _ => cases h

end RuleBlock

namespace SchemaDocument

variable {document : SchemaDocument} {json : Json} {raw : Raw} {limit : Nat}
  {members : List (Option String × Raw)}

structure ReadFrom (limit : Nat) (members : List (Option String × Raw))
    (document : SchemaDocument) : Prop where
  name : nameOfRaw? (lastMember? members nameKey) = some document.name
  rules : rulesOfRaw? limit (lastMember? members rulesKey) = some document.rules
  other : ∀ key, Option.Rel (fun part value => part.value? limit = some value)
    (if isInterpreted key then none else lastMember? members key) (document.other.get? key)

theorem readFrom_of_ofRaw? (h : ofRaw? limit raw = some document) :
    ∃ members, raw = .object members ∧ ReadFrom (limit - 1) members document := by
  cases raw with
  | object members =>
      refine ⟨members, rfl, ?_⟩
      rw [ofRaw?] at h
      split at h
      · next name rules others hname hrules hothers =>
        split at h
        · next name' rules' hname' hrules' =>
          cases h
          rw [← lookup_reverse_of_sole? hname] at hname'
          rw [← lookup_reverse_of_sole? hrules] at hrules'
          refine ⟨hname', hrules', fun key => ?_⟩
          have hrel := Raw.rel_lookup_reverse (Raw.memberValues?_eq_some_iff.mp hothers) key
          rw [← List.filter_reverse,
            lookup_filter fun key : Option String => !key.any isInterpreted] at hrel
          rw [lastMember?, Dict.get?]
          cases hkey : isInterpreted key <;> simpa [hkey] using hrel
        · cases h
      · cases h
  | null | bool _ | number _ | string _ | array _ => cases h

theorem nameOfRaw?_eq_some_iff {part? : Option Raw} {name? : Option String} :
    nameOfRaw? part? = some name? ↔
      ((part? = none ∨ part? = some .null) ∧ name? = none) ∨
        ∃ name, part? = some (.string (some name)) ∧ name? = some name := by
  match part? with
  | none | some .null => simp [nameOfRaw?, eq_comm]
  | some (.string (some name)) => simp [nameOfRaw?, eq_comm]
  | some (.string none) | some (.bool _) | some (.number _) | some (.array _) | some (.object _) =>
    simp [nameOfRaw?]

theorem rulesOfRaw?_eq_some_some_iff {part? : Option Raw} {block : RuleBlock} :
    rulesOfRaw? limit part? = some (some block) ↔
      ∃ part, part? = some part ∧ part ≠ .null ∧ RuleBlock.ofRaw? limit part = some block := by
  match part? with
  | none => simp [rulesOfRaw?]
  | some .null => simp [rulesOfRaw?]
  | some (.bool _) | some (.number _) | some (.string _) => simp [rulesOfRaw?, RuleBlock.ofRaw?]
  | some (.array _) | some (.object _) => simp [rulesOfRaw?]

theorem rulesOfRaw?_eq_some_none_iff {part? : Option Raw} :
    rulesOfRaw? limit part? = some none ↔ ∀ part, part? = some part → part = .null := by
  match part? with
  | none => simp [rulesOfRaw?]
  | some .null => simp [rulesOfRaw?]
  | some (.bool _) | some (.number _) | some (.string _) => simp [rulesOfRaw?, RuleBlock.ofRaw?]
  | some (.array _) | some (.object _) => simp [rulesOfRaw?]

theorem ReadFrom.settled (h : ReadFrom limit members document) : document.Settled := by
  refine ⟨?rules, ?other, ?values⟩
  case rules =>
    intro block hblock
    have hrules := h.rules
    rw [hblock, rulesOfRaw?_eq_some_some_iff] at hrules
    obtain ⟨part, -, -, hread⟩ := hrules
    exact RuleBlock.settled_of_ofRaw? hread
  case other =>
    intro key hkey
    have hother := h.other key
    rw [if_pos hkey] at hother
    generalize document.other.get? key = value? at hother
    cases hother
    rfl
  case values =>
    intro key value hvalue
    have hother := h.other key
    rw [hvalue] at hother
    obtain ⟨part, -, hread⟩ := exists_left_of_rel hother
    exact Raw.canonical_of_value? hread

theorem nameOf?_of_rel {part? : Option Raw} {value? : Option Json} {name? : Option String}
    (hrel : Option.Rel (fun part value => part.value? limit = some value) part? value?)
    (h : nameOfRaw? part? = some name?) : nameOf? value? = some name? := by
  cases hrel with
  | none => exact h
  | @some part value hvalue =>
      match part with
      | .null | .string (some _) =>
        cases hvalue
        exact h
      | .string none | .bool _ | .number _ | .array _ | .object _ => cases h

theorem rulesOf?_of_rel {part? : Option Raw} {value? : Option Json} {rules? : Option RuleBlock}
    (hrel : Option.Rel (fun part value => part.value? limit = some value) part? value?)
    (h : rulesOfRaw? limit part? = some rules?) : rulesOf? value? = some rules? := by
  cases hrel with
  | none => exact h
  | @some part value hvalue =>
      cases rules? with
      | none =>
          obtain rfl := rulesOfRaw?_eq_some_none_iff.mp h part rfl
          cases hvalue
          rfl
      | some block =>
          obtain ⟨part', hpart, hne, hread⟩ := rulesOfRaw?_eq_some_some_iff.mp h
          obtain rfl := Option.some.inj hpart
          have hblock := RuleBlock.ofJson?_of_ofRaw? hread hvalue
          refine rulesOf?_eq_some_some_iff.mpr ⟨value, rfl, ?_, hblock⟩
          rintro rfl
          cases hblock

/-- A document that is read as written is read from its value in the same way. -/
theorem ofJson?_of_ofRaw? (h : ofRaw? limit raw = some document)
    (hvalue : raw.value? limit = some json) : ofJson? json = some document := by
  obtain ⟨members, rfl, hread⟩ := readFrom_of_ofRaw? h
  obtain ⟨-, pairs, rfl, hpairs⟩ := Raw.value?_object_eq_some_iff.mp hvalue
  have hrel : ∀ key, Option.Rel (fun part value => part.value? (limit - 1) = some value)
      (lastMember? members key) ((Dict.ofList pairs).entries.lookup key) :=
    Raw.rel_lookup_reverse hpairs
  refine (ofJson?_eq_some_iff (Dict.ofList pairs).ordered.nodup).mpr ⟨?name, ?rules, ?other⟩
  case name => exact nameOf?_of_rel (hrel nameKey) hread.name
  case rules => exact rulesOf?_of_rel (hrel rulesKey) hread.rules
  case other =>
    intro key
    have hunique : ∀ (part : Raw) (value value' : Json), part.value? (limit - 1) = some value →
        part.value? (limit - 1) = some value' → value = value' := by
      intro part value value' hvalue hvalue'
      exact Option.some.inj (hvalue.symm.trans hvalue')
    refine eq_of_rel hunique (hread.other key) ?_
    cases isInterpreted key with
    | true => exact .none
    | false => exact hrel key

theorem ReadFrom.rule?_eq_some_iff {operation : Operation} {rule : Json}
    (h : ReadFrom limit members document) :
    document.rule? operation = some rule ↔ ∃ part, lastMember? members rulesKey = some part ∧
      RuleBlock.WrittenIn (limit - 1) part operation rule := by
  have hrules := h.rules
  rw [rule?]
  cases hdocument : document.rules with
  | none =>
      rw [hdocument, rulesOfRaw?_eq_some_none_iff] at hrules
      refine iff_of_false (by simp) ?_
      rintro ⟨part, hpart, hwritten⟩
      obtain rfl := hrules part hpart
      simp [RuleBlock.WrittenIn, RuleBlock.part?] at hwritten
  | some block =>
      rw [hdocument, rulesOfRaw?_eq_some_some_iff] at hrules
      obtain ⟨part, hpart, -, hread⟩ := hrules
      rw [Option.bind_some, RuleBlock.rule?_eq_some_iff_of_ofRaw? hread]
      simp [hpart]

theorem ReadFrom.name_eq_some_iff {name : String} (h : ReadFrom limit members document) :
    document.name = some name ↔ lastMember? members nameKey = some (.string (some name)) := by
  rcases nameOfRaw?_eq_some_iff.mp h.name with ⟨hpart, hname⟩ | ⟨name', hpart, hname⟩
  · rw [hname]
    rcases hpart with hpart | hpart <;> simp [hpart]
  · simp [hname, hpart]

theorem ReadFrom.rules_eq_none_iff (h : ReadFrom limit members document) :
    document.rules = none ↔ ∀ part, lastMember? members rulesKey = some part → part = .null := by
  have hrules := h.rules
  cases hdocument : document.rules with
  | none =>
      rw [hdocument, rulesOfRaw?_eq_some_none_iff] at hrules
      exact iff_of_true rfl hrules
  | some block =>
      rw [hdocument, rulesOfRaw?_eq_some_some_iff] at hrules
      obtain ⟨part, hpart, hne, -⟩ := hrules
      exact iff_of_false nofun fun hnull => hne (hnull part hpart)

end SchemaDocument

end RowPolicy
