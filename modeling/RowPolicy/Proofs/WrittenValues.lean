import RowPolicy.Json.Raw
import RowPolicy.Proofs.JsonOrder
import RowPolicy.Proofs.Pairing

/-!
# Values of texts as written

A tree that has been read from a text has a value when every part of it has one and its containers
do not nest too deep. An array has the values of its items. An object has under each key the value
of the last member with this key, whatever the members before it hold.
-/

namespace RowPolicy

namespace Json

namespace Raw

/-- Induction on trees, in which a container has the hypothesis for each tree in it. -/
@[elab_as_elim, induction_eliminator]
theorem induction {motive : Raw → Prop} (null : motive .null) (bool : ∀ value, motive (.bool value))
    (number : ∀ value, motive (.number value)) (string : ∀ text, motive (.string text))
    (array : ∀ items, (∀ item ∈ items, motive item) → motive (.array items))
    (object : ∀ members, (∀ member ∈ members, motive member.2) → motive (.object members)) :
    ∀ raw, motive raw
  | .null => null
  | .bool value => bool value
  | .number value => number value
  | .string text => string text
  | .array items =>
    array items fun item _ => induction null bool number string array object item
  | .object members =>
    object members fun member _ => induction null bool number string array object member.2
termination_by raw => sizeOf raw
decreasing_by
  · have hsize := List.sizeOf_lt_of_mem ‹item ∈ items›
    simp only [Raw.array.sizeOf_spec]
    omega
  · have hsize := List.sizeOf_lt_of_mem ‹member ∈ members›
    have hpart : sizeOf member.2 < sizeOf member := by
      cases member
      simp only [Prod.mk.sizeOf_spec]
      omega
    simp only [Raw.object.sizeOf_spec]
    omega

variable {items : List Raw} {members : List (Option String × Raw)} {raw : Raw} {limit : Nat}
  {json : Json} {key : String}

theorem values?_eq_some_iff {values : List Json} :
    values? items limit = some values ↔
      List.Forall₂ (fun item value => item.value? limit = some value) items values := by
  induction items generalizing values with
  | nil => simp [values?, eq_comm]
  | cons item items ih =>
      rw [values?, List.forall₂_cons_left_iff]
      simp only [← ih]
      cases item.value? limit with
      | none => simp
      | some value => cases values? items limit <;> simp [eq_comm]

/-- A member with a value: its key is text, and what stands under it has a value. -/
def MemberReads (limit : Nat) (member : Option String × Raw) (pair : String × Json) : Prop :=
  member.1 = some pair.1 ∧ member.2.value? limit = some pair.2

theorem memberValues?_eq_some_iff {pairs : List (String × Json)} :
    memberValues? members limit = some pairs ↔ List.Forall₂ (MemberReads limit) members pairs := by
  induction members generalizing pairs with
  | nil => simp [memberValues?, eq_comm]
  | cons member members ih =>
      obtain ⟨key, part⟩ := member
      rw [List.forall₂_cons_left_iff]
      simp only [← ih, MemberReads]
      cases key with
      | none => simp [memberValues?]
      | some key =>
          cases hvalue : part.value? limit with
          | none => simp [memberValues?, hvalue]
          | some value =>
              cases hrest : memberValues? members limit with
              | none => simp [memberValues?, hvalue, hrest]
              | some rest => simp [memberValues?, hvalue, hrest, eq_comm]

theorem value?_array_eq_some_iff :
    (array items).value? limit = some json ↔ limit ≠ 0 ∧ ∃ values, json = .array values ∧
      List.Forall₂ (fun item value => item.value? (limit - 1) = some value) items values := by
  simp only [← values?_eq_some_iff]
  rw [value?]
  by_cases hlimit : limit = 0
  · simp [hlimit]
  · rw [if_neg hlimit, Option.map_eq_some_iff]
    simp only [ne_eq, hlimit, not_false_eq_true, true_and]
    constructor
    · rintro ⟨values, hvalues, rfl⟩
      exact ⟨values, rfl, hvalues⟩
    · rintro ⟨values, rfl, hvalues⟩
      exact ⟨values, hvalues, rfl⟩

theorem value?_object_eq_some_iff :
    (object members).value? limit = some json ↔ limit ≠ 0 ∧ ∃ pairs,
      json = ofDict (Dict.ofList pairs) ∧ List.Forall₂ (MemberReads (limit - 1)) members pairs := by
  simp only [← memberValues?_eq_some_iff]
  rw [value?]
  by_cases hlimit : limit = 0
  · simp [hlimit]
  · rw [if_neg hlimit, Option.map_eq_some_iff]
    simp only [ne_eq, hlimit, not_false_eq_true, true_and]
    constructor
    · rintro ⟨pairs, hpairs, rfl⟩
      exact ⟨pairs, rfl, hpairs⟩
    · rintro ⟨pairs, rfl, hpairs⟩
      exact ⟨pairs, hpairs, rfl⟩

/-- What is read from a text has its members in key order. -/
theorem canonical_of_value? (h : raw.value? limit = some json) : json.Canonical := by
  induction raw generalizing limit json with
  | null =>
      cases h
      trivial
  | bool value =>
      cases h
      trivial
  | number value =>
      obtain ⟨number, -, rfl⟩ := Option.map_eq_some_iff.mp h
      trivial
  | string text =>
      obtain ⟨string, -, rfl⟩ := Option.map_eq_some_iff.mp h
      trivial
  | array items ih =>
      obtain ⟨-, values, rfl, hvalues⟩ := value?_array_eq_some_iff.mp h
      apply canonicalItems_iff.mpr
      intro value hvalue
      obtain ⟨item, hitem, hread⟩ := exists_left_of_forall₂ hvalues hvalue
      exact ih item hitem hread
  | object members ih =>
      obtain ⟨-, pairs, rfl, hpairs⟩ := value?_object_eq_some_iff.mp h
      refine ⟨(Dict.ofList pairs).ordered, canonicalMembers_iff.mpr ?_⟩
      intro entry hentry
      obtain ⟨member, hmember, -, hread⟩ :=
        exists_left_of_forall₂ hpairs (Dict.mem_of_mem_ofList hentry)
      exact ih member hmember hread

theorem rel_lookup {pairs : List (String × Json)}
    (h : List.Forall₂ (MemberReads limit) members pairs) (key : String) :
    Option.Rel (fun part value => part.value? limit = some value) (members.lookup (some key))
      (pairs.lookup key) := by
  induction h with
  | nil => exact .none
  | @cons member pair members pairs hfirst _ ih =>
      obtain ⟨name, part⟩ := member
      obtain ⟨name', value⟩ := pair
      obtain ⟨rfl, hvalue⟩ := hfirst
      rw [List.lookup_cons, List.lookup_cons]
      by_cases hkey : key = name'
      · subst hkey
        simpa using hvalue
      · have hsome : (some key == some name') = false := by simpa using hkey
        have hname : (key == name') = false := by simpa using hkey
        rw [hsome, hname]
        exact ih

/-- Of repeated members the last one is read. -/
theorem rel_lookup_reverse {pairs : List (String × Json)}
    (h : List.Forall₂ (MemberReads limit) members pairs) (key : String) :
    Option.Rel (fun part value => part.value? limit = some value)
      (members.reverse.lookup (some key)) ((Dict.ofList pairs).entries.lookup key) := by
  have hlookup : (Dict.ofList pairs).entries.lookup key = pairs.reverse.lookup key :=
    Dict.get?_ofList pairs key
  rw [hlookup]
  -- The last member with a key is the first one from behind, in the tree as in the value.
  exact rel_lookup (List.forall₂_reverse_iff.mpr h) key

end Raw

theorem parse?_eq_some_iff {text : String} {json : Json} :
    parse? text = some json ↔
      ∃ raw, Raw.parse? text = some raw ∧ raw.value? nestingLimit = some json :=
  Option.bind_eq_some_iff

end Json

end RowPolicy
