import RowPolicy.Compiler

/-!
# The first violation of a declared rule

Whether something is wrong with a value of a declared rule depends on what the value is read as: a
rule, the sub-rules of a composite, the attributes of a condition, one of these attributes, or the
value of a field. A rule is refused exactly when something is wrong with one of its values, and it is
refused for the value that is read first, where a value is read before its parts and these are read
from left to right.
-/

namespace RowPolicy

open Compiler

/-! ## Addresses -/

inductive Segment
  | member (key : String)
  | element (index : Nat)
deriving DecidableEq

abbrev Address := List Segment

namespace Segment

def text : Segment → String
  | .member key => "." ++ key
  | .element index => "[" ++ toString index ++ "]"

inductive Before : Segment → Segment → Prop
  | member {k l : String} : k < l → Before (.member k) (.member l)
  | element {i j : Nat} : i < j → Before (.element i) (.element j)

theorem member_trichotomy (k l : String) :
    member k = member l ∨ (member k).Before (member l) ∨ (member l).Before (member k) := by
  by_cases hlt : k < l
  · exact Or.inr (Or.inl (.member hlt))
  · by_cases hgt : l < k
    · exact Or.inr (Or.inr (.member hgt))
    · left
      rw [String.le_antisymm (String.not_lt.mp hgt) (String.not_lt.mp hlt)]

theorem element_trichotomy (i j : Nat) :
    element i = element j ∨ (element i).Before (element j) ∨ (element j).Before (element i) := by
  rcases Nat.lt_trichotomy i j with hlt | rfl | hlt
  · exact Or.inr (Or.inl (.element hlt))
  · exact Or.inl rfl
  · exact Or.inr (Or.inr (.element hlt))

end Segment

namespace Address

def text : Address → String
  | [] => ""
  | segment :: address => segment.text ++ text address

/-- The order of reading: a value comes before its parts, and what is in one part before what is in a
later one. -/
abbrev Before : Address → Address → Prop := List.Lex Segment.Before

end Address

def Json.part? : Json → Segment → Option Json
  | .object members, .member key => members.lookup key
  | .array items, .element index => items[index]?
  | _, _ => none

namespace Location

def enter (place : Location) : Segment → Location
  | .member key => place.member key
  | .element index => place.item index

def follow (place : Location) (address : Address) : Location := address.foldl enter place

end Location

/-! ## Violations -/

inductive Role
  | rule
  | subrules (connective : Connective)
  | attributes
  | attributeValue (name : String)
  | fieldValue (key : String)
deriving DecidableEq

namespace Role

/-- The role of the value under a key of a rule. Whatever key is not reserved is taken for a field. -/
def ofKey (key : String) : Role :=
  match connective? key with
  | some connective => .subrules connective
  | none => if key = conditionKey then .attributes else .fieldValue key

def part? : Role → Segment → Option Role
  | .rule, .member key => some (ofKey key)
  | .subrules _, .element _ => some .rule
  | .attributes, .member name => some (.attributeValue name)
  | _, _ => none

def templateError? (scope : Namespace) : Json → Option TemplateError
  | .string raw =>
    match scope.resolve raw with
    | .error error => some error
    | .ok _ => none
  | _ => none

def hasMarks : Json → Bool
  | .string text => Template.isLike text
  | _ => false

def attributeViolation? (name : String) (value : Json) : Option Violation :=
  if name = "" then some (.malformed .emptyAttribute)
  else if isScalar value = false then some (.malformed (.notScalar value.kindName))
  else if hasMarks value then some (.malformed .templateInCondition)
  else none

def fieldViolation? (scope : Namespace) (key : String) (value : Json) : Option Violation :=
  if key.toList.head? = some '$' then some (.unknownOperator key)
  else if key = "" then some (.malformed .emptyField)
  else if isScalar value = false then some (.malformed (.notScalar value.kindName))
  else (templateError? scope value).map .template

/-- What is wrong with a value in a role, apart from its parts. -/
def violation? (scope : Namespace) : Role → Json → Option Violation
  | .rule, .object members =>
    if members.length ≤ 1 then none else some (.malformed (.severalKeys (members.map Prod.fst)))
  | .rule, value => some (.malformed (.notAnObject value.kindName))
  | .subrules connective, .array items =>
    if items = [] then some (.emptyComposite connective.operator) else none
  | .subrules connective, value =>
    some (.malformed (.notAnArray connective.operator value.kindName))
  | .attributes, .object members => if members = [] then some (.malformed .noAttributes) else none
  | .attributes, value => some (.malformed (.notAttributes value.kindName))
  | .attributeValue name, value => attributeViolation? name value
  | .fieldValue key, value => fieldViolation? scope key value

def reach? : Role → Json → Address → Option (Role × Json)
  | role, value, [] => some (role, value)
  | role, value, segment :: address =>
    (role.part? segment).bind fun role' => (value.part? segment).bind fun part =>
      reach? role' part address

def violationAt? (scope : Namespace) (role : Role) (value : Json) (address : Address) :
    Option Violation :=
  (role.reach? value address).bind fun found => found.1.violation? scope found.2

/-- Nothing is wrong with a value or with what is in it. -/
def Clean (scope : Namespace) (role : Role) (value : Json) : Prop :=
  ∀ address, role.violationAt? scope value address = none

/-- Something is wrong at an address, and nothing at the addresses that are read before it. -/
structure FirstViolation (scope : Namespace) (role : Role) (value : Json) (address : Address)
    (violation : Violation) : Prop where
  here : role.violationAt? scope value address = some violation
  earlier : ∀ before : Address, before.Before address →
    role.violationAt? scope value before = none

variable {scope : Namespace} {role role' : Role} {value part : Json} {segment : Segment}
  {address : Address} {violation : Violation}

theorem violationAt?_cons (hrole : role.part? segment = some role')
    (hpart : value.part? segment = some part) :
    role.violationAt? scope value (segment :: address) = role'.violationAt? scope part address := by
  rw [violationAt?, reach?, hrole, hpart]
  rfl

theorem exists_part_of_violationAt?
    (h : role.violationAt? scope value (segment :: address) = some violation) :
    ∃ role' part, role.part? segment = some role' ∧ value.part? segment = some part ∧
      role'.violationAt? scope part address = some violation := by
  obtain ⟨found, hfound, hviolation⟩ := Option.bind_eq_some_iff.mp h
  obtain ⟨role', hrole, hbelow⟩ := Option.bind_eq_some_iff.mp hfound
  obtain ⟨part, hpart, hreach⟩ := Option.bind_eq_some_iff.mp hbelow
  exact ⟨role', part, hrole, hpart, Option.bind_eq_some_iff.mpr ⟨found, hreach, hviolation⟩⟩

theorem violationAt?_eq_none_of_clean
    (h : ∀ role' part, role.part? segment = some role' → value.part? segment = some part →
      role'.Clean scope part) : role.violationAt? scope value (segment :: address) = none := by
  rw [Option.eq_none_iff_forall_ne_some]
  intro violation hviolation
  obtain ⟨role', part, hrole, hpart, hbelow⟩ := exists_part_of_violationAt? hviolation
  rw [h role' part hrole hpart address] at hbelow
  cases hbelow

theorem clean_of_parts (hself : role.violation? scope value = none)
    (hparts : ∀ segment role' part, role.part? segment = some role' → value.part? segment = some part →
      role'.Clean scope part) : role.Clean scope value := by
  intro address
  cases address with
  | nil => exact hself
  | cons segment address => exact violationAt?_eq_none_of_clean (hparts segment)

namespace FirstViolation

theorem root (h : role.violation? scope value = some violation) :
    role.FirstViolation scope value [] violation where
  here := h
  earlier := nofun

theorem inside (hself : role.violation? scope value = none)
    (hrole : role.part? segment = some role') (hpart : value.part? segment = some part)
    (hbefore : ∀ segment', segment'.Before segment → ∀ role'' part', role.part? segment' = some role'' →
      value.part? segment' = some part' → role''.Clean scope part')
    (h : role'.FirstViolation scope part address violation) :
    role.FirstViolation scope value (segment :: address) violation where
  here := (violationAt?_cons hrole hpart).trans h.here
  earlier := by
    intro before hlex
    -- What is read before is the value itself, or in an earlier part, or earlier in this part.
    cases hlex with
    | nil => exact hself
    | rel hsegment => exact violationAt?_eq_none_of_clean (hbefore _ hsegment)
    | cons hlex => exact (violationAt?_cons hrole hpart).trans (h.earlier _ hlex)

theorem of_inside (hrole : role.part? segment = some role') (hpart : value.part? segment = some part)
    (h : role.FirstViolation scope value (segment :: address) violation) :
    role'.FirstViolation scope part address violation where
  here := (violationAt?_cons hrole hpart).symm.trans h.here
  earlier := by
    intro before hlex
    rw [← violationAt?_cons hrole hpart]
    exact h.earlier _ (.cons hlex)

end FirstViolation

/-- The parts of one value are read one after another. -/
theorem segment_trichotomy {segment' : Segment} {role'' : Role} (h : role.part? segment = some role')
    (h' : role.part? segment' = some role'') :
    segment = segment' ∨ segment.Before segment' ∨ segment'.Before segment := by
  cases role with
  | rule =>
      cases segment with
      | element i => cases h
      | member k =>
          cases segment' with
          | element i => cases h'
          | member l => exact Segment.member_trichotomy k l
  | subrules connective =>
      cases segment with
      | member k => cases h
      | element i =>
          cases segment' with
          | member k => cases h'
          | element j => exact Segment.element_trichotomy i j
  | attributes =>
      cases segment with
      | element i => cases h
      | member k =>
          cases segment' with
          | element i => cases h'
          | member l => exact Segment.member_trichotomy k l
  | attributeValue name => cases segment <;> cases h
  | fieldValue key => cases segment <;> cases h

theorem FirstViolation.unique {address' : Address} {violation' : Violation}
    (h : role.FirstViolation scope value address violation)
    (h' : role.FirstViolation scope value address' violation') :
    address = address' ∧ violation = violation' := by
  induction address generalizing role value address' with
  | nil =>
      cases address' with
      | nil => exact ⟨rfl, Option.some.inj (h.here.symm.trans h'.here)⟩
      | cons segment' address' =>
          have hnone := h'.earlier [] .nil
          rw [h.here] at hnone
          cases hnone
  | cons segment address ih =>
      cases address' with
      | nil =>
          have hnone := h.earlier [] .nil
          rw [h'.here] at hnone
          cases hnone
      | cons segment' address' =>
          obtain ⟨role₁, part₁, hrole, hpart, -⟩ := exists_part_of_violationAt? h.here
          obtain ⟨role₂, part₂, hrole', hpart', -⟩ := exists_part_of_violationAt? h'.here
          -- Of two different parts one is read first, and there is nothing wrong in it.
          rcases segment_trichotomy hrole hrole' with rfl | hlt | hlt
          · cases hrole.symm.trans hrole'
            cases hpart.symm.trans hpart'
            obtain ⟨rfl, hviolation⟩ := ih (h.of_inside hrole hpart) (h'.of_inside hrole hpart)
            exact ⟨rfl, hviolation⟩
          · have hnone := h'.earlier (segment :: address) (.rel hlt)
            rw [h.here] at hnone
            cases hnone
          · have hnone := h.earlier (segment' :: address') (.rel hlt)
            rw [h'.here] at hnone
            cases hnone

end Role

end RowPolicy
