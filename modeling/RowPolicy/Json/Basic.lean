import RowPolicy.Dict
import RowPolicy.Number.Binary64

/-!
# JSON values

A JSON value keeps the members of an object in a list, so that a writer may choose their order.
A value is *canonical* when every object in it lists its members in strictly increasing key
order; readers of text produce canonical values. Integers and floats are different numbers even
when they stand for the same quantity.
-/

namespace RowPolicy

namespace Json

/-- An integer that fits sixty-four bits, signed or unsigned. -/
structure Integer where
  value : Int
  low : -9223372036854775808 ≤ value
  high : value ≤ 18446744073709551615
deriving DecidableEq

def Integer.ofInt? (value : Int) : Option Integer :=
  if low : -9223372036854775808 ≤ value then
    if high : value ≤ 18446744073709551615 then some ⟨value, low, high⟩ else none
  else none

/-- A JSON number is an integer or a finite double. -/
inductive Number
  | integer (value : Integer)
  | real (value : Binary64)
deriving DecidableEq

/-- Equality of numbers: by value within a kind, never across kinds. -/
def Number.same : Number → Number → Bool
  | .integer a, .integer b => a.value == b.value
  | .real a, .real b => a.same b
  | _, _ => false

end Json

inductive Json
  | null
  | bool (value : Bool)
  | number (value : Json.Number)
  | string (value : String)
  | array (items : List Json)
  | object (members : List (String × Json))

namespace Json

instance : Inhabited Json := ⟨null⟩

def ofDict (members : Dict Json) : Json := .object members.entries

def ofInteger (value : Integer) : Json := .number (.integer value)

/-- The number of a count; counts beyond sixty-four bits, which no text can hold, become null. -/
def ofNat (n : Nat) : Json :=
  match Integer.ofInt? n with
  | some value => ofInteger value
  | none => .null

def isNull : Json → Bool
  | .null => true
  | _ => false

def kindName : Json → String
  | .null => "null"
  | .bool _ => "boolean"
  | .number _ => "number"
  | .string _ => "string"
  | .array _ => "array"
  | .object _ => "object"

def members? : Json → Option (List (String × Json))
  | .object members => some members
  | _ => none

def member? (json : Json) (key : String) : Option Json :=
  json.members?.bind (·.lookup key)

mutual

/-- Equality of values: member by member in the order listed, numbers by `Number.same`. -/
def same : Json → Json → Bool
  | .null, .null => true
  | .bool a, .bool b => a == b
  | .number a, .number b => a.same b
  | .string a, .string b => a == b
  | .array as, .array bs => sameItems as bs
  | .object as, .object bs => sameMembers as bs
  | _, _ => false

def sameItems : List Json → List Json → Bool
  | [], [] => true
  | a :: as, b :: bs => same a b && sameItems as bs
  | _, _ => false

def sameMembers : List (String × Json) → List (String × Json) → Bool
  | [], [] => true
  | (k, a) :: as, (l, b) :: bs => k == l && same a b && sameMembers as bs
  | _, _ => false

end

mutual

/-- Every object lists its members in strictly increasing key order. -/
def Canonical : Json → Prop
  | .array items => CanonicalItems items
  | .object members => Ordered members ∧ CanonicalMembers members
  | _ => True

def CanonicalItems : List Json → Prop
  | [] => True
  | item :: items => Canonical item ∧ CanonicalItems items

def CanonicalMembers : List (String × Json) → Prop
  | [] => True
  | (_, value) :: members => Canonical value ∧ CanonicalMembers members

end

theorem canonicalItems_iff {items : List Json} :
    CanonicalItems items ↔ ∀ item ∈ items, Canonical item := by
  induction items with
  | nil => simp [CanonicalItems]
  | cons item items ih => rw [CanonicalItems, ih, List.forall_mem_cons]

theorem canonicalMembers_iff {members : List (String × Json)} :
    CanonicalMembers members ↔ ∀ member ∈ members, Canonical member.2 := by
  induction members with
  | nil => simp [CanonicalMembers]
  | cons member members ih => rw [CanonicalMembers, ih, List.forall_mem_cons]

mutual

/-- Puts the members of every object in key order; of repeated keys the last one wins. -/
def sorted : Json → Json
  | .array items => .array (sortedItems items)
  | .object members => ofDict (Dict.ofList (sortedMembers members))
  | json => json

def sortedItems : List Json → List Json
  | [] => []
  | item :: items => sorted item :: sortedItems items

def sortedMembers : List (String × Json) → List (String × Json)
  | [] => []
  | (key, value) :: members => (key, sorted value) :: sortedMembers members

end

end Json

end RowPolicy
