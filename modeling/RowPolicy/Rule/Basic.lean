import RowPolicy.Request

/-!
# Compiled rules

A rule is a tree of conditions joined by "all of" and "any of". A condition compares one record
field with a value, or a set of principal attributes with literals. A policy set gives one rule to
each operation.
-/

namespace RowPolicy

inductive Operation
  | read
  | write
deriving DecidableEq

def Operation.name : Operation → String
  | .read => "read"
  | .write => "write"

def Operation.all : List Operation := [.read, .write]

/-- A text in lower case, as far as ASCII letters go. -/
def asciiLower (text : String) : String :=
  String.ofList (text.toList.map Char.toLower)

def Operation.parse? (text : String) : Option Operation :=
  Operation.all.find? fun operation => operation.name == asciiLower text

def Operation.complaint (text : String) : String :=
  "Unknown operation: " ++ text ++ " (expected 'read' or 'write')"

inductive Connective
  | all
  | any
deriving DecidableEq

def Connective.operator : Connective → String
  | .all => "$and"
  | .any => "$or"

inductive NodeKind
  | unrestricted
  | all
  | any
  | fieldEquals
  | attributeMatch
deriving DecidableEq

def NodeKind.every : List NodeKind :=
  [.unrestricted, .all, .any, .fieldEquals, .attributeMatch]

def NodeKind.name : NodeKind → String
  | .unrestricted => "empty"
  | .all => "and"
  | .any => "or"
  | .fieldEquals => "field_equals"
  | .attributeMatch => "user_attribute_match"

def Connective.kind : Connective → NodeKind
  | .all => .all
  | .any => .any

def principalNamespace : String := "user"

structure TemplateRef where
  name : String
deriving DecidableEq

def TemplateRef.path (ref : TemplateRef) : String :=
  principalNamespace ++ "." ++ ref.name

/-- A reference as it is written in a rule. -/
def TemplateRef.display (ref : TemplateRef) : String :=
  "\x7b\x7b" ++ ref.path ++ "\x7d\x7d"

inductive ValueSource
  | literal (value : Json)
  | template (ref : TemplateRef)

/-- The value to compare with; a template may name an attribute that the principal lacks. -/
def ValueSource.resolve? (source : ValueSource) (principal : Principal) : Option Json :=
  match source with
  | .literal value => some value
  | .template ref => principal.get? ref.name

inductive Condition
  | fieldEquals (field : String) (source : ValueSource)
  | attributeMatch (attributes : Dict Json)

def Condition.kind : Condition → NodeKind
  | .fieldEquals .. => .fieldEquals
  | .attributeMatch _ => .attributeMatch

inductive Rule
  | unrestricted
  /-- Allows when all, or any, of the sub-rules allow. -/
  | composite (connective : Connective) (rules : List Rule)
  | leaf (condition : Condition)

namespace Rule

instance : Inhabited Rule := ⟨unrestricted⟩

def isUnrestricted : Rule → Bool
  | .unrestricted => true
  | _ => false

def kind : Rule → NodeKind
  | .unrestricted => .unrestricted
  | .composite connective _ => connective.kind
  | .leaf condition => condition.kind

/-- Induction on rules, in which a composite has the hypothesis for each of its sub-rules. -/
@[elab_as_elim, induction_eliminator]
theorem induction {motive : Rule → Prop} (unrestricted : motive .unrestricted)
    (composite : ∀ connective rules, (∀ rule ∈ rules, motive rule) →
      motive (.composite connective rules))
    (leaf : ∀ condition, motive (.leaf condition)) : ∀ rule, motive rule
  | .unrestricted => unrestricted
  | .composite connective rules =>
    composite connective rules fun rule _ => induction unrestricted composite leaf rule
  | .leaf condition => leaf condition

mutual

def nodeCount : Rule → Nat
  | .composite _ rules => 1 + nodeCounts rules
  | _ => 1

def nodeCounts : List Rule → Nat
  | [] => 0
  | rule :: rules => nodeCount rule + nodeCounts rules

end

mutual

/-- The number of nodes on the longest way from the root to a leaf. -/
def depth : Rule → Nat
  | .composite _ rules => 1 + depths rules
  | _ => 1

def depths : List Rule → Nat
  | [] => 0
  | rule :: rules => max (depth rule) (depths rules)

end

end Rule

structure PolicySet where
  read : Rule
  write : Rule

def PolicySet.unrestricted : PolicySet := ⟨.unrestricted, .unrestricted⟩

def PolicySet.rule (set : PolicySet) : Operation → Rule
  | .read => set.read
  | .write => set.write

end RowPolicy
