import RowPolicy.Rule.Basic
import RowPolicy.Json.Printer

/-!
# Rules as JSON

The exchange form of rules: every alternative is an object that starts with its tag, with its
fields after it in a fixed order. A fingerprint is the digest of the compact text of this form.
-/

namespace RowPolicy

def Operation.toJson (operation : Operation) : Json := .string operation.name

def NodeKind.toJson (kind : NodeKind) : Json := .string kind.name

def TemplateRef.toJson (ref : TemplateRef) : Json := .object [("attribute", .string ref.name)]

def ValueSource.toJson : ValueSource → Json
  | .literal value => .object [("kind", .string "literal"), ("value", value)]
  | .template ref => .object [("kind", .string "template"), ("value", ref.toJson)]

def Condition.toJson : Condition → Json
  | .fieldEquals field source =>
    .object [("kind", .string "field_equals"), ("field", .string field),
      ("value_source", source.toJson)]
  | .attributeMatch attributes =>
    .object [("kind", .string "user_attribute_match"), ("attributes", Json.ofDict attributes)]

def Connective.tag : Connective → String
  | .all => "And"
  | .any => "Or"

namespace Rule

mutual

def toJson : Rule → Json
  | .unrestricted => .object [("type", .string "Empty")]
  | .composite connective rules =>
    .object [("type", .string connective.tag), ("rules", .array (toJsons rules))]
  | .leaf condition => .object [("type", .string "Leaf"), ("condition", condition.toJson)]

def toJsons : List Rule → List Json
  | [] => []
  | rule :: rules => toJson rule :: toJsons rules

end

def fingerprint (rule : Rule) : String := rule.toJson.fingerprint

end Rule

def PolicySet.toJson (set : PolicySet) : Json :=
  .object [("read", set.read.toJson), ("write", set.write.toJson)]

def PolicySet.fingerprint (set : PolicySet) : String := set.toJson.fingerprint

/-- The exchange form of the policies of several entities, in key order. -/
def policiesJson (policies : Dict PolicySet) : Json :=
  .object (policies.entries.map fun entry => (entry.1, entry.2.toJson))

/-- Equality of policy sets up to the equality of the literals in them. -/
def PolicySet.same (a b : PolicySet) : Bool := a.toJson.same b.toJson

end RowPolicy
