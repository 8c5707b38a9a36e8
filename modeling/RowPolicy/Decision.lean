import RowPolicy.Rule.Encoding

/-!
# Decisions

Evaluating rules against a principal and, when there is one, a record. Missing data never matches
and never fails. The sub-rules of a composite are visited from left to right until one settles it;
a traced decision lists every node visited, each after its own sub-rules.
-/

namespace RowPolicy

/-- Whether a value that is there matches the expected one; null matches nothing. -/
def matchesValue (actual expected : Json) : Bool :=
  !actual.isNull && actual.same expected

namespace Condition

def holds (principal : Principal) (record : Option Record) : Condition → Bool
  | .fieldEquals field source =>
    match record.bind (·.get? field), source.resolve? principal with
    | some actual, some expected => matchesValue actual expected
    | _, _ => false
  | .attributeMatch attributes =>
    !attributes.isEmpty && attributes.entries.all fun (name, expected) =>
      (principal.get? name).any (matchesValue · expected)

end Condition

/-- The outcome of a sub-rule that settles a composite at once. -/
def Connective.settles : Connective → Bool
  | .all => false
  | .any => true

namespace Rule

mutual

def evaluate (principal : Principal) (record : Option Record) : Rule → Bool
  | .unrestricted => true
  | .composite connective rules => evaluateUntil principal record connective.settles rules
  | .leaf condition => condition.holds principal record

/-- Whether some sub-rule has the settling outcome, which then is the answer; visits stop there. -/
def evaluateUntil (principal : Principal) (record : Option Record) (settling : Bool) :
    List Rule → Bool
  | [] => !settling
  | rule :: rules =>
    if evaluate principal record rule = settling then settling
    else evaluateUntil principal record settling rules

end

end Rule

/-- A visited node: its place in the rule, its kind and its outcome. -/
structure TraceStep where
  path : String
  node : NodeKind
  outcome : Bool
deriving DecidableEq

def childPath (path : String) (connective : Connective) (index : Nat) : String :=
  path ++ "." ++ connective.operator ++ "[" ++ toString index ++ "]"

namespace Rule

mutual

def visit (principal : Principal) (record : Option Record) (path : String) :
    Rule → Bool × List TraceStep
  | .unrestricted => (true, [⟨path, .unrestricted, true⟩])
  | .composite connective rules =>
    let (outcome, steps) := visitUntil principal record path connective 0 rules
    (outcome, steps ++ [⟨path, connective.kind, outcome⟩])
  | .leaf condition =>
    let outcome := condition.holds principal record
    (outcome, [⟨path, condition.kind, outcome⟩])

/-- Visits sub-rules, the first of which has the given index, until one settles the composite. -/
def visitUntil (principal : Principal) (record : Option Record) (path : String)
    (connective : Connective) (index : Nat) : List Rule → Bool × List TraceStep
  | [] => (!connective.settles, [])
  | rule :: rules =>
    let (outcome, steps) := visit principal record (childPath path connective index) rule
    if outcome = connective.settles then (outcome, steps)
    else
      let (answer, more) := visitUntil principal record path connective (index + 1) rules
      (answer, steps ++ more)

end

end Rule

/-- The first visited node without sub-rules that allowed. -/
def decidingLeaf? (trace : List TraceStep) : Option TraceStep :=
  trace.find? fun step => step.outcome && step.node != .all && step.node != .any

structure Decision where
  allow : Bool
  trace : Option (List TraceStep)
deriving DecidableEq

namespace PolicySet

/-- Decides an operation. Without a record only principal attributes can match. -/
def decide (set : PolicySet) (operation : Operation) (principal : Principal)
    (record : Option Record) : Decision :=
  ⟨(set.rule operation).evaluate principal record, none⟩

def decideTraced (set : PolicySet) (operation : Operation) (principal : Principal)
    (record : Option Record) : Decision :=
  let (allow, trace) := (set.rule operation).visit principal record operation.name
  ⟨allow, some trace⟩

/-- The records that the principal may access, in their order. -/
def filter (set : PolicySet) (operation : Operation) (principal : Principal)
    (records : List Record) : List Record :=
  records.filter fun record => (set.rule operation).evaluate principal (some record)

end PolicySet

def TraceStep.toJson (step : TraceStep) : Json :=
  .object [("path", .string step.path), ("node", step.node.toJson), ("outcome", .bool step.outcome)]

end RowPolicy
