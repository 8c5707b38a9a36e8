import RowPolicy.Decision

/-!
# The policy registry

A registry holds the current snapshot: the policies of every entity, a generation number that rises
with every published change, and the fingerprint of all policies. A reload whose policies have the
fingerprint of the current ones publishes nothing.
-/

namespace RowPolicy

/-- The fingerprint of the policies of several entities; it does not depend on the order in which
they were added. -/
def policiesFingerprint (policies : Dict PolicySet) : String := (policiesJson policies).fingerprint

structure Snapshot where
  generation : Nat
  fingerprint : String
  policies : Dict PolicySet

structure UnknownEntity where
  entity : String
deriving DecidableEq

def UnknownEntity.message (error : UnknownEntity) : String := "Unknown entity: " ++ error.entity

/-- A rule together with the policy set that it was looked up in. -/
structure RuleRef where
  set : PolicySet
  operation : Operation

def RuleRef.rule (ref : RuleRef) : Rule := ref.set.rule ref.operation

namespace Snapshot

def publish (generation : Nat) (policies : Dict PolicySet) : Snapshot :=
  ⟨generation, policiesFingerprint policies, policies⟩

def initial : Snapshot := publish 0 Dict.empty

def policySet (snapshot : Snapshot) (entity : String) : Except UnknownEntity PolicySet :=
  match snapshot.policies.get? entity with
  | some set => .ok set
  | none => .error ⟨entity⟩

def lookup (snapshot : Snapshot) (entity : String) (operation : Operation) :
    Except UnknownEntity RuleRef :=
  (snapshot.policySet entity).map (⟨·, operation⟩)

def entities (snapshot : Snapshot) : List String := snapshot.policies.keys

end Snapshot

structure ReloadOutcome where
  generation : Nat
  entities : Nat
  fingerprint : String
  changed : Bool
deriving DecidableEq

structure Registry where
  current : Snapshot

namespace Registry

def new : Registry := ⟨Snapshot.initial⟩

def generation (registry : Registry) : Nat := registry.current.generation

def publish (registry : Registry) (policies : Dict PolicySet) : Registry :=
  ⟨Snapshot.publish (registry.generation + 1) policies⟩

def register (registry : Registry) (entity : String) (set : PolicySet) : Registry :=
  registry.publish (registry.current.policies.insert entity set)

def outcome (snapshot : Snapshot) (changed : Bool) : ReloadOutcome :=
  ⟨snapshot.generation, snapshot.policies.size, snapshot.fingerprint, changed⟩

/-- Replaces all policies, unless the new ones have the fingerprint of the current ones. Of
repeated entities the last one wins. -/
def reload (registry : Registry) (sets : List (String × PolicySet)) : Registry × ReloadOutcome :=
  let policies := Dict.ofList sets
  if registry.current.fingerprint = policiesFingerprint policies then
    (registry, outcome registry.current false)
  else
    let next := registry.publish policies
    (next, outcome next.current true)

def policySet (registry : Registry) (entity : String) : Except UnknownEntity PolicySet :=
  registry.current.policySet entity

def lookup (registry : Registry) (entity : String) (operation : Operation) :
    Except UnknownEntity RuleRef :=
  registry.current.lookup entity operation

end Registry

/-- Answers requests from a registry, with or without traces. -/
structure Engine where
  registry : Registry
  trace : Bool := false

namespace Engine

/-- Decides an operation on an entity; an entity without policies is an error, never an allow. -/
def decide (engine : Engine) (entity : String) (operation : Operation) (principal : Principal)
    (record : Option Record) : Except UnknownEntity Decision :=
  match engine.registry.policySet entity with
  | .error error => .error error
  | .ok set =>
    .ok (if engine.trace then set.decideTraced operation principal record
      else set.decide operation principal record)

/-- Whether an operation is allowed; an entity without policies allows nothing. -/
def isAllowed (engine : Engine) (entity : String) (operation : Operation) (principal : Principal)
    (record : Option Record) : Bool :=
  match engine.decide entity operation principal record with
  | .ok decision => decision.allow
  | .error _ => false

def filter (engine : Engine) (entity : String) (operation : Operation) (principal : Principal)
    (records : List Record) : Except UnknownEntity (List Record) :=
  match engine.registry.policySet entity with
  | .error error => .error error
  | .ok set => .ok (set.filter operation principal records)

end Engine

end RowPolicy
