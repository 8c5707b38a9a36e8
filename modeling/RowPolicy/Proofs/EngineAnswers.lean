import RowPolicy.Proofs.Evaluation
import RowPolicy.Proofs.Outcomes
import RowPolicy.Proofs.RegistryRuns

/-!
# Answers of an engine

An engine answers a request from the rule that its registry has for the entity and the operation, and
from nothing else. Decisions with and without a trace, the plain question whether a request is allowed,
and the filter on rows therefore agree on every registry.
-/

namespace RowPolicy

-- Comparing two registries must not set off the computation of a digest.
attribute [local irreducible] policiesFingerprint policiesText

def Registry.ruleFor (registry : Registry) (entity : String) (operation : Operation) :
    Except UnknownEntity Rule :=
  (registry.lookup entity operation).map RuleRef.rule

/-- The decision that a rule makes, with its trace if that is wanted. -/
def Rule.decision (rule : Rule) (trace : Bool) (operation : Operation) (principal : Principal)
    (record : Option Record) : Decision where
  allow := rule.evaluate principal record
  trace := if trace then some (rule.visit principal record operation.name).2 else none

variable {entity : String} {operation : Operation} {principal : Principal}
  {record : Option Record}

/-! ## Looking up rules -/

namespace Registry

theorem ruleFor_eq_map (registry : Registry) (entity : String) (operation : Operation) :
    registry.ruleFor entity operation =
      (registry.policySet entity).map fun set => set.rule operation := by
  rw [ruleFor, lookup, Snapshot.lookup, policySet]
  cases registry.current.policySet entity with
  | error error => rfl
  | ok set => rfl

theorem ruleFor_cases (registry : Registry) (entity : String) (operation : Operation) :
    (entity ∉ registry.current.entities ∧ registry.ruleFor entity operation = .error ⟨entity⟩) ∨
      entity ∈ registry.current.entities ∧ ∃ rule, registry.ruleFor entity operation = .ok rule := by
  rw [Snapshot.entities, Dict.mem_keys_iff, ruleFor_eq_map, policySet, Snapshot.policySet]
  cases registry.current.policies.get? entity with
  | none => exact Or.inl ⟨Bool.false_ne_true, rfl⟩
  | some set => exact Or.inr ⟨rfl, set.rule operation, rfl⟩

end Registry

/-! ## The entry points -/

theorem PolicySet.decideTraced_eq (set : PolicySet) (operation : Operation)
    (principal : Principal) (record : Option Record) :
    set.decideTraced operation principal record =
      (set.rule operation).decision true operation principal record := by
  have hallow := @PolicySet.decideTraced_allow principal record set operation
  rw [decideTraced] at hallow ⊢
  rw [Rule.decision, ← hallow]
  rfl

namespace Engine

variable {engine : Engine}

theorem decide_eq_map (engine : Engine) (entity : String) (operation : Operation)
    (principal : Principal) (record : Option Record) :
    engine.decide entity operation principal record =
      (engine.registry.ruleFor entity operation).map fun rule =>
        rule.decision engine.trace operation principal record := by
  rw [decide, Registry.ruleFor_eq_map]
  cases engine.registry.policySet entity with
  | error error => rfl
  | ok set =>
      cases htrace : engine.trace with
      | false => rfl
      | true => exact congrArg Except.ok (set.decideTraced_eq operation principal record)

theorem filter_eq_map (engine : Engine) (entity : String) (operation : Operation)
    (principal : Principal) (records : List Record) :
    engine.filter entity operation principal records =
      (engine.registry.ruleFor entity operation).map fun rule =>
        records.filter fun row => rule.evaluate principal (some row) := by
  rw [filter, Registry.ruleFor_eq_map]
  cases engine.registry.policySet entity with
  | error error => rfl
  | ok set => rfl

theorem isAllowed_of_error {error : UnknownEntity}
    (h : engine.decide entity operation principal record = .error error) :
    engine.isAllowed entity operation principal record = false := by
  rw [isAllowed, h]

theorem isAllowed_of_ok {decision : Decision}
    (h : engine.decide entity operation principal record = .ok decision) :
    engine.isAllowed entity operation principal record = decision.allow := by
  rw [isAllowed, h]

theorem isAllowed_eq_true_iff : engine.isAllowed entity operation principal record = true ↔
    ∃ decision, engine.decide entity operation principal record = .ok decision ∧
      decision.allow = true := by
  cases hdecide : engine.decide entity operation principal record with
  | error error => simp [isAllowed_of_error hdecide]
  | ok decision => simp [isAllowed_of_ok hdecide]

/-- The entry points agree about an entity: they fail together, for the one reason that the entity is
unknown, and the filter keeps the rows that are allowed one by one. -/
structure Coherent (engine : Engine) (entity : String) (operation : Operation)
    (principal : Principal) : Prop where
  unfiltered : ∀ records, engine.filter entity operation principal records = .error ⟨entity⟩ ↔
    entity ∉ engine.registry.current.entities
  undecided : ∀ record, engine.decide entity operation principal record = .error ⟨entity⟩ ↔
    entity ∉ engine.registry.current.entities
  unknown : entity ∉ engine.registry.current.entities → ∀ record,
    engine.isAllowed entity operation principal record = false
  allowed : ∀ record, engine.isAllowed entity operation principal record = true ↔
    ∃ decision, engine.decide entity operation principal record = .ok decision ∧
      decision.allow = true
  filtered : entity ∈ engine.registry.current.entities → ∀ records,
    engine.filter entity operation principal records =
      .ok (records.filter fun row => engine.isAllowed entity operation principal (some row))

theorem coherent (engine : Engine) (entity : String) (operation : Operation)
    (principal : Principal) : engine.Coherent entity operation principal := by
  rcases engine.registry.ruleFor_cases entity operation with ⟨hunknown, hrule⟩ | ⟨hknown, rule, hrule⟩
  · have hdecide : ∀ record, engine.decide entity operation principal record = .error ⟨entity⟩ := by
      intro record
      rw [decide_eq_map, hrule]
      rfl
    refine ⟨?_, ?_, ?_, fun _ => isAllowed_eq_true_iff, fun hknown => absurd hknown hunknown⟩
    · intro records
      rw [filter_eq_map, hrule]
      exact iff_of_true rfl hunknown
    · intro record
      exact iff_of_true (hdecide record) hunknown
    · intro _ record
      exact isAllowed_of_error (hdecide record)
  · have hdecide : ∀ record, engine.decide entity operation principal record =
        .ok (rule.decision engine.trace operation principal record) := by
      intro record
      rw [decide_eq_map, hrule]
      rfl
    refine ⟨?_, ?_, fun hunknown => absurd hknown hunknown, fun _ => isAllowed_eq_true_iff, ?_⟩
    · intro records
      rw [filter_eq_map, hrule]
      exact iff_of_false nofun (not_not_intro hknown)
    · intro record
      rw [hdecide]
      exact iff_of_false nofun (not_not_intro hknown)
    · intro _ records
      rw [filter_eq_map, hrule]
      simp only [isAllowed_of_ok (hdecide _)]
      rfl

theorem decide_allow_eq (registry : Registry) (trace : Bool) (entity : String)
    (operation : Operation) (principal : Principal) (record : Option Record) :
    (Engine.decide ⟨registry, trace⟩ entity operation principal record).map Decision.allow =
      (registry.ruleFor entity operation).map fun rule => rule.evaluate principal record := by
  rw [decide_eq_map]
  cases registry.ruleFor entity operation with
  | error error => rfl
  | ok rule => rfl

/-- Engines on two registries give the same answers about an operation on an entity. -/
structure SameAnswers (registry registry' : Registry) (entity : String) (operation : Operation)
    (principal : Principal) : Prop where
  decided : ∀ trace record,
    Engine.decide ⟨registry', trace⟩ entity operation principal record =
      Engine.decide ⟨registry, trace⟩ entity operation principal record
  allowed : ∀ trace record,
    Engine.isAllowed ⟨registry', trace⟩ entity operation principal record =
      Engine.isAllowed ⟨registry, trace⟩ entity operation principal record
  filtered : ∀ trace records,
    Engine.filter ⟨registry', trace⟩ entity operation principal records =
      Engine.filter ⟨registry, trace⟩ entity operation principal records

variable {registry registry' : Registry}

/-- Of a registry only the rule of the entity and the operation matters to the answers. -/
theorem sameAnswers_of_ruleFor_eq
    (h : registry'.ruleFor entity operation = registry.ruleFor entity operation)
    (principal : Principal) : SameAnswers registry registry' entity operation principal where
  decided := by
    intro trace record
    rw [decide_eq_map, decide_eq_map, h]
  allowed := by
    intro trace record
    rw [isAllowed, isAllowed, decide_eq_map, decide_eq_map, h]
  filtered := by
    intro trace records
    rw [filter_eq_map, filter_eq_map, h]

theorem ruleFor_eq_of_sets {set set' : PolicySet}
    (h : registry.current.policies.get? entity = some set)
    (h' : registry'.current.policies.get? entity = some set')
    (hread : operation = .read → set'.read = set.read)
    (hwrite : operation = .write → set'.write = set.write) :
    registry'.ruleFor entity operation = registry.ruleFor entity operation := by
  have hrule : set'.rule operation = set.rule operation := by
    cases operation with
    | read => exact hread rfl
    | write => exact hwrite rfl
  simp only [Registry.ruleFor_eq_map, Registry.policySet, Snapshot.policySet, h, h', map_ok,
    hrule]

end Engine

/-- After any run of a registry, and with traces or without, the entry points of an engine agree on
every entity. Traces change no decision, and two runs that end with one rule for an operation on an
entity give the same answers about it, whatever else they leave in the registry and whatever the
rule of the other operation is. -/
theorem entry_points_agree (steps : List Step) (entity : String) (operation : Operation)
    (principal : Principal) :
    (∀ trace, Engine.Coherent ⟨Registry.new.run steps, trace⟩ entity operation principal) ∧
    (∀ record,
      (Engine.decide ⟨Registry.new.run steps, true⟩ entity operation principal record).map
          Decision.allow =
        (Engine.decide ⟨Registry.new.run steps, false⟩ entity operation principal record).map
          Decision.allow) ∧
    (∀ steps', (Registry.new.run steps').ruleFor entity operation =
        (Registry.new.run steps).ruleFor entity operation →
      Engine.SameAnswers (Registry.new.run steps) (Registry.new.run steps') entity operation
        principal) ∧
    ∀ steps' set set', (Registry.new.run steps).current.policies.get? entity = some set →
      (Registry.new.run steps').current.policies.get? entity = some set' →
      (operation = .read → set'.read = set.read) → (operation = .write → set'.write = set.write) →
      Engine.SameAnswers (Registry.new.run steps) (Registry.new.run steps') entity operation
        principal := by
  refine ⟨?_, ?_, ?_, ?_⟩
  · intro trace
    exact Engine.coherent _ entity operation principal
  · intro record
    rw [Engine.decide_allow_eq, Engine.decide_allow_eq]
  · intro steps' hrule
    exact Engine.sameAnswers_of_ruleFor_eq hrule principal
  · intro steps' set set' hset hset' hread hwrite
    have hrule := Engine.ruleFor_eq_of_sets hset hset' hread hwrite
    exact Engine.sameAnswers_of_ruleFor_eq hrule principal

/-- Two runs that leave the same rule for reading posts, and different policies otherwise. -/
def rankedPosts : List Step := [.register "post" ⟨rank, rank⟩]

def openedTeams : List Step := [.register "team" .unrestricted, .register "post" ⟨rank, .unrestricted⟩]

def rankedRow : Record := .ofList [("rank", .ofNat 1)]

theorem entry_points_agree_rankedPosts :
    "post" ∈ (Registry.new.run rankedPosts).current.entities ∧
    Engine.filter ⟨Registry.new.run rankedPosts, true⟩ "post" .read .anonymous
      [rankedRow, .empty, rankedRow] = .ok [rankedRow, rankedRow] ∧
    "team" ∉ (Registry.new.run rankedPosts).current.entities ∧
    Engine.isAllowed ⟨Registry.new.run rankedPosts, true⟩ "team" .read .anonymous none = false ∧
    (Registry.new.run openedTeams).ruleFor "post" .read =
      (Registry.new.run rankedPosts).ruleFor "post" .read ∧
    Engine.decide ⟨Registry.new.run openedTeams, true⟩ "post" .read .anonymous (some rankedRow) =
      Engine.decide ⟨Registry.new.run rankedPosts, true⟩ "post" .read .anonymous
        (some rankedRow) ∧
    (Registry.new.run rankedPosts).current.policies.get? "post" = some ⟨rank, rank⟩ ∧
    (Registry.new.run openedTeams).current.policies.get? "post" = some ⟨rank, .unrestricted⟩ ∧
    Engine.filter ⟨Registry.new.run openedTeams, false⟩ "post" .read .anonymous [.empty] =
      Engine.filter ⟨Registry.new.run rankedPosts, false⟩ "post" .read .anonymous [.empty] := by
  have hknown : "post" ∈ (Registry.new.run rankedPosts).current.entities := by decide +kernel
  have hunknown : "team" ∉ (Registry.new.run rankedPosts).current.entities := by decide +kernel
  have hrule : (Registry.new.run openedTeams).ruleFor "post" .read =
      (Registry.new.run rankedPosts).ruleFor "post" .read := rfl
  have hranked : (Registry.new.run rankedPosts).current.policies.get? "post" =
      some ⟨rank, rank⟩ := rfl
  have hopened : (Registry.new.run openedTeams).current.policies.get? "post" =
      some ⟨rank, .unrestricted⟩ := rfl
  obtain ⟨hposts, -, hsame, hsets⟩ := entry_points_agree rankedPosts "post" .read .anonymous
  obtain ⟨hteams, -⟩ := entry_points_agree rankedPosts "team" .read .anonymous
  refine ⟨hknown, ?_, hunknown, (hteams true).unknown hunknown none, hrule,
    (hsame openedTeams hrule).decided true (some rankedRow), hranked, hopened,
    (hsets openedTeams _ _ hranked hopened (fun _ => rfl) nofun).filtered false [.empty]⟩
  rw [(hposts true).filtered hknown]
  rfl

end RowPolicy
