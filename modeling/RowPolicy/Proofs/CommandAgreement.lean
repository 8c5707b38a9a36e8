import RowPolicy.Command
import RowPolicy.Proofs.EngineAnswers
import RowPolicy.Proofs.Outcomes
import RowPolicy.Proofs.SpelledValues

/-!
# Deciding and filtering by command

The commands that decide about a record and that filter records take the same way up to the rule:
they read the principal, load the schemas and look up the entity, and fail where this fails. From
there the filter keeps the rows that the decisions on them allow. Each row can be given to a
decision, because what has been read can be written again.
-/

namespace RowPolicy

-- Comparing two registries must not set off the computation of a digest.
attribute [local irreducible] policiesFingerprint policiesText

namespace Command

def readRecord (disk : Disk) : Option String → Except CommandError (Option Record)
  | none => .ok none
  | some argument =>
    (readObject disk .record argument).map fun members => some (Record.ofList members)

structure Inquiry where
  principal : Principal
  record : Option Record
  rule : Rule

/-- The way from the arguments to the rule. -/
def inquiry (settings : Settings) (disk : Disk) (entity : String) (operation : Operation)
    (principal : String) (record : Option String) : Except CommandError Inquiry := do
  let principal ← readObject disk .principal principal
  let record ← readRecord disk record
  let registry ← settings.registry disk
  match registry.ruleFor entity operation with
  | .ok rule => .ok ⟨Principal.ofList principal, record, rule⟩
  | .error error => .error (.unknownEntity error)

variable {settings : Settings} {disk : Disk} {entity : String} {operation : Operation}
  {principal records : String} {record : Option String} {trace : Bool} {rows : List Record}

/-! ## The common way -/

theorem decision_eq_map : decision settings disk entity operation principal record trace =
    (inquiry settings disk entity operation principal record).map fun found =>
      decisionJson entity operation (found.rule.decision (trace || settings.evaluation.trace)
        operation found.principal found.record) := by
  rw [decision, inquiry]
  cases readObject disk .principal principal with
  | error error => rfl
  | ok members =>
      cases record with
      | none =>
          cases settings.registry disk with
          | error error => rfl
          | ok registry =>
              simp only [ok_bind, readRecord, Engine.decide_eq_map, Option.map_none]
              cases registry.ruleFor entity operation <;> rfl
      | some argument =>
          simp only [ok_bind, readRecord]
          cases readObject disk .record argument with
          | error error => rfl
          | ok fields =>
              cases settings.registry disk with
              | error error => rfl
              | ok registry =>
                  simp only [map_ok, ok_bind, Engine.decide_eq_map, Option.map_some]
                  cases registry.ruleFor entity operation <;> rfl

theorem accessible_eq_map (hrows : readRecords disk records = .ok rows) :
    accessible settings disk entity operation principal records =
      (inquiry settings disk entity operation principal none).map fun found =>
        rows.filter fun row => found.rule.evaluate found.principal (some row) := by
  rw [accessible, inquiry]
  cases readObject disk .principal principal with
  | error error => rfl
  | ok members =>
      simp only [ok_bind, readRecord, hrows]
      cases settings.registry disk with
      | error error => rfl
      | ok registry =>
          simp only [ok_bind, Engine.filter_eq_map]
          cases registry.ruleFor entity operation <;> rfl

/-- A record that can be read changes nothing on the way. -/
theorem inquiry_of_readRecord {row : Option Record} (h : readRecord disk record = .ok row) :
    inquiry settings disk entity operation principal record =
      (inquiry settings disk entity operation principal none).map fun found =>
        { found with record := row } := by
  have hnone : readRecord disk none = .ok none := rfl
  rw [inquiry, inquiry]
  cases readObject disk .principal principal with
  | error error => rfl
  | ok members =>
      simp only [ok_bind, h, hnone]
      cases settings.registry disk with
      | error error => rfl
      | ok registry =>
          simp only [ok_bind]
          cases registry.ruleFor entity operation <;> rfl

/-- The stages at which the common way ends, in their order. -/
theorem inquiry_eq_error_iff {error : CommandError} :
    inquiry settings disk entity operation principal none = .error error ↔
      readObject disk .principal principal = .error error ∨
      ∃ members, readObject disk .principal principal = .ok members ∧
        (settings.registry disk = .error error ∨
          ∃ registry, settings.registry disk = .ok registry ∧
            entity ∉ registry.current.entities ∧ error = .unknownEntity ⟨entity⟩) := by
  rw [inquiry]
  cases readObject disk .principal principal with
  | error error' => simp
  | ok members =>
      simp only [ok_bind, readRecord]
      cases settings.registry disk with
      | error error' => simp
      | ok registry =>
          rcases registry.ruleFor_cases entity operation with
            ⟨hunknown, hrule⟩ | ⟨hknown, rule, hrule⟩
          · simp [hrule, hunknown, eq_comm]
          · simp [hrule, hknown]

/-! ## Rows as arguments -/

theorem recordsOf_eq_ok_iff {items : List Json} :
    recordsOf items = .ok rows ↔ List.Forall₂ (fun item row =>
      ∃ members, item = .object members ∧ row = Record.ofList members) items rows := by
  induction items generalizing rows with
  | nil => simp [recordsOf, eq_comm]
  | cons item items ih =>
      rw [List.forall₂_cons_left_iff]
      simp only [← ih]
      cases item with
      | object members =>
          rw [recordsOf]
          cases recordsOf items <;> simp [eq_comm]
      | _ => simp [recordsOf]

theorem readArgument_eq_ok_iff {subject : Subject} {argument : String} {json : Json} :
    readArgument disk subject argument = .ok json ↔
      ∃ text, argumentText disk subject argument = .ok text ∧ Json.parse? text = some json := by
  rw [readArgument]
  cases argumentText disk subject argument with
  | error error => simp
  | ok text => cases hparse : Json.parse? text <;> simp [hparse]

theorem readRecords_eq_ok_iff : readRecords disk records = .ok rows ↔ ∃ items,
    readArgument disk .records records = .ok (.array items) ∧ recordsOf items = .ok rows := by
  rw [readRecords]
  cases readArgument disk .records records with
  | error error => simp
  | ok json => cases json <;> simp

/-- An object of a text that has been read can be given as an argument. -/
theorem exists_argument_of_object {members : List (String × Json)}
    (hcanonical : (Json.object members).Canonical)
    (hnumbers : (Json.object members).NumbersAre Json.Number.Spellable)
    (hnesting : (Json.object members).nesting ≤ Json.nestingLimit) (subject : Subject) :
    ∃ argument, readObject disk subject argument = .ok members := by
  obtain ⟨text, hhead, hparse⟩ := Json.exists_text hcanonical hnumbers hnesting
  have hpath : argumentPath? (String.ofList text) = none := by
    rw [argumentPath?, String.toList_ofList]
    split
    · exact absurd rfl hhead
    · rfl
  have htext : argumentText disk subject (String.ofList text) = .ok (String.ofList text) := by
    rw [argumentText, hpath]
  refine ⟨String.ofList text, ?_⟩
  rw [readObject, readArgument_eq_ok_iff.mpr ⟨_, htext, hparse⟩]

/-- Every row that has been read can be given as an argument. -/
theorem exists_argument_of_mem (hrows : readRecords disk records = .ok rows) {row : Record}
    (hrow : row ∈ rows) : ∃ argument, readRecord disk (some argument) = .ok (some row) := by
  obtain ⟨items, hargument, hrecords⟩ := readRecords_eq_ok_iff.mp hrows
  obtain ⟨text, -, hparse⟩ := readArgument_eq_ok_iff.mp hargument
  obtain ⟨item, hitem, members, rfl, rfl⟩ :=
    exists_left_of_forall₂ (recordsOf_eq_ok_iff.mp hrecords) hrow
  -- As a part of a value that was read, a row is canonical, has spelled numbers and is less deep.
  have hcanonical : (Json.array items).Canonical := by
    obtain ⟨raw, -, hvalue⟩ := Json.parse?_eq_some_iff.mp hparse
    exact Json.Raw.canonical_of_value? hvalue
  have hnumbers := Json.numbersAre_array.mp (Json.spellable_of_parse? hparse) _ hitem
  have hnesting : (Json.object members).nesting ≤ Json.nestingLimit := by
    have harray := Json.nesting_le_of_parse? hparse
    have hle := Json.nestingItems_le_iff.mp (Nat.le_refl _) _ hitem
    rw [Json.nesting] at harray
    omega
  obtain ⟨argument, hread⟩ := exists_argument_of_object
    (Json.canonical_of_mem_items hcanonical hitem) hnumbers hnesting .record
  refine ⟨argument, ?_⟩
  rw [readRecord, hread]
  rfl

/-! ## Agreement -/

theorem decisionJson_trace_eq_null_iff {decision : Decision} :
    (decisionJson entity operation decision).member? "trace" = some .null ↔
      decision.trace = none := by
  obtain ⟨allow, trace⟩ := decision
  cases trace <;> simp [decisionJson, Json.member?, Json.members?, List.lookup]

/-- The filter fails where the decision without a record does, with the same error, at the first
stage that fails: the principal, the schemas, the entity. Otherwise it keeps the rows, each of
which can be given to a decision, that decisions allow, in their order. What a decision allows
does not depend on whether it is traced, and a trace is there exactly if it is asked for. -/
theorem filter_agrees_with_decisions (settings : Settings) (disk : Disk) (entity : String)
    (operation : Operation) (principal : String) :
    (∀ records rows, readRecords disk records = .ok rows →
      (∀ trace error,
        accessible settings disk entity operation principal records = .error error ↔
          decision settings disk entity operation principal none trace = .error error) ∧
      (∀ error, accessible settings disk entity operation principal records = .error error ↔
        readObject disk .principal principal = .error error ∨
        ∃ members, readObject disk .principal principal = .ok members ∧
          (settings.registry disk = .error error ∨
            ∃ registry, settings.registry disk = .ok registry ∧
              entity ∉ registry.current.entities ∧ error = .unknownEntity ⟨entity⟩)) ∧
      (∀ trace, (∃ kept, accessible settings disk entity operation principal records = .ok kept) ↔
        ∃ answer, decision settings disk entity operation principal none trace = .ok answer) ∧
      ∀ kept, accessible settings disk entity operation principal records = .ok kept →
        ∃ allowed : Record → Bool, kept = rows.filter allowed ∧
          (∀ row ∈ rows, ∃ argument, readRecord disk (some argument) = .ok (some row)) ∧
          ∀ row argument trace, readRecord disk (some argument) = .ok (some row) →
            ∃ answer,
              decision settings disk entity operation principal (some argument) trace = .ok answer ∧
              answer.member? "allow" = some (.bool (allowed row))) ∧
    (∀ record trace trace' evaluation,
      (decision { settings with evaluation } disk entity operation principal record trace').map
          (·.member? "allow") =
        (decision settings disk entity operation principal record trace).map (·.member? "allow")) ∧
    ∀ record trace answer,
      decision settings disk entity operation principal record trace = .ok answer →
        (answer.member? "trace" = some .null ↔
          trace = false ∧ settings.evaluation.trace = false) := by
  refine ⟨?rows, ?untraced, ?traced⟩
  case rows =>
    intro records rows hrows
    rw [accessible_eq_map hrows]
    refine ⟨?_, ?_, ?_, ?_⟩
    · intro trace error
      rw [decision_eq_map, map_eq_error_iff, map_eq_error_iff]
    · intro error
      rw [map_eq_error_iff]
      exact inquiry_eq_error_iff
    · intro trace
      rw [decision_eq_map, exists_map_eq_ok_iff, exists_map_eq_ok_iff]
    · intro kept hkept
      obtain ⟨found, hfound, rfl⟩ := map_eq_ok_iff.mp hkept
      refine ⟨_, rfl, fun row hrow => exists_argument_of_mem hrows hrow, ?_⟩
      intro row argument trace hrow
      rw [decision_eq_map, inquiry_of_readRecord hrow, hfound]
      exact ⟨_, rfl, rfl⟩
  case untraced =>
    intro record trace trace' evaluation
    have hsame : inquiry { settings with evaluation } disk entity operation principal record =
        inquiry settings disk entity operation principal record := rfl
    rw [decision_eq_map, decision_eq_map, hsame]
    cases inquiry settings disk entity operation principal record <;> rfl
  case traced =>
    intro record trace answer hanswer
    rw [decision_eq_map] at hanswer
    obtain ⟨found, -, rfl⟩ := map_eq_ok_iff.mp hanswer
    rw [decisionJson_trace_eq_null_iff, Rule.decision, ← Bool.or_eq_false_iff]
    cases trace || settings.evaluation.trace <;> simp

def tracedSchemas : Settings := { schemas := { directory := "schemas" }, evaluation := ⟨true⟩ }

def repeatedOwners : String :=
  "[\x7b\"owner\":1\x7d,\x7b\"owner\":2.5\x7d,\x7b\"owner\":1\x7d]"

theorem filter_agrees_with_decisions_repeatedOwners :
    ∃ rows kept, readRecords Registry.ownedPosts repeatedOwners = .ok rows ∧ rows.length = 3 ∧
      accessible tracedSchemas Registry.ownedPosts "post" .write "\x7b\"id\":1\x7d" repeatedOwners =
        .ok kept ∧ kept.length = 2 ∧
      (∃ allowed, kept = rows.filter allowed ∧
        ∀ row ∈ rows, ∃ argument answer,
          decision tracedSchemas Registry.ownedPosts "post" .write "\x7b\"id\":1\x7d"
            (some argument) false = .ok answer ∧
          answer.member? "allow" = some (.bool (allowed row))) := by
  have hread : (readRecords Registry.ownedPosts repeatedOwners).toOption.map List.length =
      some 3 := by
    decide +kernel
  have hfiltered : (accessible tracedSchemas Registry.ownedPosts "post" .write "\x7b\"id\":1\x7d"
      repeatedOwners).toOption.map List.length = some 2 := by
    decide +kernel
  cases hrows : readRecords Registry.ownedPosts repeatedOwners with
  | error error =>
      rw [hrows] at hread
      cases hread
  | ok rows =>
      cases hkept : accessible tracedSchemas Registry.ownedPosts "post" .write
          "\x7b\"id\":1\x7d" repeatedOwners with
      | error error =>
          rw [hkept] at hfiltered
          cases hfiltered
      | ok kept =>
          rw [hrows] at hread
          rw [hkept] at hfiltered
          obtain ⟨-, -, -, hrowwise⟩ := (filter_agrees_with_decisions tracedSchemas
            Registry.ownedPosts "post" .write "\x7b\"id\":1\x7d").1 repeatedOwners rows hrows
          obtain ⟨allowed, hallowed, hargument, hanswer⟩ := hrowwise kept hkept
          refine ⟨rows, kept, rfl, Option.some.inj hread, rfl, Option.some.inj hfiltered, allowed,
            hallowed, ?_⟩
          intro row hrow
          obtain ⟨argument, hreads⟩ := hargument row hrow
          obtain ⟨answer, hdecision, hallow⟩ := hanswer row argument false hreads
          exact ⟨argument, answer, hdecision, hallow⟩

end Command

end RowPolicy
