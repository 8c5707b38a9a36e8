import RowPolicy.Proofs.EntityFaults
import RowPolicy.Proofs.SchemaTexts
import RowPolicy.Proofs.TokenTree

/-!
# What a schema document is used for

Only the name and the rules of a document count, whether it comes as a text or as a value. The rest
is kept as it is, and neither the name of the entity nor its policies depend on it.
-/

namespace RowPolicy

open Json (Raw)

namespace SchemaDocument

variable {document : SchemaDocument}

structure TakenFrom (document : SchemaDocument) (members : List (String × Json)) : Prop where
  other : document.other.entries = members.filter fun member => !isInterpreted member.1
  rule : ∀ operation rule, document.rule? operation = some rule ↔
    ∃ value, members.lookup rulesKey = some value ∧ RuleBlock.DeclaredIn value operation rule
  written : ∀ written, document.WrittenAs written →
    ofJson? written = some document ∧ Normalizes (.object members) written
  exchanged : ∀ members', members'.lookup nameKey = members.lookup nameKey →
    members'.lookup rulesKey = members.lookup rulesKey →
    ∃ document', ofJson? (.object members') = some document' ∧
      document'.name = document.name ∧ document'.rules = document.rules

theorem takenFrom_of_ofJson? {members : List (String × Json)}
    (hmembers : (Json.object members).Canonical) (h : ofJson? (.object members) = some document) :
    document.TakenFrom members where
  other := entries_other_of_ofJson? hmembers.1 h
  rule := fun _ _ => rule?_eq_some_iff_of_ofJson? hmembers.1.nodup h
  written := fun _ hwritten => ⟨(settled_of_ofJson? hmembers h).ofJson?_of_writtenAs hwritten,
    normalizes_of_ofJson? hmembers h hwritten⟩
  exchanged := by
    intro members' hname hrules
    rw [ofJson?, ← hname, ← hrules] at h
    rw [ofJson?]
    split at h
    · next name rules hname' hrules' =>
      cases h
      exact ⟨_, rfl, rfl, rfl⟩
    · cases h

/-- What a document has from the members of a text; of repeated ones the last counts. -/
structure TakenFromText (document : SchemaDocument) (text : String)
    (members : List (Option String × Raw)) : Prop where
  tree : Raw.parse? text = some (.object members)
  other : ∀ key, Option.Rel (fun part value => part.value? (Json.nestingLimit - 1) = some value)
    (if isInterpreted key then none else lastMember? members key) (document.other.get? key)
  name : ∀ name, document.name = some name ↔
    lastMember? members nameKey = some (.string (some name))
  no_rules : document.rules = none ↔
    ∀ part, lastMember? members rulesKey = some part → part = .null
  rule : ∀ operation rule, document.rule? operation = some rule ↔
    ∃ part, lastMember? members rulesKey = some part ∧
      RuleBlock.WrittenIn (Json.nestingLimit - 2) part operation rule
  written : ∀ written, document.WrittenAs written →
    ofJson? written = some document ∧ ∀ key, written.member? key = document.member? key
  value : ∀ json, Json.parse? text = some json → json.Canonical ∧ ofJson? json = some document

theorem exists_takenFromText {text : String} (h : parseJson? text = some document) :
    ∃ members, document.TakenFromText text members := by
  obtain ⟨raw, htext, hraw⟩ := Option.bind_eq_some_iff.mp h
  obtain ⟨members, rfl, hread⟩ := readFrom_of_ofRaw? hraw
  refine ⟨members, htext, hread.other, fun _ => hread.name_eq_some_iff, hread.rules_eq_none_iff,
    fun _ _ => hread.rule?_eq_some_iff, ?_, ?_⟩
  · intro written hwritten
    refine ⟨hread.settled.ofJson?_of_writtenAs hwritten, ?_⟩
    obtain ⟨members', rfl, -, hlookup⟩ := hread.settled.exists_members hwritten
    exact hlookup
  · intro json hjson
    obtain ⟨raw', htext', hvalue⟩ := Json.parse?_eq_some_iff.mp hjson
    obtain rfl := Option.some.inj (htext.symm.trans htext')
    exact ⟨Raw.canonical_of_value? hvalue, ofJson?_of_ofRaw? hraw hvalue⟩

/-- A document keeps every member but its name and its rules, whether it is read from a value or
from a text, and it is written and read again without a change. Documents with the same name and
rules, whatever else they hold, name the same entity and compile alike: to policies of the declared
rules when both are there and compile, and else with the first fault. -/
theorem name_and_rules_alone_count (document : SchemaDocument) :
    (∀ members, (Json.object members).Canonical → ofJson? (.object members) = some document →
      document.TakenFrom members) ∧
    (∀ text, parseJson? text = some document → ∃ members, document.TakenFromText text members) ∧
    (∀ document' : SchemaDocument, document'.name = document.name →
      document'.rules = document.rules →
      (∀ path, document'.entityName path = document.entityName path) ∧
      ∀ entity compiler, document'.compile entity compiler = document.compile entity compiler) ∧
    ∀ entity compiler,
      (∀ set, document.compile entity compiler = .ok set ↔ ∀ operation, ∃ rule,
        document.rule? operation = some rule ∧
          compiler.compile rule = .ok (set.rule operation)) ∧
      ∀ error, document.compile entity compiler = .error error ↔
        document.Fault entity compiler error := by
  refine ⟨fun _ => takenFrom_of_ofJson?, fun _ => exists_takenFromText, ?_, fun entity compiler =>
    ⟨fun _ => compile_eq_ok_iff_forall, fun _ => compile_eq_error_iff⟩⟩
  intro document' hname hrules
  refine ⟨fun path => ?_, fun entity compiler => ?_⟩
  · rw [entityName, entityName, hname]
  · rw [compile, compile, hrules]

/-- A document without a name that lists its rules in an array. -/
def listedRules : Json :=
  .object [("name", .null),
    ("rls", .array [.object [("owner", .string "\x7b\x7buser.id\x7d\x7d")], .object []]),
    ("type", .string "object")]

def listedRulesDocument : SchemaDocument where
  name := none
  rules := some
    ⟨some (.object [("owner", .string "\x7b\x7buser.id\x7d\x7d")]), some (.object [])⟩
  other := Dict.ofList [("type", .string "object")]

theorem name_and_rules_alone_count_listedRules :
    parseJson? listedRules.compact = some listedRulesDocument ∧
    listedRulesDocument.other.entries = [("type", .string "object")] ∧
    ofJson? listedRulesDocument.toJson.sorted = some listedRulesDocument ∧
    listedRulesDocument.toJson.sorted.member? nameKey = none ∧
    listedRulesDocument.compile "post" {} =
      .ok ⟨.leaf (.fieldEquals "owner" (.template ⟨"id"⟩)), .unrestricted⟩ := by
  have hordered : Ordered [("name", Json.null),
      ("rls", .array [.object [("owner", .string "\x7b\x7buser.id\x7d\x7d")], .object []]),
      ("type", .string "object")] := by
    unfold Ordered; decide
  have howner : Ordered [("owner", Json.string "\x7b\x7buser.id\x7d\x7d")] := by
    unfold Ordered; decide
  have hnone : Ordered ([] : List (String × Json)) := by
    unfold Ordered; decide
  have hcanonical : listedRules.Canonical := by
    simp [listedRules, Json.Canonical, Json.CanonicalItems, Json.CanonicalMembers, hordered,
      howner, hnone]
  have hintegral : listedRules.Integral := by
    simp [listedRules, Json.Integral, Json.NumbersAre.null]
  have htext : parseJson? listedRules.compact = some listedRulesDocument := by
    rw [parseJson?, Raw.parse?_compact hintegral]
    rfl
  obtain ⟨hvalue, htexts, -, hcompile⟩ := name_and_rules_alone_count listedRulesDocument
  obtain ⟨members, htaken⟩ := htexts _ htext
  obtain ⟨hback, hkeys⟩ := htaken.written _ (Or.inr rfl)
  refine ⟨htext, (hvalue _ hcanonical rfl).other, hback, hkeys nameKey, ?_⟩
  rw [(hcompile "post" {}).1]
  intro operation
  cases operation with
  | read => exact ⟨_, rfl, rfl⟩
  | write => exact ⟨_, rfl, rfl⟩

end SchemaDocument

end RowPolicy
