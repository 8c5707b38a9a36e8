import RowPolicy.Proofs.DictLookup
import RowPolicy.Proofs.Fingerprint
import RowPolicy.Proofs.JsonText
import RowPolicy.Registry

/-!
# Fingerprints identify policies

The exchange form of a rule tells the rule, whatever its shape, and the compact text of the form
tells the form. Equal canonical texts therefore stand for equal policies, and so do equal
fingerprints unless the texts collide.
-/

namespace RowPolicy

/-! ## Exchange forms -/

theorem ValueSource.toJson_injective {a b : ValueSource} (h : a.toJson = b.toJson) : a = b := by
  cases a with
  | literal value =>
      cases b with
      | literal value' =>
          simp only [toJson, Json.object.injEq, List.cons.injEq, Prod.mk.injEq, true_and,
            and_true] at h
          rw [h]
      | template ref' => simp [toJson] at h
  | template ref =>
      cases b with
      | literal value' => simp [toJson] at h
      | template ref' =>
          simp only [toJson, TemplateRef.toJson, Json.object.injEq, List.cons.injEq,
            Prod.mk.injEq, Json.string.injEq, true_and, and_true] at h
          rw [show ref = ref' from congrArg TemplateRef.mk h]

theorem Dict.ext_entries {α : Type} {a b : Dict α} (h : a.entries = b.entries) : a = b := by
  cases a
  cases b
  obtain rfl := h
  rfl

theorem Condition.toJson_injective {a b : Condition} (h : a.toJson = b.toJson) : a = b := by
  cases a with
  | fieldEquals field source =>
      cases b with
      | fieldEquals field' source' =>
          simp only [toJson, Json.object.injEq, List.cons.injEq, Prod.mk.injEq,
            Json.string.injEq, true_and, and_true] at h
          rw [h.1, ValueSource.toJson_injective h.2]
      | attributeMatch attributes' => simp [toJson] at h
  | attributeMatch attributes =>
      cases b with
      | fieldEquals field' source' => simp [toJson] at h
      | attributeMatch attributes' =>
          simp only [toJson, Json.ofDict, Json.object.injEq, List.cons.injEq, Prod.mk.injEq,
            true_and, and_true] at h
          rw [Dict.ext_entries h]

theorem Connective.tag_injective {a b : Connective} (h : a.tag = b.tag) : a = b := by
  cases a <;> cases b <;> simp_all [tag]

theorem Connective.tag_ne (connective : Connective) :
    connective.tag ≠ "Empty" ∧ connective.tag ≠ "Leaf" := by
  cases connective <;> simp [tag]

namespace Rule

mutual

/-- The exchange form of a rule determines it. The recursion is that of the form. -/
theorem toJson_injective : ∀ {a b : Rule}, a.toJson = b.toJson → a = b
  | .unrestricted, b, h => by
      cases b with
      | unrestricted => rfl
      | composite connective rules =>
          simp only [toJson, Json.object.injEq, List.cons.injEq, Prod.mk.injEq,
            Json.string.injEq, true_and] at h
          exact absurd h.1.symm connective.tag_ne.1
      | leaf condition => simp [toJson] at h
  | .composite connective rules, b, h => by
      cases b with
      | unrestricted =>
          simp only [toJson, Json.object.injEq, List.cons.injEq, Prod.mk.injEq,
            Json.string.injEq, true_and] at h
          exact absurd h.1 connective.tag_ne.1
      | composite connective' rules' =>
          simp only [toJson, Json.object.injEq, List.cons.injEq, Prod.mk.injEq,
            Json.string.injEq, Json.array.injEq, true_and, and_true] at h
          obtain ⟨htag, hrules⟩ := h
          rw [Connective.tag_injective htag, toJsons_injective hrules]
      | leaf condition =>
          simp only [toJson, Json.object.injEq, List.cons.injEq, Prod.mk.injEq,
            Json.string.injEq, true_and] at h
          exact absurd h.1 connective.tag_ne.2
  | .leaf condition, b, h => by
      cases b with
      | unrestricted => simp [toJson] at h
      | composite connective rules =>
          simp only [toJson, Json.object.injEq, List.cons.injEq, Prod.mk.injEq,
            Json.string.injEq, true_and] at h
          exact absurd h.1.symm connective.tag_ne.2
      | leaf condition' =>
          simp only [toJson, Json.object.injEq, List.cons.injEq, Prod.mk.injEq, true_and,
            and_true] at h
          rw [Condition.toJson_injective h]

theorem toJsons_injective : ∀ {as bs : List Rule}, toJsons as = toJsons bs → as = bs
  | [], bs, h => by
      cases bs with
      | nil => rfl
      | cons b bs => simp [toJsons] at h
  | a :: as, bs, h => by
      cases bs with
      | nil => simp [toJsons] at h
      | cons b bs =>
          simp only [toJsons, List.cons.injEq] at h
          rw [toJson_injective h.1, toJsons_injective h.2]

end

end Rule

theorem PolicySet.toJson_injective {a b : PolicySet} (h : a.toJson = b.toJson) : a = b := by
  obtain ⟨read, write⟩ := a
  obtain ⟨read', write'⟩ := b
  simp only [toJson, Json.object.injEq, List.cons.injEq, Prod.mk.injEq, true_and, and_true] at h
  rw [Rule.toJson_injective h.1, Rule.toJson_injective h.2]

theorem policiesJson_injective {a b : Dict PolicySet} (h : policiesJson a = policiesJson b) :
    a = b := by
  have hentry : Function.Injective fun entry : String × PolicySet => (entry.1, entry.2.toJson) := by
    intro entry entry' heq
    obtain ⟨hkey, hset⟩ := Prod.mk.inj heq
    exact Prod.ext hkey (PolicySet.toJson_injective hset)
  rw [policiesJson, policiesJson, Json.object.injEq] at h
  exact Dict.ext_entries (List.map_injective_iff.mpr hentry h)

/-! ## Texts and fingerprints -/

theorem Json.bytes_injective {a b : Json} (h : a.bytes = b.bytes) : a = b :=
  compact_injective (Text.utf8_injective h)

theorem Json.eq_of_fingerprint_eq {a b : Json} (hfree : ¬ Sha256.Collision a.compact b.compact)
    (h : a.fingerprint = b.fingerprint) : a = b :=
  compact_injective (eq_of_sha256_eq hfree h)

/-- The text whose digest is the fingerprint of policies. -/
def policiesText (policies : Dict PolicySet) : String := (policiesJson policies).compact

theorem eq_of_policiesFingerprint_eq {a b : Dict PolicySet}
    (hfree : ¬ Sha256.Collision (policiesText a) (policiesText b))
    (h : policiesFingerprint a = policiesFingerprint b) : a = b :=
  policiesJson_injective (Json.eq_of_fingerprint_eq hfree h)

/-- Rules, policy sets and the policies of entities are told apart by the bytes under their
fingerprints, and by the fingerprints themselves as long as these bytes do not collide. The order in
which entities are given is not part of the bytes. -/
theorem fingerprint_identifies_policies :
    (∀ a b : Rule, a.toJson.bytes = b.toJson.bytes → a = b) ∧
    (∀ a b : PolicySet, a.toJson.bytes = b.toJson.bytes → a = b) ∧
    (∀ a b : Dict PolicySet, (policiesJson a).bytes = (policiesJson b).bytes → a = b) ∧
    (∀ as bs : List (String × PolicySet), (as.map Prod.fst).Nodup → as.Perm bs →
      (policiesJson (Dict.ofList as)).bytes = (policiesJson (Dict.ofList bs)).bytes) ∧
    (∀ a b : Rule, ¬ Sha256.Collision a.toJson.compact b.toJson.compact →
      a.fingerprint = b.fingerprint → a = b) ∧
    (∀ a b : PolicySet, ¬ Sha256.Collision a.toJson.compact b.toJson.compact →
      a.fingerprint = b.fingerprint → a = b) ∧
    (∀ a b : Dict PolicySet, ¬ Sha256.Collision (policiesText a) (policiesText b) →
      policiesFingerprint a = policiesFingerprint b → a = b) := by
  refine ⟨?rule, ?set, ?policies, ?order, ?rulePrint, ?setPrint, ?policiesPrint⟩
  case rule =>
    intro a b h
    exact Rule.toJson_injective (Json.bytes_injective h)
  case set =>
    intro a b h
    exact PolicySet.toJson_injective (Json.bytes_injective h)
  case policies =>
    intro a b h
    exact policiesJson_injective (Json.bytes_injective h)
  case order =>
    intro as bs hnodup hperm
    rw [Dict.ofList_eq_of_perm hnodup hperm]
  case rulePrint =>
    intro a b hfree h
    exact Rule.toJson_injective (Json.eq_of_fingerprint_eq hfree h)
  case setPrint =>
    intro a b hfree h
    exact PolicySet.toJson_injective (Json.eq_of_fingerprint_eq hfree h)
  case policiesPrint =>
    intro a b hfree h
    exact eq_of_policiesFingerprint_eq hfree h

/-- A rule that compares a field with a text. -/
def spelledRank : Rule := .leaf (.fieldEquals "rank" (.literal (.string "1")))

/-- A rule that compares the field with the number of that text. -/
def rank : Rule := .leaf (.fieldEquals "rank" (.literal (.number (.integer ⟨1, by decide, by decide⟩))))

/-- A number and its text as literals give different fingerprints, and policies given in two orders
are the same. -/
theorem fingerprint_identifies_policies_rank :
    spelledRank.fingerprint ≠ rank.fingerprint ∧
    Dict.ofList [("user", ⟨rank, spelledRank⟩), ("post", PolicySet.unrestricted)] =
      Dict.ofList [("post", PolicySet.unrestricted), ("user", ⟨rank, spelledRank⟩)] := by
  obtain ⟨_, _, hpolicies, horder, hrule, _, _⟩ := fingerprint_identifies_policies
  constructor
  · intro h
    have hfree : ¬ Sha256.Collision spelledRank.toJson.compact rank.toJson.compact := by
      decide +kernel
    have heq := hrule spelledRank rank hfree h
    simp [spelledRank, rank] at heq
  · apply hpolicies
    exact horder _ _ (by simp) (List.Perm.swap _ _ [])

end RowPolicy
