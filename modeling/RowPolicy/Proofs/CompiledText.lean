import RowPolicy.Proofs.CompileErrors
import RowPolicy.Proofs.DirectReading
import RowPolicy.Proofs.ExchangeForm
import RowPolicy.Proofs.SafeRules
import RowPolicy.Proofs.TokenTree

/-!
# Compiled rules as texts

The compact text of a compiled rule is read back as the rule, unless the containers of its
exchange form nest deeper than readers follow. The exchange form nests at most three containers
deeper than the declaration. So a declaration that is read itself can become a rule that is not:
this takes a template within sixty-two composites.
-/

namespace RowPolicy

def Rule.parse? (text : String) : Option Rule :=
  (Json.parse? text).bind (Rule.ofJson? .outermost)

variable {scope : Namespace} {raw : Json} {rule : Rule} {P : Json.Number → Prop}

namespace Json

theorem nesting_of_isPlain {value : Json} (h : IsPlain value) : value.nesting = 0 := by
  cases value with
  | array items => exact h.elim
  | object members => exact h.elim
  | _ => rfl

end Json

/-! ## The exchange form of a compiled rule -/

theorem Rule.Safe.canonical_literals {attributes : List String} (h : rule.Safe attributes) :
    rule.Canonical := by
  induction h with
  | unrestricted => exact .unrestricted
  | composite _ _ ih => exact .composite ih
  | @leaf condition hcondition =>
      apply Rule.Canonical.leaf
      cases condition with
      | fieldEquals field source =>
          cases source with
          | literal value => exact canonical_of_isPlain hcondition.2
          | template ref => exact trivial
      | attributeMatch expected =>
          refine ⟨expected.ordered, Json.canonicalMembers_iff.mpr ?_⟩
          intro entry hentry
          exact canonical_of_isPlain (hcondition.2 entry hentry).2

/-- The numbers of a compiled rule are numbers of its declaration. -/
theorem Compiles.numbersAre_toJson (h : Compiles scope raw rule) (hraw : raw.NumbersAre P) :
    rule.toJson.NumbersAre P := by
  induction h with
  | unrestricted => simp [Rule.toJson]
  | @composite connective items rules _ hlength _ ih =>
      have hitems := Json.numbersAre_array.mp (Json.numbersAre_object.mp hraw _ List.mem_cons_self)
      have hrules : ∀ rule ∈ rules, rule.toJson.NumbersAre P := by
        intro rule hrule
        obtain ⟨item, hitem, hnumbers⟩ :=
          exists_left_of_forall₂ (forall₂_of_zip hlength ih) hrule
        exact hnumbers (hitems item hitem)
      simpa [Rule.toJson] using hrules
  | @condition members _ _ =>
      have hvalue : (Json.object members).NumbersAre P :=
        Json.numbersAre_object.mp hraw _ List.mem_cons_self
      have hattributes : (Json.ofDict (Dict.ofList members)).NumbersAre P := by
        refine Json.numbersAre_object.mpr fun entry hentry => ?_
        exact Json.numbersAre_object.mp hvalue entry (Dict.mem_of_mem_ofList hentry)
      simp [Rule.toJson, Condition.toJson, hattributes]
  | @literal field value _ _ =>
      have hvalue : value.NumbersAre P := Json.numbersAre_object.mp hraw _ List.mem_cons_self
      simp [Rule.toJson, Condition.toJson, ValueSource.toJson, hvalue]
  | template _ _ _ => simp [Rule.toJson, Condition.toJson, ValueSource.toJson, TemplateRef.toJson]

/-- Compiling adds three containers at most: the exchange form wraps a template in four, where its
declaration has one. -/
theorem Compiles.nesting_toJson_le (h : Compiles scope raw rule) :
    rule.toJson.nesting ≤ raw.nesting + 3 := by
  induction h with
  | unrestricted => simp [Rule.toJson, Json.nesting, Json.nestingMembers]
  | @composite connective items rules _ hlength _ ih =>
      -- An array in an object stands around the sub-rules on both sides.
      have hrules : Json.nestingItems (Rule.toJsons rules) ≤ Json.nestingItems items + 3 := by
        rw [Rule.toJsons_eq_map, Json.nestingItems_le_iff, List.forall_mem_map]
        intro rule hrule
        obtain ⟨item, hitem, hnesting⟩ :=
          exists_left_of_forall₂ (forall₂_of_zip hlength ih) hrule
        have hle := Json.nestingItems_le_iff.mp (Nat.le_refl _) item hitem
        omega
      simp only [Rule.toJson, Json.nesting, Json.nestingMembers]
      omega
  | @condition members _ hmembers =>
      have hattributes : Json.nestingMembers (Dict.ofList members).entries ≤ 0 := by
        rw [Json.nestingMembers_le_iff]
        intro entry hentry
        exact (Json.nesting_of_isPlain (hmembers entry (Dict.mem_of_mem_ofList hentry)).2).le
      simp only [Rule.toJson, Condition.toJson, Json.ofDict, Json.nesting, Json.nestingMembers]
      omega
  | literal _ hplain =>
      simp [Rule.toJson, Condition.toJson, ValueSource.toJson, Json.nesting, Json.nestingMembers,
        Json.nesting_of_isPlain hplain]
  | template _ _ _ =>
      simp [Rule.toJson, Condition.toJson, ValueSource.toJson, TemplateRef.toJson, Json.nesting,
        Json.nestingMembers]

/-! ## Reading back -/

theorem Rule.parse?_compact (hcanonical : rule.Canonical) (hintegral : rule.toJson.Integral) :
    Rule.parse? rule.toJson.compact =
      if rule.toJson.nesting ≤ Json.nestingLimit then some rule else none := by
  rw [parse?, Json.parse?_compact hintegral]
  split
  · rw [Option.bind_some, Rule.ofJson?_sorted hcanonical]
  · rfl

/-- The text of the rule that a text compiles to is read back as the rule exactly when the
exchange form nests no deeper than readers follow, and else it is not read at all. It is read back
whenever the declaration leaves three levels of nesting to spare. -/
theorem compiled_text_reads_back (compiler : Compiler) {text : String} {raw : Json} {rule : Rule}
    (htext : Json.parse? text = some raw) (hraw : raw.Integral)
    (hcompile : compiler.compile raw = .ok rule) :
    (Rule.parse? rule.toJson.compact = some rule ↔ rule.toJson.nesting ≤ Json.nestingLimit) ∧
    (Json.nestingLimit < rule.toJson.nesting → Json.parse? rule.toJson.compact = none) ∧
    (raw.nesting + 3 ≤ Json.nestingLimit → Rule.parse? rule.toJson.compact = some rule) ∧
    raw.nesting ≤ Json.nestingLimit ∧ rule.toJson.nesting ≤ raw.nesting + 3 := by
  have hcompiles := compile_eq_ok_iff.mp hcompile
  have hintegral : rule.toJson.Integral := hcompiles.numbersAre_toJson hraw
  have hread := Rule.parse?_compact hcompiles.safe.canonical_literals hintegral
  have hnesting := hcompiles.nesting_toJson_le
  refine ⟨?_, ?_, ?_, Json.nesting_le_of_parse? htext, hnesting⟩
  · rw [hread]
    split <;> simp [*]
  · intro hdeep
    rw [Json.parse?_compact hintegral, if_neg (Nat.not_le.mpr hdeep)]
  · intro hshallow
    rw [hread, if_pos (hnesting.trans hshallow)]

theorem compiled_text_reads_back_ownerOrAdmin :
    Json.parse? ownerOrAdmin.compact = some ownerOrAdmin ∧ ownerOrAdmin.Integral ∧
    Compiler.compile {} ownerOrAdmin = .ok ownerOrAdminRule ∧
    Rule.parse? ownerOrAdminRule.toJson.compact = some ownerOrAdminRule := by
  have hintegral : ownerOrAdmin.Integral := by simp [ownerOrAdmin, Json.Integral]
  have htext : Json.parse? ownerOrAdmin.compact = some ownerOrAdmin := by
    rw [Json.parse?_compact hintegral]
    rfl
  have hcompile : Compiler.compile {} ownerOrAdmin = .ok ownerOrAdminRule := rfl
  have hback := (compiled_text_reads_back {} htext hintegral hcompile).1
  exact ⟨htext, hintegral, hcompile, hback.mpr (by decide)⟩

/-! ## A rule that is not read back -/

def nestedOwner : Nat → Json
  | 0 => .object [("owner", .string "\x7b\x7buser.email\x7d\x7d")]
  | n + 1 => .object [("$or", .array [nestedOwner n])]

def nestedOwnerRule : Nat → Rule
  | 0 => .leaf (.fieldEquals "owner" (.template ⟨"email"⟩))
  | n + 1 => .composite .any [nestedOwnerRule n]

theorem compiles_nestedOwner (n : Nat) :
    Compiles Namespace.standard (nestedOwner n) (nestedOwnerRule n) := by
  induction n with
  | zero =>
      have hcompile : Compiler.compile {} (nestedOwner 0) = .ok (nestedOwnerRule 0) := rfl
      exact compile_eq_ok_iff.mp hcompile
  | succ n ih =>
      refine .composite .any (List.cons_ne_nil _ _) rfl ?_
      simpa using ih

theorem canonical_nestedOwner (n : Nat) : (nestedOwner n).Canonical := by
  induction n with
  | zero => exact canonical_member.mpr trivial
  | succ n ih => exact canonical_member.mpr ⟨ih, trivial⟩

theorem integral_nestedOwner (n : Nat) : (nestedOwner n).Integral := by
  rw [Json.Integral]
  induction n with
  | zero => simp [nestedOwner]
  | succ n ih => simp [nestedOwner, ih]

theorem nesting_nestedOwner (n : Nat) : (nestedOwner n).nesting = 2 * n + 1 := by
  induction n with
  | zero => rfl
  | succ n ih =>
      simp only [nestedOwner, Json.nesting, Json.nestingMembers, Json.nestingItems, ih]
      omega

theorem nesting_nestedOwnerRule (n : Nat) : (nestedOwnerRule n).toJson.nesting = 2 * n + 4 := by
  induction n with
  | zero => rfl
  | succ n ih =>
      simp only [nestedOwnerRule, Rule.toJson, Rule.toJsons, Json.nesting, Json.nestingMembers,
        Json.nestingItems, ih]
      omega

/-- A text that is read and compiled to a rule whose text is not read. -/
theorem nestedOwner_not_read_back :
    Json.parse? (nestedOwner 62).compact = some (nestedOwner 62) ∧ (nestedOwner 62).Integral ∧
    Compiler.compile {} (nestedOwner 62) = .ok (nestedOwnerRule 62) ∧
    Json.parse? (nestedOwnerRule 62).toJson.compact = none ∧
    Rule.parse? (nestedOwnerRule 62).toJson.compact ≠ some (nestedOwnerRule 62) := by
  have hintegral := integral_nestedOwner 62
  have hrule := (compiles_nestedOwner 62).numbersAre_toJson hintegral
  have hread : Json.parse? (nestedOwner 62).compact = some (nestedOwner 62) := by
    rw [Json.parse?_compact hintegral, nesting_nestedOwner, if_pos (by decide),
      Json.sorted_of_canonical (canonical_nestedOwner 62)]
  have hnone : Json.parse? (nestedOwnerRule 62).toJson.compact = none := by
    rw [Json.parse?_compact hrule, nesting_nestedOwnerRule, if_neg (by decide)]
  refine ⟨hread, hintegral, compile_eq_ok_iff.mpr (compiles_nestedOwner 62), hnone, ?_⟩
  simp [Rule.parse?, hnone]

end RowPolicy
