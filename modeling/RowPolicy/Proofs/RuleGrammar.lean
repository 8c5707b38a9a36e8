import RowPolicy.Proofs.CompiledForm
import RowPolicy.Proofs.Pairing

/-!
# The grammar of declared rules

Which JSON values are rules can be said without the compiler, by the shapes that a rule may have.
The compiler accepts these values and no others, and a policy set is accepted rule by rule.
-/

namespace RowPolicy

/-- The well-formed rules whose templates refer to some attributes of the principal. -/
inductive WellFormed (attributes : List String) : Json → Prop
  | unrestricted : WellFormed attributes (.object [])
  | composite {operator : String} {items : List Json} :
      operator = "$or" ∨ operator = "$and" → items ≠ [] →
      (∀ item ∈ items, WellFormed attributes item) →
      WellFormed attributes (.object [(operator, .array items)])
  | condition {members : List (String × Json)} :
      members ≠ [] → (∀ entry ∈ members, entry.1 ≠ "" ∧ IsPlain entry.2) →
      WellFormed attributes (.object [("user_condition", .object members)])
  | literal {field : String} {value : Json} :
      IsFieldName field → IsPlain value → WellFormed attributes (.object [(field, value)])
  | template {field raw name : String} :
      IsFieldName field → Template.RefersTo raw name → name ∈ attributes →
      WellFormed attributes (.object [(field, .string raw)])

variable {attributes : List String} {raw : Json} {rule : Rule}

theorem operator_cases (connective : Connective) :
    connective.operator = "$or" ∨ connective.operator = "$and" := by
  cases connective with
  | any => exact Or.inl rfl
  | all => exact Or.inr rfl

theorem exists_operator_eq {operator : String} (h : operator = "$or" ∨ operator = "$and") :
    ∃ connective : Connective, connective.operator = operator := by
  rcases h with rfl | rfl
  · exact ⟨.any, rfl⟩
  · exact ⟨.all, rfl⟩

theorem Compiles.wellFormed (h : Compiles ⟨attributes⟩ raw rule) : WellFormed attributes raw := by
  induction h with
  | unrestricted => exact .unrestricted
  | composite connective hne hlength hcompiles ih =>
      apply WellFormed.composite (operator_cases connective) hne
      intro item hitem
      have hpairs := forall₂_of_zip hlength ih
      obtain ⟨_, -, hwellFormed⟩ := exists_right_of_forall₂ hpairs hitem
      exact hwellFormed
  | condition hne hmembers => exact .condition hne hmembers
  | literal hfield hplain => exact .literal hfield hplain
  | template hfield hrefers hknown =>
      exact .template hfield hrefers (List.contains_iff_mem.mp hknown)

/-- A well-formed rule compiles. The induction is on its shape; the rules that the elements of a
composite compile to are collected in their order. -/
theorem WellFormed.exists_compiles (h : WellFormed attributes raw) :
    ∃ rule, Compiles ⟨attributes⟩ raw rule := by
  induction h with
  | unrestricted => exact ⟨_, .unrestricted⟩
  | composite hoperator hne _ ih =>
      obtain ⟨connective, rfl⟩ := exists_operator_eq hoperator
      obtain ⟨rules, hrules⟩ := exists_forall₂_of_forall_mem ih
      obtain ⟨hlength, hcompiles⟩ := List.forall₂_iff_zip.mp hrules
      exact ⟨_, .composite connective hne hlength fun _ _ => hcompiles⟩
  | condition hne hmembers => exact ⟨_, .condition hne hmembers⟩
  | literal hfield hplain => exact ⟨_, .literal hfield hplain⟩
  | template hfield hrefers hknown =>
      exact ⟨_, .template hfield hrefers (List.contains_iff_mem.mpr hknown)⟩

theorem exists_compile_iff :
    (∃ rule, Compiler.compile ⟨⟨attributes⟩⟩ raw = .ok rule) ↔ WellFormed attributes raw := by
  simp only [compile_eq_ok_iff]
  constructor
  · rintro ⟨rule, hrule⟩
    exact hrule.wellFormed
  · exact WellFormed.exists_compiles

/-- The compiler accepts exactly the well-formed rules, and a policy set exactly when both of its
rules are well formed; the set then holds what each of them compiles to. -/
theorem compile_accepts_grammar (attributes : List String) :
    (∀ raw, (∃ rule, Compiler.compile ⟨⟨attributes⟩⟩ raw = .ok rule) ↔ WellFormed attributes raw) ∧
    (∀ read write, (∃ set, Compiler.compileSet ⟨⟨attributes⟩⟩ read write = .ok set) ↔
      WellFormed attributes read ∧ WellFormed attributes write) ∧
    ∀ read write set, Compiler.compileSet ⟨⟨attributes⟩⟩ read write = .ok set ↔
      Compiler.compile ⟨⟨attributes⟩⟩ read = .ok set.read ∧
        Compiler.compile ⟨⟨attributes⟩⟩ write = .ok set.write := by
  refine ⟨fun raw => exists_compile_iff, ?_, ?_⟩
  · intro read write
    rw [← exists_compile_iff, ← exists_compile_iff]
    constructor
    · rintro ⟨set, hset⟩
      obtain ⟨hread, hwrite⟩ := Compiler.compileSet_eq_ok_iff.mp hset
      exact ⟨⟨_, hread⟩, ⟨_, hwrite⟩⟩
    · rintro ⟨⟨readRule, hread⟩, ⟨writeRule, hwrite⟩⟩
      exact ⟨⟨readRule, writeRule⟩, Compiler.compileSet_eq_ok_iff.mpr ⟨hread, hwrite⟩⟩
  · intro read write set
    exact Compiler.compileSet_eq_ok_iff

end RowPolicy
