import RowPolicy.Proofs.CompileErrors
import RowPolicy.Proofs.DirectoryLoading
import RowPolicy.Proofs.Outcomes
import RowPolicy.Proofs.SchemaForm

/-!
# What a schema document yields

The policies of an entity are the outcomes of its declared rules, one for each operation. When rules
are missing or refused, the first of these faults is reported.
-/

namespace RowPolicy

namespace SchemaDocument

/-- The fault that is reported of a document that does not compile. -/
inductive Fault (document : SchemaDocument) (entity : String) (compiler : Compiler) :
    SchemaError → Prop
  | noRules (h : document.rules = none) : Fault document entity compiler (.noRules entity)
  | noRead (h : document.rules ≠ none) (hread : document.rule? .read = none) :
    Fault document entity compiler (.noRule entity .read)
  | noWrite {read : Json} (hread : document.rule? .read = some read)
    (hwrite : document.rule? .write = none) :
    Fault document entity compiler (.noRule entity .write)
  | read {read write : Json} {error : CompileError} (hread : document.rule? .read = some read)
    (hwrite : document.rule? .write = some write) (h : compiler.compile read = .error error) :
    Fault document entity compiler (.refused entity (error.under Operation.read.name))
  | write {read write : Json} {rule : Rule} {error : CompileError}
    (hread : document.rule? .read = some read) (hwrite : document.rule? .write = some write)
    (hrule : compiler.compile read = .ok rule) (h : compiler.compile write = .error error) :
    Fault document entity compiler (.refused entity (error.under Operation.write.name))

variable {document : SchemaDocument} {entity : String} {compiler : Compiler}

theorem declares_iff_rule? {read write : Json} : document.Declares read write ↔
    document.rule? .read = some read ∧ document.rule? .write = some write := by
  rw [Declares, rule?, rule?]
  cases document.rules with
  | none => simp
  | some block =>
      obtain ⟨read', write'⟩ := block
      simp [RuleBlock.rule?]

theorem compile_eq_ok_iff_forall {set : PolicySet} :
    document.compile entity compiler = .ok set ↔ ∀ operation, ∃ rule,
      document.rule? operation = some rule ∧ compiler.compile rule = .ok (set.rule operation) := by
  rw [compile_eq_ok_iff]
  simp only [declares_iff_rule?]
  constructor
  · rintro ⟨read, write, ⟨hread, hwrite⟩, hrules⟩ operation
    cases operation with
    | read => exact ⟨read, hread, hrules.1⟩
    | write => exact ⟨write, hwrite, hrules.2⟩
  · intro h
    obtain ⟨read, hread, hrule⟩ := h .read
    obtain ⟨write, hwrite, hrule'⟩ := h .write
    exact ⟨read, write, ⟨hread, hwrite⟩, hrule, hrule'⟩

theorem compile_of_declares {read write : Json} (h : document.Declares read write) :
    document.compile entity compiler =
      (compiler.compileSet read write).mapError (.refused entity) := by
  rw [compile, show document.rules = _ from h]
  rfl

theorem compile_eq_error_iff {error : SchemaError} :
    document.compile entity compiler = .error error ↔ document.Fault entity compiler error := by
  constructor
  · intro h
    rw [compile] at h
    split at h
    · next hrules =>
      cases h
      exact .noRules hrules
    · next block hrules =>
      have hrule : ∀ operation, document.rule? operation = block.rule? operation := by
        simp [rule?, hrules]
      split at h
      · next hread =>
        cases h
        exact .noRead (by simp [hrules]) ((hrule .read).trans hread)
      · next read hread =>
        split at h
        · next hwrite =>
          cases h
          exact .noWrite ((hrule .read).trans hread) ((hrule .write).trans hwrite)
        · next write hwrite =>
          rw [Compiler.compileEntity, mapError_eq_error_iff] at h
          obtain ⟨cause, hcause, rfl⟩ := h
          rcases compileSet_eq_error_iff.mp hcause with
            ⟨error, herror, rfl⟩ | ⟨rule, error, hcompiled, herror, rfl⟩
          · exact .read ((hrule .read).trans hread) ((hrule .write).trans hwrite) herror
          · exact .write ((hrule .read).trans hread) ((hrule .write).trans hwrite) hcompiled herror
  · intro h
    cases h with
    | noRules hrules => rw [compile, hrules]
    | noRead hrules hread =>
        obtain ⟨block, hblock⟩ := Option.ne_none_iff_exists'.mp hrules
        rw [rule?, hblock] at hread
        rw [compile, hblock]
        simp only [show block.read = none from hread]
    | noWrite hread hwrite =>
        obtain ⟨block, hblock, hread⟩ := Option.bind_eq_some_iff.mp hread
        rw [rule?, hblock] at hwrite
        rw [compile, hblock]
        simp only [show block.read = _ from hread, show block.write = none from hwrite]
    | read hread hwrite herror =>
        rw [compile_of_declares (declares_iff_rule?.mpr ⟨hread, hwrite⟩), mapError_eq_error_iff]
        exact ⟨_, compileSet_eq_error_iff.mpr (Or.inl ⟨_, herror, rfl⟩), rfl⟩
    | write hread hwrite hrule herror =>
        rw [compile_of_declares (declares_iff_rule?.mpr ⟨hread, hwrite⟩), mapError_eq_error_iff]
        exact ⟨_, compileSet_eq_error_iff.mpr (Or.inr ⟨_, _, hrule, herror, rfl⟩), rfl⟩

end SchemaDocument

end RowPolicy
