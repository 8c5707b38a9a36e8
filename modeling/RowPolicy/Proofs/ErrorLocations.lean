import RowPolicy.Proofs.CompileErrors

/-!
# Locations of errors

The location of an error spells the address of the first violation behind the name of the operation,
with a dot before each key and brackets around each index. There are two exceptions. An error about
the root of a rule is written with a name for the root, and so is an error about a member of the root
whose key is empty or is this name; the operation takes the place of the name, and with it of the key.
-/

namespace RowPolicy

open Compiler

/-- The address of a member of the root whose key cannot be told from the root. -/
def Address.Masked (address : Address) : Prop :=
  address = [.member ""] ∨ address = [.member Location.rootName]

variable {compiler : Compiler} {scope : Namespace} {place : Location} {raw : Json}
  {address : Address} {violation : Violation} {key : String}

/-! ## Texts of addresses -/

namespace Location

theorem enter_of_ne_empty (h : place ≠ "") (segment : Segment) :
    place.enter segment = place ++ segment.text := by
  cases segment with
  | member key => rw [enter, member, if_neg h, Segment.text, String.append_assoc]
  | element index =>
      rw [enter, item, Segment.text, String.append_assoc, String.append_assoc, String.append_assoc]

theorem follow_of_ne_empty (h : place ≠ "") (address : Address) :
    place.follow address = place ++ address.text := by
  induction address generalizing place with
  | nil => rw [Address.text, String.append_empty]; rfl
  | cons segment address ih =>
      have hne : place ++ segment.text ≠ "" := by
        intro hempty
        exact h (String.append_eq_empty_iff.mp hempty).1
      rw [Address.text, ← String.append_assoc, ← ih hne, ← enter_of_ne_empty h]
      rfl

theorem follow_root_member (hkey : key ≠ "") (address : Address) :
    follow "" (.member key :: address) = key ++ address.text := by
  have hmember : member "" key = key := if_pos rfl
  rw [← follow_of_ne_empty hkey, ← hmember]
  rfl

end Location

/-! ## First violations seen from the root -/

theorem reserved_of_part? {segment : Segment} {role : Role}
    (h : (Role.ofKey key).part? segment = some role) :
    key ∈ ["$and", "$or", "user_condition"] := by
  rw [Role.ofKey] at h
  split at h
  · next connective hkey =>
    rw [connective?_eq_some hkey]
    cases connective <;> simp [Connective.operator]
  · split at h
    · next hkey =>
      rw [hkey]
      simp [conditionKey]
    · cases segment <;> cases h

/-- Below a member of the root there are violations only under a reserved key. -/
theorem Role.FirstViolation.member_cases
    (h : Role.rule.FirstViolation scope raw address violation) (hne : address ≠ []) :
    ∃ key below, address = .member key :: below ∧
      (below ≠ [] → key ∈ ["$and", "$or", "user_condition"]) := by
  obtain ⟨segment, below, rfl⟩ := List.exists_cons_of_ne_nil hne
  obtain ⟨role, part, hrole, hpart, hbelow⟩ := Role.exists_part_of_violationAt? h.here
  cases segment with
  | element i => cases hrole
  | member key =>
      cases hrole
      refine ⟨key, below, rfl, ?_⟩
      intro hne
      obtain ⟨segment, rest, rfl⟩ := List.exists_cons_of_ne_nil hne
      obtain ⟨role', _, hrole', -⟩ := Role.exists_part_of_violationAt? hbelow
      exact reserved_of_part? hrole'

theorem display_follow_root_of_masked (h : address = [] ∨ address.Masked) :
    (Location.follow "" address).display = Location.rootName := by
  rcases h with rfl | rfl | rfl <;> rfl

/-- Any other first violation has its address for a location, less the first dot, and this is not the
name of the root. -/
theorem display_follow_root (h : Role.rule.FirstViolation scope raw address violation)
    (hne : address ≠ []) (hmasked : ¬ address.Masked) :
    "." ++ (Location.follow "" address).display = address.text ∧
      (Location.follow "" address).display ≠ Location.rootName := by
  obtain ⟨key, below, rfl, hbelow⟩ := h.member_cases hne
  have hkey : key ≠ "" := by
    rintro rfl
    by_cases hnil : below = []
    · subst hnil
      exact hmasked (Or.inl rfl)
    · simpa using hbelow hnil
  have htext : key ++ Address.text below ≠ "" := fun h => hkey (String.append_eq_empty_iff.mp h).1
  rw [Location.follow_root_member hkey, Location.display, if_neg htext]
  refine ⟨by rw [Address.text, Segment.text, String.append_assoc], ?_⟩
  intro hroot
  by_cases hnil : below = []
  · subst hnil
    rw [Address.text, String.append_empty] at hroot
    exact hmasked (Or.inr (by rw [hroot]))
  · -- A reserved key does not start like the name of the root.
    have hchars := congrArg String.toList hroot
    rw [String.toList_append] at hchars
    simp only [List.mem_cons, List.not_mem_nil, or_false] at hbelow
    rcases hbelow hnil with rfl | rfl | rfl <;> simp [Location.rootName] at hchars

theorem under_follow_root_of_masked (h : address = [] ∨ address.Masked) (outer : String) :
    (CompileError.mk (Location.follow "" address).display violation).under outer =
      ⟨outer, violation⟩ := by
  rw [CompileError.under, display_follow_root_of_masked h, if_pos rfl]

theorem under_follow_root (h : Role.rule.FirstViolation scope raw address violation)
    (hmasked : ¬ address.Masked) (outer : String) :
    (CompileError.mk (Location.follow "" address).display violation).under outer =
      ⟨outer ++ address.text, violation⟩ := by
  by_cases hne : address = []
  · rw [under_follow_root_of_masked (Or.inl hne), hne, Address.text, String.append_empty]
  · obtain ⟨htext, hroot⟩ := display_follow_root h hne hmasked
    rw [CompileError.under, if_neg hroot, String.append_assoc, htext]

theorem Address.text_ne_empty (h : address ≠ []) : address.text ≠ "" := by
  obtain ⟨segment, below, rfl⟩ := List.exists_cons_of_ne_nil h
  intro hempty
  have hchars := congrArg String.toList (String.append_eq_empty_iff.mp hempty).1
  cases segment <;> simp [Segment.text] at hchars

theorem Address.Masked.ne_nil (h : address.Masked) : address ≠ [] := by
  rcases h with rfl | rfl <;> exact List.cons_ne_nil _ _

theorem append_ne_self {s t : String} (h : t ≠ "") : s ≠ s ++ t := by
  intro heq
  rw [eq_comm, String.append_eq_left_iff] at heq
  exact h heq

theorem under_location_eq_iff (h : Role.rule.FirstViolation scope raw address violation)
    (outer : String) :
    ((CompileError.mk (Location.follow "" address).display violation).under outer).location =
      outer ++ address.text ↔ ¬ address.Masked := by
  constructor
  · intro hlocation hmasked
    rw [under_follow_root_of_masked (Or.inr hmasked)] at hlocation
    exact append_ne_self (Address.text_ne_empty hmasked.ne_nil) hlocation
  · intro hmasked
    rw [under_follow_root h hmasked]

theorem dot_display_eq_iff (h : Role.rule.FirstViolation scope raw address violation)
    (hne : address ≠ []) :
    "." ++ (Location.follow "" address).display = address.text ↔ address ≠ [.member ""] := by
  by_cases hmasked : address.Masked
  · rcases hmasked with rfl | rfl
    · exact iff_of_false (by decide) (fun h => h rfl)
    · exact iff_of_true rfl (by decide)
  · exact iff_of_true (display_follow_root h hne hmasked).1 fun heq => hmasked (Or.inl heq)

/-- A composite is refused for a sub-rule at the place of the sub-rule. -/
theorem compile_composite_of_error {connective : Connective} {before after : List Json} {item : Json}
    (hitem : item.Canonical)
    (hbefore : ∀ sibling ∈ before, ∃ rule, compiler.compile sibling = .ok rule)
    (hfirst : Role.rule.FirstViolation compiler.scope item address violation) :
    compiler.compile (.object [(connective.operator, .array (before ++ item :: after))]) =
      .error ⟨connective.operator ++ (Segment.element before.length).text ++ address.text,
        violation⟩ := by
  have hmember : Location.member "" connective.operator = connective.operator := if_pos rfl
  have hoperator : connective.operator ≠ "" := by cases connective <;> decide
  have hlocation : (Location.item connective.operator before.length).follow address =
      connective.operator ++ (Segment.element before.length).text ++ address.text := by
    rw [String.append_assoc]
    exact Location.follow_of_ne_empty hoperator (.element before.length :: address)
  have hne : connective.operator ++ (Segment.element before.length).text ++ address.text ≠ "" := by
    rw [String.append_assoc]
    exact fun h => hoperator (String.append_eq_empty_iff.mp h).1
  apply (compileAt_composite_eq_error_iff (by simp)).mpr
  refine ⟨before, item, after, rfl, ?_, ?_⟩
  · simpa only [compile_eq_ok_iff] using hbefore
  · rw [compileAt_eq_error_iff hitem, hmember]
    refine ⟨address, violation, hfirst, ?_⟩
    rw [hlocation, Location.display, if_neg hne]

/-- The location of an error spells the address of the first violation, in a policy set, for an element
of a composite, and under any scope, except where the address cannot be told from the root. -/
theorem error_locations_spell_addresses (compiler : Compiler) :
    (∀ raws : Operation → Json, (∀ operation, (raws operation).Canonical) → ∀ error,
      compiler.compileSet (raws .read) (raws .write) = .error error →
      ∃ operation address,
        Role.rule.FirstViolation compiler.scope (raws operation) address error.violation ∧
        (operation = .write → ∃ rule, compiler.compile (raws .read) = .ok rule) ∧
        (error.location = operation.name ++ address.text ↔ ¬ address.Masked) ∧
        (address.Masked → error.location = operation.name)) ∧
    (∀ (connective : Connective) (before after : List Json) (item : Json) (error : CompileError),
      item.Canonical → (∀ sibling ∈ before, ∃ rule, compiler.compile sibling = .ok rule) →
      compiler.compile item = .error error →
      ∃ address location, Role.rule.FirstViolation compiler.scope item address error.violation ∧
        compiler.compile (.object [(connective.operator, .array (before ++ item :: after))]) =
          .error ⟨location, error.violation⟩ ∧
        location = connective.operator ++ (Segment.element before.length).text ++ address.text ∧
        (address ≠ [] →
          (location = connective.operator ++ (Segment.element before.length).text ++
            ("." ++ error.location) ↔ address ≠ [.member ""]))) ∧
    ∀ raw error, raw.Canonical → compiler.compile raw = .error error →
      ∃ address, Role.rule.FirstViolation compiler.scope raw address error.violation ∧
        ∀ outer, ((error.under outer).location = outer ++ address.text ↔ ¬ address.Masked) ∧
          (address = [] → (error.under outer).location = outer) ∧
          (address ≠ [] →
            ((error.under outer).location = outer ++ "." ++ error.location ↔ ¬ address.Masked)) := by
  refine ⟨?sets, ?elements, ?scopes⟩
  case sets =>
    intro raws hraws error herror
    rcases compileSet_eq_error_iff.mp herror with
      ⟨error', hread, rfl⟩ | ⟨rule, error', hread, hwrite, rfl⟩
    · obtain ⟨address, violation, hfirst, rfl⟩ := (compileAt_eq_error_iff (hraws .read)).mp hread
      refine ⟨.read, address, hfirst, nofun, under_location_eq_iff hfirst _, ?_⟩
      intro hmasked
      rw [under_follow_root_of_masked (Or.inr hmasked)]
    · obtain ⟨address, violation, hfirst, rfl⟩ := (compileAt_eq_error_iff (hraws .write)).mp hwrite
      refine ⟨.write, address, hfirst, fun _ => ⟨rule, hread⟩, under_location_eq_iff hfirst _, ?_⟩
      intro hmasked
      rw [under_follow_root_of_masked (Or.inr hmasked)]
  case elements =>
    intro connective before after item error hitem hbefore herror
    obtain ⟨address, violation, hfirst, rfl⟩ := (compileAt_eq_error_iff hitem).mp herror
    refine ⟨address, _, hfirst, compile_composite_of_error hitem hbefore hfirst, rfl, ?_⟩
    intro hne
    rw [String.append_right_inj, eq_comm, dot_display_eq_iff hfirst hne]
  case scopes =>
    intro raw error hraw herror
    obtain ⟨address, violation, hfirst, rfl⟩ := (compileAt_eq_error_iff hraw).mp herror
    refine ⟨address, hfirst, ?_⟩
    intro outer
    refine ⟨under_location_eq_iff hfirst outer, ?_, ?_⟩
    · intro hnil
      rw [under_follow_root_of_masked (Or.inl hnil)]
    · intro hne
      constructor
      · intro hlocation hmasked
        rw [under_follow_root_of_masked (Or.inr hmasked), String.append_assoc] at hlocation
        exact append_ne_self (by simp) hlocation
      · intro hmasked
        rw [under_follow_root hfirst hmasked, String.append_assoc,
          (display_follow_root hfirst hne hmasked).1]

/-! ## A field without a value -/

def ownerless : Json := .object [("owner", .null)]

def ownerlessRaws : Operation → Json
  | .read => .object [("$or", .array [.object [], ownerless])]
  | .write => .object []

theorem error_locations_spell_addresses_ownerless :
    (∃ operation address, Role.rule.FirstViolation Namespace.standard (ownerlessRaws operation)
        address (.malformed (.notScalar "null")) ∧
      "read.$or[1].owner" = operation.name ++ address.text) ∧
    (∃ address, Role.rule.FirstViolation Namespace.standard ownerless address
        (.malformed (.notScalar "null")) ∧
      Compiler.compile {} (ownerlessRaws .read) =
        .error ⟨"$or" ++ "[1]" ++ address.text, .malformed (.notScalar "null")⟩) ∧
    ∃ address, Role.rule.FirstViolation Namespace.standard ownerless address
        (.malformed (.notScalar "null")) ∧
      "read.owner" = "read" ++ address.text := by
  obtain ⟨hsets, helements, hscopes⟩ := error_locations_spell_addresses {}
  have hcanonical : ownerless.Canonical := by
    simp [ownerless, Json.Canonical, Json.CanonicalMembers, Ordered]
  have hraws : ∀ operation, (ownerlessRaws operation).Canonical := by
    intro operation
    cases operation <;>
      simp [ownerlessRaws, ownerless, Json.Canonical, Json.CanonicalItems, Json.CanonicalMembers,
        Ordered]
  have hrefused : Compiler.compile {} ownerless =
      .error ⟨"owner", .malformed (.notScalar "null")⟩ := rfl
  refine ⟨?_, ?_, ?_⟩
  · obtain ⟨operation, address, hfirst, -, hspelled, hmasked⟩ :=
      hsets ownerlessRaws hraws ⟨"read.$or[1].owner", .malformed (.notScalar "null")⟩ rfl
    refine ⟨operation, address, hfirst, hspelled.mpr ?_⟩
    intro hmask
    have hname := hmasked hmask
    cases operation <;> exact absurd hname (by decide)
  · obtain ⟨address, _, hfirst, hcompile, rfl, -⟩ :=
      helements .any [.object []] [] ownerless _ hcanonical
        (List.forall_mem_singleton.mpr ⟨_, rfl⟩) hrefused
    exact ⟨address, hfirst, hcompile⟩
  · obtain ⟨address, hfirst, hscope⟩ := hscopes ownerless _ hcanonical hrefused
    obtain ⟨hspelled, hroot, hinside⟩ := hscope "read"
    have hne : address ≠ [] := fun hnil => absurd (hroot hnil) (by decide)
    exact ⟨address, hfirst, hspelled.mpr ((hinside hne).mp rfl)⟩

/-- The key of a member of the root is lost when it is empty or the name of the root, and it is not lost
in an element of a composite. -/
theorem error_location_drops_root_key :
    Compiler.compileSet {} (.object [("<root>", .null)]) (.object []) =
      .error ⟨"read", .malformed (.notScalar "null")⟩ ∧
    Role.rule.FirstViolation Namespace.standard (.object [("<root>", .null)]) [.member "<root>"]
      (.malformed (.notScalar "null")) ∧
    "read" ≠ Operation.read.name ++ Address.text [.member "<root>"] ∧
    Compiler.compileSet {} (.object [("$or", .array [.object [("<root>", .null)]])]) (.object []) =
      .error ⟨"read.$or[0].<root>", .malformed (.notScalar "null")⟩ ∧
    Compiler.compileSet {} (.object [("", .null)]) (.object []) =
      .error ⟨"read", .malformed .emptyField⟩ ∧
    Role.rule.FirstViolation Namespace.standard (.object [("", .null)]) [.member ""]
      (.malformed .emptyField) ∧
    "read" ≠ Operation.read.name ++ Address.text [.member ""] := by
  refine ⟨rfl, .singleton (.root (by decide)), by decide, rfl, rfl, .singleton (.root (by decide)),
    by decide⟩

end RowPolicy
