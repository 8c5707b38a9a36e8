import RowPolicy.Proofs.FirstViolation
import RowPolicy.Proofs.JsonOrder

/-!
# What is read of a declared rule

Of each value only a surface is read before its parts: the keys of a rule, whether a composite has
sub-rules and a condition has attributes, a scalar, and of any other value its kind. What is wrong with
a value shows at its surface, so that values with the same surfaces up to an address are told apart by
no violation up to it, and a change at a later address leaves the first violation where it is.
-/

namespace RowPolicy

open Compiler

def Json.bare : Json → Json
  | .array _ => .array []
  | .object _ => .object []
  | value => value

def Json.modifyPart (f : Json → Json) : Json → Segment → Json
  | .array items, .element index => .array (items.modify index f)
  | .object members, .member key =>
    .object (members.map fun entry => (entry.1, if entry.1 = key then f entry.2 else entry.2))
  | value, _ => value

/-- A value with another one in place of what stands at an address, if something does. -/
def Json.put : Json → Address → Json → Json
  | _, [], new => new
  | value, segment :: address, new => value.modifyPart (fun part => part.put address new) segment

namespace Role

/-- What is read of a value in a role before its parts. Nothing is read of the value under a key that is
refused itself. -/
def surface : Role → Json → Json
  | .rule, .object members => .object (members.map fun entry => (entry.1, .null))
  | .subrules _, .array items => .array ((items.take 1).map fun _ => .null)
  | .attributes, .object members => .object ((members.take 1).map fun _ => ("", .null))
  | .attributeValue name, value => if name = "" then .null else value.bare
  | .fieldValue key, value => if key.toList.head? = some '$' ∨ key = "" then .null else value.bare
  | _, value => value.bare

def surfaceAt? (role : Role) (value : Json) (address : Address) : Option Json :=
  (role.reach? value address).map fun found => found.1.surface found.2

/-- Reading up to an address does not tell two values apart. -/
def AgreeUpTo (role : Role) (value value' : Json) (address : Address) : Prop :=
  ∀ here : Address, here = address ∨ here.Before address →
    role.surfaceAt? value here = role.surfaceAt? value' here

variable {scope : Namespace} {role : Role} {value value' : Json} {address : Address}
  {violation : Violation}

/-! ## What is wrong with a value shows at its surface -/

theorem violation?_surface :
    role.violation? scope (role.surface value) = role.violation? scope value := by
  cases role with
  | rule => cases value <;> simp [surface, violation?, Json.bare, Json.kindName, Function.comp_def]
  | subrules connective => cases value <;> simp [surface, violation?, Json.bare, Json.kindName]
  | attributes => cases value <;> simp [surface, violation?, Json.bare, Json.kindName]
  | attributeValue name =>
      by_cases hname : name = ""
      · simp [violation?, attributeViolation?, hname]
      · rw [surface, if_neg hname]
        cases value <;> rfl
  | fieldValue key =>
      by_cases hkey : key.toList.head? = some '$' ∨ key = ""
      · rw [surface, if_pos hkey]
        rcases hkey with hdollar | hempty
        · simp [violation?, fieldViolation?, hdollar]
        · simp [violation?, fieldViolation?, hempty]
      · rw [surface, if_neg hkey]
        cases value <;> rfl

/-- The address alone says in which role the value there is read. -/
theorem reach?_role {found found' : Role × Json} (h : role.reach? value address = some found)
    (h' : role.reach? value' address = some found') : found.1 = found'.1 := by
  induction address generalizing role value value' with
  | nil =>
      cases h
      cases h'
      rfl
  | cons segment address ih =>
      obtain ⟨role₁, hrole, hbelow⟩ := Option.bind_eq_some_iff.mp h
      obtain ⟨role₂, hrole', hbelow'⟩ := Option.bind_eq_some_iff.mp h'
      cases hrole.symm.trans hrole'
      obtain ⟨part, -, hreach⟩ := Option.bind_eq_some_iff.mp hbelow
      obtain ⟨part', -, hreach'⟩ := Option.bind_eq_some_iff.mp hbelow'
      exact ih hreach hreach'

theorem violationAt?_eq_of_surfaceAt?
    (h : role.surfaceAt? value address = role.surfaceAt? value' address) :
    role.violationAt? scope value address = role.violationAt? scope value' address := by
  rw [violationAt?, violationAt?]
  cases hfound : role.reach? value address with
  | none =>
      rw [surfaceAt?, hfound, Option.map_none, eq_comm, surfaceAt?, Option.map_eq_none_iff] at h
      rw [h]
  | some found =>
      rw [surfaceAt?, hfound, Option.map_some, eq_comm, surfaceAt?, Option.map_eq_some_iff] at h
      obtain ⟨found', hfound', hsurface⟩ := h
      have hrole := reach?_role hfound' hfound
      rw [hfound', Option.bind_some, Option.bind_some, ← violation?_surface, ← hsurface, hrole,
        violation?_surface]

theorem FirstViolation.of_agreeUpTo (h : role.FirstViolation scope value address violation)
    (hagree : role.AgreeUpTo value value' address) :
    role.FirstViolation scope value' address violation where
  here := by
    rw [← violationAt?_eq_of_surfaceAt? (hagree address (Or.inl rfl))]
    exact h.here
  earlier := by
    intro before hbefore
    rw [← violationAt?_eq_of_surfaceAt? (hagree before (Or.inr hbefore))]
    exact h.earlier before hbefore

end Role

/-! ## Changes at later addresses -/

section Changes

variable {role : Role} {value new : Json} {segment : Segment} {address here later : Address}

theorem Segment.Before.trans {s t u : Segment} (h : s.Before t) (h' : t.Before u) : s.Before u := by
  cases h with
  | member hlt =>
      cases h' with
      | member hlt' => exact .member (String.lt_trans hlt hlt')
  | element hlt =>
      cases h' with
      | element hlt' => exact .element (Nat.lt_trans hlt hlt')

theorem Segment.Before.ne {s t : Segment} (h : s.Before t) : s ≠ t := by
  rintro rfl
  cases h with
  | member hlt => exact String.lt_irrefl _ hlt
  | element hlt => exact Nat.lt_irrefl _ hlt

theorem Address.Before.trans {p q r : Address} (h : p.Before q) (h' : q.Before r) : p.Before r := by
  induction h generalizing r with
  | nil => cases h' <;> exact .nil
  | rel hsegment =>
      cases h' with
      | rel hsegment' => exact .rel (hsegment.trans hsegment')
      | cons _ => exact .rel hsegment
  | cons _ ih =>
      cases h' with
      | rel hsegment => exact .rel hsegment
      | cons hbelow => exact .cons (ih hbelow)

theorem part?_modifyPart (f : Json → Json) (changed : Segment) :
    (value.modifyPart f changed).part? segment =
      (value.part? segment).map fun part => if segment = changed then f part else part := by
  cases value with
  | object members =>
      cases changed with
      | element j => cases segment <;> simp [Json.modifyPart, Json.part?]
      | member l =>
          cases segment with
          | element i => rfl
          | member k =>
              simp only [Json.modifyPart, Json.part?, Segment.member.injEq]
              exact lookup_map_entry (fun name part => if name = l then f part else part) members k
  | array items =>
      cases changed with
      | member l => cases segment <;> simp [Json.modifyPart, Json.part?]
      | element j =>
          cases segment with
          | member k => rfl
          | element i =>
              simp only [Json.modifyPart, Json.part?, Segment.element.injEq, List.getElem?_modify,
                Option.map_eq_map, eq_comm]
  | _ => cases changed <;> rfl

theorem surface_modifyPart (f : Json → Json) (changed : Segment) :
    role.surface (value.modifyPart f changed) = role.surface value := by
  cases value with
  | object members =>
      cases changed with
      | element j => rfl
      | member l =>
          cases role <;> simp [Json.modifyPart, Role.surface, Json.bare, Function.comp_def]
  | array items =>
      cases changed with
      | member l => rfl
      | element j => cases role <;> simp [Json.modifyPart, Role.surface, Json.bare]
  | _ => cases changed <;> rfl

theorem surfaceAt?_cons :
    role.surfaceAt? value (segment :: address) =
      (role.part? segment).bind fun role' => (value.part? segment).bind fun part =>
        role'.surfaceAt? part address := by
  rw [Role.surfaceAt?, Role.reach?]
  cases role.part? segment with
  | none => rfl
  | some role' => cases value.part? segment <;> rfl

/-- Reading does not notice a change before it comes to the changed value. -/
theorem surfaceAt?_put (h : here.Before later) :
    role.surfaceAt? (value.put later new) here = role.surfaceAt? value here := by
  induction here generalizing role value later with
  | nil =>
      cases h
      exact congrArg some (surface_modifyPart _ _)
  | cons segment here ih =>
      obtain ⟨changed, below, rfl⟩ : ∃ changed below, later = changed :: below := by
        cases h <;> exact ⟨_, _, rfl⟩
      rw [surfaceAt?_cons, surfaceAt?_cons, Json.put, part?_modifyPart]
      cases role.part? segment with
      | none => rfl
      | some role' =>
          cases value.part? segment with
          | none => rfl
          | some part =>
              rw [Option.bind_some, Option.bind_some, Option.map_some, Option.bind_some]
              -- A part that is not changed itself comes before the one that is.
              by_cases hsegment : segment = changed
              · rw [if_pos hsegment]
                apply ih
                cases h with
                | rel hlt => exact absurd hsegment hlt.ne
                | cons hbelow => exact hbelow
              · rw [if_neg hsegment, Option.bind_some]

theorem agreeUpTo_put (h : address.Before later) :
    role.AgreeUpTo value (value.put later new) address := by
  rintro here (rfl | hhere)
  · exact (surfaceAt?_put h).symm
  · exact (surfaceAt?_put (hhere.trans h)).symm

theorem canonical_modifyPart {f : Json → Json} (hvalue : value.Canonical)
    (hf : ∀ part : Json, part.Canonical → (f part).Canonical) (changed : Segment) :
    (value.modifyPart f changed).Canonical := by
  cases value with
  | object members =>
      cases changed with
      | element j => exact hvalue
      | member l =>
          obtain ⟨hordered, hmembers⟩ := hvalue
          refine ⟨?_, ?_⟩
          · rw [Ordered, List.map_map]
            exact hordered
          · rw [Json.canonicalMembers_iff] at hmembers ⊢
            intro entry hentry
            obtain ⟨entry, hmem, rfl⟩ := List.mem_map.mp hentry
            have hpart := hmembers entry hmem
            split
            · exact hf _ hpart
            · exact hpart
  | array items =>
      cases changed with
      | member l => exact hvalue
      | element j =>
          apply Json.canonicalItems_iff.mpr
          intro item hitem
          obtain ⟨i, hi⟩ := List.mem_iff_getElem?.mp hitem
          rw [List.getElem?_modify, Option.map_eq_map, Option.map_eq_some_iff] at hi
          obtain ⟨part, hpart, rfl⟩ := hi
          have hcanonical := Json.canonicalItems_iff.mp hvalue part (List.mem_of_getElem? hpart)
          split
          · exact hf _ hcanonical
          · exact hcanonical
  | _ => cases changed <;> exact hvalue

theorem canonical_put (hvalue : value.Canonical) (hnew : new.Canonical) (address : Address) :
    (value.put address new).Canonical := by
  induction address generalizing value with
  | nil => exact hnew
  | cons segment address ih => exact canonical_modifyPart hvalue (fun part hpart => ih hpart) segment

end Changes

end RowPolicy
