import RowPolicy.Json.Basic
import RowPolicy.Proofs.Pairing
import RowPolicy.Proofs.TemplateGrammar

/-!
# Spaces inside templates

The spaces between the braces of a template and its path carry no meaning. Two JSON values are
respacings of each other when they differ in such spaces only. A respacing of a template refers to
the same attribute.
-/

namespace RowPolicy

namespace Template

/-- Two texts are the same, or are the template of one path with other spaces. -/
def Respaced (text text' : List Char) : Prop :=
  text = text' ∨ ∃ names left right left' right', names ≠ [] ∧ (∀ name ∈ names, IsIdentifier name) ∧
    text = written left right names ∧ text' = written left' right' names

theorem written_injective {names names' : List (List Char)} {left right left' right' : Nat}
    (hne : names ≠ []) (hnames : ∀ name ∈ names, IsIdentifier name) (hne' : names' ≠ [])
    (hnames' : ∀ name ∈ names', IsIdentifier name)
    (h : written left right names = written left' right' names') : names = names' := by
  have hpath := path_written left right hne hnames
  rw [h, path_written left' right' hne' hnames'] at hpath
  exact (Except.ok.inj hpath).symm

namespace Respaced

variable {text a b : List Char}

theorem refl (text : List Char) : Respaced text text := Or.inl rfl

/-- Respacings of one text are respacings of each other. -/
theorem common (h : Respaced text a) (h' : Respaced text b) : Respaced a b := by
  rcases h with rfl | ⟨names, _, _, left, right, hne, hnames, htext, ha⟩
  · exact h'
  · rcases h' with rfl | ⟨names', _, _, left', right', hne', hnames', htext', hb⟩
    · exact Or.inr ⟨names, _, _, _, _, hne, hnames, ha, htext⟩
    · have heq : names = names' := written_injective hne hnames hne' hnames' (htext ▸ htext')
      subst heq
      exact Or.inr ⟨names, _, _, _, _, hne, hnames, ha, hb⟩

theorem eq_of_not_marked (h : Respaced text a) (hmarked : ¬ Marked text) : a = text := by
  rcases h with rfl | ⟨names, left, right, _, _, _, _, rfl, _⟩
  · rfl
  · exact absurd (marked_written left right names) hmarked

theorem refersTo {raw raw' name : String} (h : Respaced raw.toList raw'.toList)
    (hrefers : RefersTo raw name) : RefersTo raw' name := by
  obtain ⟨hname, left, right, htext⟩ := hrefers
  rcases h with heq | ⟨names, left', right', left'', right'', hne, hnames, htext', hraw'⟩
  · exact ⟨hname, left, right, heq ▸ htext⟩
  · have hpath := isIdentifier_of_mem_attributePath hname
    have hwritten := htext.symm.trans htext'
    have heq := written_injective (List.cons_ne_nil _ _) hpath hne hnames hwritten
    refine ⟨hname, left'', right'', ?_⟩
    rw [heq]
    exact hraw'

theorem of_refersTo {raw raw' name : String} (h : RefersTo raw name) (h' : RefersTo raw' name) :
    Respaced raw.toList raw'.toList := by
  obtain ⟨hname, left, right, htext⟩ := h
  obtain ⟨-, left', right', htext'⟩ := h'
  exact Or.inr ⟨_, left, right, left', right', List.cons_ne_nil _ _,
    isIdentifier_of_mem_attributePath hname, htext, htext'⟩

end Respaced

end Template

namespace Json

/-- Two values are the same up to the number of spaces inside the braces of their templates. -/
inductive Respaced : Json → Json → Prop
  | null : Respaced .null .null
  | bool (value : Bool) : Respaced (.bool value) (.bool value)
  | number (value : Number) : Respaced (.number value) (.number value)
  | string {text text' : String} :
      Template.Respaced text.toList text'.toList → Respaced (.string text) (.string text')
  | array {items items' : List Json} :
      List.Forall₂ Respaced items items' → Respaced (.array items) (.array items')
  | object {members members' : List (String × Json)} :
      members.map Prod.fst = members'.map Prod.fst →
      List.Forall₂ Respaced (members.map Prod.snd) (members'.map Prod.snd) →
      Respaced (.object members) (.object members')

theorem sizeOf_lt_of_mem_values {members : List (String × Json)} {value : Json}
    (h : value ∈ members.map Prod.snd) : sizeOf value < sizeOf members := by
  obtain ⟨member, hmember, rfl⟩ := List.mem_map.mp h
  have hlt := List.sizeOf_lt_of_mem hmember
  cases member
  simp only [Prod.mk.sizeOf_spec] at hlt ⊢
  omega

namespace Respaced

/-- Respacings of one value are respacings of each other. The recursion is on that value. -/
theorem common {json a b : Json} (h : Respaced json a) (h' : Respaced json b) : Respaced a b := by
  match json, h, h' with
  | _, .null, .null => exact .null
  | _, .bool value, .bool _ => exact .bool value
  | _, .number value, .number _ => exact .number value
  | _, .string htext, .string htext' => exact .string (htext.common htext')
  | .array items, .array hitems, .array hitems' =>
      apply Respaced.array
      apply forall₂_of_common hitems hitems'
      intro item hitem _ _ ha hb
      have hsize := List.sizeOf_lt_of_mem hitem
      exact common ha hb
  | .object members, .object hkeys hvalues, .object hkeys' hvalues' =>
      apply Respaced.object (hkeys.symm.trans hkeys')
      apply forall₂_of_common hvalues hvalues'
      intro value hvalue _ _ ha hb
      have hsize := sizeOf_lt_of_mem_values hvalue
      exact common ha hb
termination_by sizeOf json
decreasing_by
  all_goals simp only [Json.array.sizeOf_spec, Json.object.sizeOf_spec]
  all_goals omega

theorem refl (json : Json) : Respaced json json := by
  match json with
  | .null => exact .null
  | .bool value => exact .bool value
  | .number value => exact .number value
  | .string text => exact .string (.refl text.toList)
  | .array items =>
      apply Respaced.array
      rw [List.forall₂_same]
      intro item hitem
      have hsize := List.sizeOf_lt_of_mem hitem
      exact refl item
  | .object members =>
      apply Respaced.object rfl
      rw [List.forall₂_same]
      intro value hvalue
      have hsize := sizeOf_lt_of_mem_values hvalue
      exact refl value
termination_by sizeOf json
decreasing_by
  all_goals simp only [Json.array.sizeOf_spec, Json.object.sizeOf_spec]
  all_goals omega

theorem member (key : String) {value value' : Json} (h : Respaced value value') :
    Respaced (.object [(key, value)]) (.object [(key, value')]) :=
  .object rfl (.cons h .nil)

theorem of_member {key : String} {value json : Json} (h : Respaced (.object [(key, value)]) json) :
    ∃ value', json = .object [(key, value')] ∧ Respaced value value' := by
  cases h with
  | @object _ members' hkeys hvalues =>
      obtain ⟨value', rest, hvalue, hrest, heq⟩ := List.forall₂_cons_left_iff.mp hvalues
      obtain rfl := List.forall₂_nil_left_iff.mp hrest
      match members' with
      | [(key', value'')] =>
          cases hkeys
          cases heq
          exact ⟨_, rfl, hvalue⟩

end Respaced

end Json

end RowPolicy
