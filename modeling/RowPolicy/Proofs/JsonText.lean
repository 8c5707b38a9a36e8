import RowPolicy.Json.Printer
import RowPolicy.Proofs.NumberText
import RowPolicy.Proofs.StringText

/-!
# Compact texts of JSON values

The compact text of a value tells the value, and where it ends: a value in front of a text that
cannot continue a number is read in one way only. Two values with one compact text are therefore
the same, down to the sign of a zero and the order in which members are listed.
-/

namespace RowPolicy

namespace Json

open Text

/-! ## Lists of texts -/

@[simp] theorem joined_cons (separator text : List Char) (texts : List (List Char)) :
    joined separator (text :: texts) = text ++ texts.flatMap (separator ++ ·) := by
  induction texts generalizing text with
  | nil => simp [joined]
  | cons next texts ih =>
      rw [joined, ih next]
      · simp
      · exact List.cons_ne_nil next texts

@[simp] theorem compactItems_eq_map (items : List Json) : compactItems items = items.map compactChars := by
  induction items with
  | nil => rfl
  | cons item items ih => rw [compactItems, ih, List.map_cons]

def memberChars (member : String × Json) : List Char :=
  stringText member.1 ++ ':' :: compactChars member.2

@[simp] theorem compactMembers_eq_map (members : List (String × Json)) :
    compactMembers members = members.map memberChars := by
  induction members with
  | nil => rfl
  | cons member members ih => rw [compactMembers, ih, List.map_cons, memberChars]

/-- A text in front of one that does not go on with a number is read as one element only. -/
def ReadsOnce {α : Type} (write : α → List Char) (a : α) : Prop :=
  ∀ b s t, Stops isNumberChar s → Stops isNumberChar t →
    write a ++ s = write b ++ t → a = b ∧ s = t

variable {α : Type} {write : α → List Char} {close : Char}

theorem stops_elements {p : Char → Bool} (hcomma : p ',' = false) (hclose : p close = false)
    (elements : List α) (s : List Char) :
    Stops p (elements.flatMap ([','] ++ write ·) ++ close :: s) := by
  cases elements with
  | nil => simpa using hclose
  | cons a elements =>
      simp only [List.flatMap_cons, List.append_assoc, List.cons_append, stops_cons]
      exact hcomma

theorem elements_unique (hclose : isNumberChar close = false) (hcomma : close ≠ ',')
    {as bs : List α} (has : ∀ a ∈ as, ReadsOnce write a) {s t : List Char}
    (h : as.flatMap ([','] ++ write ·) ++ close :: s =
      bs.flatMap ([','] ++ write ·) ++ close :: t) : as = bs ∧ s = t := by
  induction as generalizing bs with
  | nil =>
      cases bs with
      | nil => simpa using h
      | cons b bs =>
          simp only [List.flatMap_nil, List.nil_append, List.flatMap_cons, List.append_assoc,
            List.cons_append, List.cons.injEq] at h
          exact absurd h.1 hcomma
  | cons a as ih =>
      obtain ⟨ha, has⟩ := List.forall_mem_cons.mp has
      cases bs with
      | nil =>
          simp only [List.flatMap_nil, List.nil_append, List.flatMap_cons, List.append_assoc,
            List.cons_append, List.cons.injEq] at h
          exact absurd h.1.symm hcomma
      | cons b bs =>
          simp only [List.flatMap_cons, List.append_assoc, List.cons_append,
            List.cons.injEq, true_and] at h
          obtain ⟨rfl, hrest⟩ := ha b _ _ (stops_elements (by decide) hclose as s)
            (stops_elements (by decide) hclose bs t) h
          obtain ⟨rfl, rfl⟩ := ih has hrest
          exact ⟨rfl, rfl⟩

/-- Elements between commas, up to a closing mark that none of them starts with, are read in one
way only. -/
theorem joined_unique (hclose : isNumberChar close = false) (hcomma : close ≠ ',')
    (hhead : ∀ a, ∃ c rest, write a = c :: rest ∧ c ≠ close)
    {as bs : List α} (has : ∀ a ∈ as, ReadsOnce write a) {s t : List Char}
    (h : joined [','] (as.map write) ++ close :: s = joined [','] (bs.map write) ++ close :: t) :
    as = bs ∧ s = t := by
  cases as with
  | nil =>
      cases bs with
      | nil => simpa [joined] using h
      | cons b bs =>
          obtain ⟨c, rest, hwrite, hc⟩ := hhead b
          rw [List.map_cons, joined_cons, hwrite] at h
          simp only [List.map_nil, joined, List.nil_append, List.cons_append,
            List.cons.injEq] at h
          exact absurd h.1.symm hc
  | cons a as =>
      obtain ⟨ha, has⟩ := List.forall_mem_cons.mp has
      cases bs with
      | nil =>
          obtain ⟨c, rest, hwrite, hc⟩ := hhead a
          rw [List.map_cons, joined_cons, hwrite] at h
          simp only [List.map_nil, joined, List.nil_append, List.cons_append,
            List.cons.injEq] at h
          exact absurd h.1 hc
      | cons b bs =>
          rw [List.map_cons, List.map_cons, joined_cons, joined_cons, List.append_assoc,
            List.append_assoc, List.flatMap_map, List.flatMap_map] at h
          obtain ⟨rfl, hrest⟩ := ha b _ _ (stops_elements (by decide) hclose as s)
            (stops_elements (by decide) hclose bs t) h
          obtain ⟨rfl, rfl⟩ := elements_unique hclose hcomma has hrest
          exact ⟨rfl, rfl⟩

/-! ## Values -/

/-- The kind of value that a character starts, by its name. -/
def startedKind (c : Char) : String :=
  if c = 'n' then "null"
  else if c = 't' ∨ c = 'f' then "boolean"
  else if isNumberChar c then "number"
  else if c = '"' then "string"
  else if c = '[' then "array"
  else if c = '\x7b' then "object"
  else ""

theorem startedKind_of_isNumberChar {c : Char} (h : isNumberChar c = true) :
    startedKind c = "number" := by
  have hletter : c ≠ 'n' ∧ c ≠ 't' ∧ c ≠ 'f' := by
    refine ⟨?_, ?_, ?_⟩ <;>
      · rintro rfl
        exact absurd h (by decide)
  simp [startedKind, hletter, h]

theorem Number.text_ne_nil (a : Number) : a.text ≠ [] := by
  cases a with
  | integer x =>
      rw [Number.text, Integer.text_eq]
      simp [Nat.toDigits_ne_nil]
  | real x =>
      rw [Number.text]
      intro hnil
      have hmarked := x.text_marked
      rw [hnil] at hmarked
      simp at hmarked

/-- The first character of a text tells the kind of its value. -/
theorem compactChars_head (a : Json) :
    ∃ c rest, compactChars a = c :: rest ∧ startedKind c = a.kindName := by
  cases a with
  | null => exact ⟨'n', _, rfl, by decide⟩
  | bool value =>
      cases value with
      | false => exact ⟨'f', _, rfl, by decide⟩
      | true => exact ⟨'t', _, rfl, by decide⟩
  | number value =>
      rw [compactChars]
      cases htext : value.text with
      | nil => exact absurd htext value.text_ne_nil
      | cons c rest =>
          have hc := value.text_isNumberChar c (by rw [htext]; exact List.mem_cons_self)
          exact ⟨c, rest, rfl, startedKind_of_isNumberChar hc⟩
  | string value => exact ⟨'"', _, rfl, by rfl⟩
  | array items => exact ⟨'[', _, rfl, by rfl⟩
  | object members => exact ⟨'\x7b', _, rfl, by rfl⟩

theorem kindName_eq_of_text {a b : Json} {s t : List Char}
    (h : compactChars a ++ s = compactChars b ++ t) : a.kindName = b.kindName := by
  obtain ⟨c, rest, htext, hkind⟩ := compactChars_head a
  obtain ⟨c', rest', htext', hkind'⟩ := compactChars_head b
  rw [htext, htext', List.cons_append, List.cons_append, List.cons.injEq] at h
  rw [← hkind, ← hkind', h.1]

theorem head_ne_close (a : Json) (hclose : startedKind close = "") :
    ∃ c rest, compactChars a = c :: rest ∧ c ≠ close := by
  obtain ⟨c, rest, htext, hkind⟩ := compactChars_head a
  refine ⟨c, rest, htext, ?_⟩
  rintro rfl
  rw [hclose] at hkind
  cases a <;> exact absurd hkind (by simp [kindName])

theorem readsOnce_memberChars {member : String × Json} (h : ReadsOnce compactChars member.2) :
    ReadsOnce memberChars member := by
  intro other s t hs ht htext
  simp only [memberChars, List.append_assoc] at htext
  obtain ⟨hkey, hrest⟩ := stringText_unique htext
  simp only [List.cons_append, List.cons.injEq, true_and] at hrest
  obtain ⟨hvalue, rfl⟩ := h other.2 s t hs ht hrest
  exact ⟨Prod.ext hkey hvalue, rfl⟩

/-- Compact texts are read in one way only. The recursion is on the value. -/
theorem readsOnce_compactChars (a : Json) : ReadsOnce compactChars a := by
  intro b s t hs ht h
  have hkind := kindName_eq_of_text h
  match a with
  | .null =>
      cases b with
      | null => exact ⟨rfl, by simpa [compactChars] using h⟩
      | _ => exact absurd hkind (by simp [kindName])
  | .bool value =>
      cases b with
      | bool value' =>
          cases value <;> cases value' <;> simp [compactChars, boolText] at h ⊢ <;> exact h
      | _ => exact absurd hkind (by simp [kindName])
  | .number value =>
      cases b with
      | number value' =>
          obtain ⟨htext, rfl⟩ := span_unique value.text_isNumberChar value'.text_isNumberChar
            hs ht h
          rw [Number.text_injective htext]
          exact ⟨rfl, rfl⟩
      | _ => exact absurd hkind (by simp [kindName])
  | .string value =>
      cases b with
      | string value' =>
          obtain ⟨rfl, rfl⟩ := stringText_unique h
          exact ⟨rfl, rfl⟩
      | _ => exact absurd hkind (by simp [kindName])
  | .array items =>
      cases b with
      | array items' =>
          have hitems : ∀ item ∈ items, ReadsOnce compactChars item := by
            intro item hitem
            have hsize := List.sizeOf_lt_of_mem hitem
            exact readsOnce_compactChars item
          simp only [compactChars, compactItems_eq_map, List.cons_append, List.append_assoc,
            List.cons.injEq, true_and] at h
          obtain ⟨rfl, rfl⟩ := joined_unique (by decide) (by decide)
            (fun item => head_ne_close item (by decide)) hitems h
          exact ⟨rfl, rfl⟩
      | _ => exact absurd hkind (by simp [kindName])
  | .object members =>
      cases b with
      | object members' =>
          have hmembers : ∀ member ∈ members, ReadsOnce memberChars member := by
            intro member hmember
            have hsize := List.sizeOf_lt_of_mem hmember
            have hvalue : sizeOf member.2 < sizeOf member := by
              cases member
              simp only [Prod.mk.sizeOf_spec]
              omega
            exact readsOnce_memberChars (readsOnce_compactChars member.2)
          simp only [compactChars, compactMembers_eq_map, List.cons_append, List.append_assoc,
            List.cons.injEq, true_and] at h
          obtain ⟨rfl, rfl⟩ := joined_unique (by decide) (by decide)
            (fun member => ⟨'"', _, rfl, by decide⟩) hmembers h
          exact ⟨rfl, rfl⟩
      | _ => exact absurd hkind (by simp [kindName])
termination_by sizeOf a
decreasing_by
  all_goals simp only [Json.array.sizeOf_spec, Json.object.sizeOf_spec]
  all_goals omega

/-- The compact text of a value determines it. -/
theorem compact_injective {a b : Json} (h : a.compact = b.compact) : a = b := by
  have hchars : compactChars a ++ [] = compactChars b ++ [] := by
    rw [List.append_nil, List.append_nil]
    exact String.ofList_injective h
  exact (readsOnce_compactChars a b [] [] stops_nil stops_nil hchars).1

end Json

end RowPolicy
