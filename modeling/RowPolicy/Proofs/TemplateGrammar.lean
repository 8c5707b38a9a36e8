import RowPolicy.Template
import RowPolicy.Proofs.TextSpan

/-!
# The grammar of templates

A template is written as two opening braces, spaces, identifiers joined by dots, spaces and two
closing braces. Reading accepts exactly these texts and returns their identifiers, so a string of a
rule is a literal when it has no doubled brace, and refers to an attribute when it is the template
of the principal's namespace and that attribute.
-/

namespace RowPolicy

namespace Template

open Text

/-- An identifier: a letter or an underscore, then letters, digits and underscores. -/
def IsIdentifier : List Char → Prop
  | [] => False
  | c :: rest => isIdentStart c = true ∧ ∀ d ∈ rest, isIdentRest d = true

/-- The template of a path, with some spaces on either side of it. -/
def written (left right : Nat) (names : List (List Char)) : List Char :=
  opening ++ List.replicate left ' ' ++ dotted names ++ List.replicate right ' ' ++ closing

/-- A text has one of the two marks in it, so that it must be a template as a whole. -/
def Marked (text : List Char) : Prop :=
  opening <:+: text ∨ closing <:+: text

/-- A string is a template that refers to an attribute of the principal. -/
def RefersTo (raw name : String) : Prop :=
  IsIdentifier name.toList ∧
    ∃ left right, raw.toList = written left right [principalNamespace.toList, name.toList]

/-! ## Marks -/

theorem occurs_iff {pattern text : List Char} : occurs pattern text = true ↔ pattern <:+: text := by
  induction text with
  | nil => simp [occurs]
  | cons c rest ih =>
      rw [occurs, Bool.or_eq_true, ih, List.isPrefixOf_iff_prefix, List.infix_cons_iff]

@[simp] theorem isLike_iff {text : String} : isLike text = true ↔ Marked text.toList := by
  rw [isLike, Bool.or_eq_true, occurs_iff, occurs_iff, Marked]

theorem marked_written (left right : Nat) (names : List (List Char)) :
    Marked (written left right names) := by
  apply Or.inl
  simp only [written, List.append_assoc]
  exact (List.prefix_append _ _).isInfix

/-! ## Identifiers and paths -/

theorem ident?_eq_some {text name after : List Char} (h : ident? text = some (name, after)) :
    IsIdentifier name ∧ text = name ++ after ∧ Stops isIdentRest after := by
  cases text with
  | nil => cases h
  | cons c rest =>
      simp only [ident?] at h
      split at h
      · next hstart =>
        simp only [Option.some.injEq, Prod.mk.injEq] at h
        obtain ⟨rfl, rfl⟩ := h
        refine ⟨⟨hstart, ?_⟩, ?_, stops_dropWhile rest⟩
        · intro d hd
          exact List.mem_takeWhile_imp hd
        · rw [List.cons_append, List.takeWhile_append_dropWhile]
      · cases h

theorem ident?_append {name after : List Char} (hname : IsIdentifier name)
    (hafter : Stops isIdentRest after) : ident? (name ++ after) = some (name, after) := by
  cases name with
  | nil => exact hname.elim
  | cons c rest =>
      rw [List.cons_append, ident?, if_pos hname.1, takeWhile_append_of_stops hname.2 hafter,
        dropWhile_append_of_stops hname.2 hafter]

/-- The identifiers of a path after its first, each behind its dot. -/
def dottedRest (names : List (List Char)) : List Char :=
  names.flatMap fun name => '.' :: name

@[simp] theorem dotted_cons (first : List Char) (others : List (List Char)) :
    dotted (first :: others) = first ++ dottedRest others := by
  induction others generalizing first with
  | nil => simp [dotted, dottedRest]
  | cons name names ih =>
      rw [dotted, ih name]
      · simp [dottedRest]
      · simp

theorem stops_dottedRest (names : List (List Char)) {rest : List Char}
    (h : Stops isIdentRest rest) : Stops isIdentRest (dottedRest names ++ rest) := by
  cases names with
  | nil => exact h
  | cons name names => simp [dottedRest, isIdentRest]

theorem length_le_length_dottedRest (names : List (List Char)) (rest : List Char) :
    names.length ≤ (dottedRest names ++ rest).length := by
  induction names with
  | nil => simp
  | cons name names ih =>
      simp only [dottedRest, List.flatMap_cons, List.length_append, List.length_cons] at ih ⊢
      omega

def isDot (c : Char) : Bool := c == '.'

theorem segments_of_stops {fuel : Nat} {text : List Char} (h : Stops isDot text) :
    segments fuel text = ([], text, false) := by
  cases fuel with
  | zero => rfl
  | succ fuel =>
      unfold segments
      split
      · next heq => exact absurd heq (Nat.succ_ne_zero fuel)
      · simp [isDot] at h
      · rfl

theorem segments_dot (fuel : Nat) {rest name after : List Char}
    (h : ident? rest = some (name, after)) :
    segments (fuel + 1) ('.' :: rest) =
      (name :: (segments fuel after).1, (segments fuel after).2) := by
  simp only [segments, h]

/-- What is read as the rest of a path is identifiers behind dots. -/
theorem segments_sound {fuel : Nat} {text : List Char} {names : List (List Char)}
    {rest : List Char} {dangling : Bool} (h : segments fuel text = (names, rest, dangling)) :
    text = dottedRest names ++ rest ∧ ∀ name ∈ names, IsIdentifier name := by
  induction fuel generalizing text names with
  | zero =>
      simp only [segments, Prod.mk.injEq] at h
      obtain ⟨rfl, rfl, -⟩ := h
      simp [dottedRest]
  | succ fuel ih =>
      by_cases hdot : Stops isDot text
      · rw [segments_of_stops hdot] at h
        cases h
        simp [dottedRest]
      · obtain ⟨tail, rfl⟩ : ∃ tail, text = '.' :: tail := by
          cases text with
          | nil => simp at hdot
          | cons c tail => exact ⟨tail, by simpa [isDot] using hdot⟩
        cases hident : ident? tail with
        | none =>
            simp only [segments, hident, Prod.mk.injEq] at h
            obtain ⟨rfl, rfl, -⟩ := h
            simp [dottedRest]
        | some found =>
            obtain ⟨name, after⟩ := found
            rw [segments_dot fuel hident] at h
            obtain ⟨rfl, hrest⟩ := Prod.mk.injEq .. ▸ h
            obtain ⟨hname, rfl, -⟩ := ident?_eq_some hident
            obtain ⟨hafter, hnames⟩ := ih (Prod.ext rfl hrest)
            refine ⟨?_, List.forall_mem_cons.mpr ⟨hname, hnames⟩⟩
            simpa [dottedRest] using hafter

/-- Identifiers behind dots are read off the front of a text that continues none of them. -/
theorem segments_append {names : List (List Char)} {rest : List Char} (fuel : Nat)
    (hnames : ∀ name ∈ names, IsIdentifier name) (hrest : Stops isIdentRest rest) :
    segments (names.length + fuel) (dottedRest names ++ rest) =
      (names ++ (segments fuel rest).1, (segments fuel rest).2) := by
  induction names with
  | nil => simp [dottedRest]
  | cons name names ih =>
      obtain ⟨hname, hothers⟩ := List.forall_mem_cons.mp hnames
      have htail : dottedRest (name :: names) ++ rest =
          '.' :: (name ++ (dottedRest names ++ rest)) := by
        simp [dottedRest]
      have hname' := ident?_append hname (stops_dottedRest names hrest)
      rw [htail, List.length_cons, Nat.add_right_comm, segments_dot _ hname', ih hothers,
        List.cons_append]

/-- Identifiers behind dots are read up to a text that continues neither an identifier nor the
path. -/
theorem segments_dottedRest {fuel : Nat} {names : List (List Char)} {rest : List Char}
    (hfuel : names.length ≤ fuel) (hnames : ∀ name ∈ names, IsIdentifier name)
    (hdot : Stops isDot rest) (hrest : Stops isIdentRest rest) :
    segments fuel (dottedRest names ++ rest) = (names, rest, false) := by
  obtain ⟨more, rfl⟩ := Nat.exists_eq_add_of_le hfuel
  rw [segments_append more hnames hrest, segments_of_stops hdot, List.append_nil]

/-! ## Whole templates -/

theorem skipSpaces_sound (text : List Char) :
    ∃ count, text = List.replicate count ' ' ++ skipSpaces text := by
  refine ⟨(text.takeWhile (· == ' ')).length, ?_⟩
  have hspaces : text.takeWhile (· == ' ') =
      List.replicate (text.takeWhile (· == ' ')).length ' ' := by
    rw [List.eq_replicate_iff]
    refine ⟨rfl, ?_⟩
    intro c hc
    simpa using List.mem_takeWhile_imp hc
  rw [← hspaces, skipSpaces, List.takeWhile_append_dropWhile]

theorem skipSpaces_replicate (count : Nat) {text : List Char} (h : Stops (· == ' ') text) :
    skipSpaces (List.replicate count ' ' ++ text) = text := by
  apply dropWhile_append_of_stops _ h
  intro c hc
  simpa using List.eq_of_mem_replicate hc

@[simp] theorem skipSpaces_closing (right : Nat) (tail : List Char) :
    skipSpaces (List.replicate right ' ' ++ (closing ++ tail)) = closing ++ tail :=
  skipSpaces_replicate right (by simp [closing])

/-- Neither a path nor an identifier goes on with spaces and the closing mark. -/
theorem stops_closing (right : Nat) (tail : List Char) :
    Stops isDot (List.replicate right ' ' ++ (closing ++ tail)) ∧
      Stops isIdentRest (List.replicate right ' ' ++ (closing ++ tail)) := by
  cases right <;> simp [closing, List.replicate_succ, isDot] <;> decide

theorem IsIdentifier.stops_space {name : List Char} (h : IsIdentifier name) (rest : List Char) :
    Stops (· == ' ') (name ++ rest) := by
  cases name with
  | nil => exact h.elim
  | cons c tail =>
      rw [List.cons_append, stops_cons, beq_eq_false_iff_ne]
      rintro rfl
      exact absurd h.1 (by decide)

theorem drop_of_isPrefixOf {mark text : List Char} (h : mark.isPrefixOf text = true) :
    text = mark ++ text.drop mark.length := by
  obtain ⟨tail, rfl⟩ := List.isPrefixOf_iff_prefix.mp h
  rw [List.drop_left]

/-- What is read is written as a template. -/
theorem path_sound {text : List Char} {names : List (List Char)} (h : path text = .ok names) :
    names ≠ [] ∧ (∀ name ∈ names, IsIdentifier name) ∧
      ∃ left right, text = written left right names := by
  unfold path at h
  dsimp only at h
  split at h
  · cases h
  · next hopening =>
    split at h
    · cases h
    · next first after hident =>
      obtain ⟨hfirst, hstart, -⟩ := ident?_eq_some hident
      cases hsegments : segments after.length after with
      | mk others found =>
          obtain ⟨rest, dangling⟩ := found
          obtain ⟨hafter, hothers⟩ := segments_sound hsegments
          simp only [hsegments] at h
          split at h
          · cases h
          · split at h
            · next hclosing =>
              split at h
              · next hempty =>
                cases h
                obtain ⟨left, hleft⟩ := skipSpaces_sound (text.drop 2)
                obtain ⟨right, hright⟩ := skipSpaces_sound rest
                have htail : skipSpaces rest = closing := by
                  have hsplit := drop_of_isPrefixOf hclosing
                  rwa [show closing.length = 2 from rfl, List.isEmpty_iff.mp hempty,
                    List.append_nil] at hsplit
                refine ⟨List.cons_ne_nil _ _, List.forall_mem_cons.mpr ⟨hfirst, hothers⟩,
                  left, right, ?_⟩
                calc
                  text = opening ++ text.drop 2 := drop_of_isPrefixOf hopening
                  _ = opening ++ (List.replicate left ' ' ++ (first ++
                      (dottedRest others ++ (List.replicate right ' ' ++ closing)))) := by
                    rw [← htail, ← hright, ← hafter, ← hstart, ← hleft]
                  _ = written left right (first :: others) := by
                    simp only [written, dotted_cons, List.append_assoc]
              · cases h
            · cases h

@[simp] theorem isPrefixOf_opening (rest : List Char) : opening.isPrefixOf (opening ++ rest) = true := by
  rw [List.isPrefixOf_iff_prefix]
  exact List.prefix_append _ _

/-- Behind the opening mark, spaces and a path that does not go on, the closing mark decides. -/
theorem path_dotted (left : Nat) {names : List (List Char)} {rest : List Char} (hne : names ≠ [])
    (hnames : ∀ name ∈ names, IsIdentifier name) (hdot : Stops isDot rest)
    (hrest : Stops isIdentRest rest) :
    path (opening ++ (List.replicate left ' ' ++ (dotted names ++ rest))) =
      if closing.isPrefixOf (skipSpaces rest) then
        if ((skipSpaces rest).drop 2).isEmpty then .ok names
        else .error (byteLength (opening ++ (List.replicate left ' ' ++ (dotted names ++ rest))) -
          byteLength ((skipSpaces rest).drop 2))
      else .error 0 := by
  cases names with
  | nil => exact absurd rfl hne
  | cons first others =>
      obtain ⟨hfirst, hothers⟩ := List.forall_mem_cons.mp hnames
      -- The text that is left over after the first identifier.
      let after := dottedRest others ++ rest
      have hafter : Stops isIdentRest after := stops_dottedRest others hrest
      have hstart : skipSpaces (List.replicate left ' ' ++ (first ++ after)) = first ++ after :=
        skipSpaces_replicate left (hfirst.stops_space after)
      have hsegments : segments after.length after = (others, rest, false) :=
        segments_dottedRest (length_le_length_dottedRest others rest) hothers hdot hrest
      have hdotted : dotted (first :: others) ++ rest = first ++ after := by
        rw [dotted_cons, List.append_assoc]
      have hdrop : ∀ tail, (opening ++ tail).drop 2 = tail := fun _ => rfl
      rw [hdotted, path, isPrefixOf_opening]
      simp only [hdrop, hstart, ident?_append hfirst hafter, hsegments, Bool.false_eq_true,
        if_false]

/-- Every template is read as its identifiers. -/
theorem path_written (left right : Nat) {names : List (List Char)} (hne : names ≠ [])
    (hnames : ∀ name ∈ names, IsIdentifier name) : path (written left right names) = .ok names := by
  have htext : written left right names = opening ++ (List.replicate left ' ' ++
      (dotted names ++ (List.replicate right ' ' ++ (closing ++ [])))) := by
    simp only [written, List.append_assoc, List.append_nil]
  have hrest := stops_closing right []
  rw [htext, path_dotted left hne hnames hrest.1 hrest.2, skipSpaces_closing]
  rfl

/-! ## Strings of rules -/

theorem parse_eq_literal_iff {raw : String} {value : Json} :
    parse raw = .ok (.literal value) ↔ ¬ Marked raw.toList ∧ value = .string raw := by
  rw [← isLike_iff, parse]
  cases isLike raw with
  | false => simp [eq_comm]
  | true =>
      simp only [Bool.not_true, Bool.false_eq_true, if_false, not_true_eq_false, false_and,
        iff_false]
      intro h
      split at h
      · cases h
      · split at h <;> cases h
      · cases h

theorem isIdentifier_principalNamespace : IsIdentifier principalNamespace.toList := by
  change IsIdentifier ['u', 's', 'e', 'r']
  refine ⟨by decide, ?_⟩
  rw [List.forall_mem_cons, List.forall_mem_cons, List.forall_mem_singleton]
  exact ⟨by decide, by decide, by decide⟩

theorem isIdentifier_of_mem_attributePath {name : List Char} (h : IsIdentifier name) :
    ∀ part ∈ [principalNamespace.toList, name], IsIdentifier part := by
  rw [List.forall_mem_cons, List.forall_mem_singleton]
  exact ⟨isIdentifier_principalNamespace, h⟩

theorem parse_eq_template_iff {raw name : String} :
    parse raw = .ok (.template ⟨name⟩) ↔ RefersTo raw name := by
  constructor
  · intro h
    rw [parse] at h
    split at h
    · cases h
    · split at h
      · cases h
      · next scope chars hpath =>
        split at h
        · next hscope =>
          subst hscope
          cases h
          obtain ⟨-, hnames, left, right, htext⟩ := path_sound hpath
          refine ⟨?_, left, right, ?_⟩
          · rw [String.toList_ofList]
            exact hnames chars (by simp)
          · rw [String.toList_ofList]
            exact htext
        · cases h
      · cases h
  · rintro ⟨hname, left, right, htext⟩
    have hmarked : isLike raw = true := by
      rw [isLike_iff, htext]
      exact marked_written left right _
    have hpath : path raw.toList = .ok [principalNamespace.toList, name.toList] := by
      rw [htext]
      exact path_written left right (List.cons_ne_nil _ _) (isIdentifier_of_mem_attributePath hname)
    simp [parse, hmarked, hpath]

/-- A string refers to one attribute only. -/
theorem RefersTo.unique {raw name other : String} (h : RefersTo raw name)
    (hother : RefersTo raw other) : name = other := by
  have heq := (parse_eq_template_iff.mpr h).symm.trans (parse_eq_template_iff.mpr hother)
  cases heq
  rfl

theorem RefersTo.marked {raw name : String} (h : RefersTo raw name) : Marked raw.toList := by
  obtain ⟨-, left, right, htext⟩ := h
  rw [htext]
  exact marked_written left right _

end Template

theorem refersTo_display {name : String} (h : Template.IsIdentifier name.toList) :
    Template.RefersTo (TemplateRef.display ⟨name⟩) name := by
  refine ⟨h, 0, 0, ?_⟩
  simp [TemplateRef.display, TemplateRef.path, Template.written, Template.dotted,
    Template.opening, Template.closing]

namespace Namespace

variable {scope : Namespace} {raw : String}

theorem resolve_eq_literal_iff {value : Json} :
    scope.resolve raw = .ok (.literal value) ↔
      ¬ Template.Marked raw.toList ∧ value = .string raw := by
  rw [← Template.parse_eq_literal_iff, resolve]
  split
  · next ref hparse =>
    rw [hparse]
    split <;> simp
  · rfl

theorem resolve_eq_template_iff {name : String} :
    scope.resolve raw = .ok (.template ⟨name⟩) ↔
      Template.RefersTo raw name ∧ scope.contains name = true := by
  rw [← Template.parse_eq_template_iff, resolve]
  split
  · next ref hparse =>
    rw [hparse]
    constructor
    · intro h
      split at h
      · next hknown =>
        cases h
        exact ⟨rfl, hknown⟩
      · cases h
    · rintro ⟨heq, hknown⟩
      cases heq
      rw [if_pos hknown]
  · next hother =>
    constructor
    · intro h
      exact (hother _ h).elim
    · rintro ⟨h, -⟩
      exact (hother _ h).elim

end Namespace

end RowPolicy
