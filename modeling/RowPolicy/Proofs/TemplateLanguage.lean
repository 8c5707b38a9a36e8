import RowPolicy.Proofs.TemplateSpacing

/-!
# The language of templates

Every string of a rule is one of four things, and reading tells which: a literal when it has neither
mark, a reference to an attribute of the principal, a template of another path, and malformed when a
mark is in it but no path between the two. The written form of a reference is read back exactly when
its attribute is an identifier.
-/

namespace RowPolicy

namespace Template

/-- Identifiers joined by single dots. -/
def IsPath (path : String) : Prop :=
  ∃ names, names ≠ [] ∧ (∀ name ∈ names, IsIdentifier name) ∧ path.toList = dotted names

def IsAttributePath (path : String) : Prop :=
  ∃ name : String, IsIdentifier name.toList ∧ path = "user." ++ name

/-- A text stands between the two marks, with some spaces on either side. -/
def Encloses (raw path : String) : Prop :=
  ∃ left right, raw.toList = opening ++ List.replicate left ' ' ++ path.toList ++
    List.replicate right ' ' ++ closing

/-! ## Paths -/

theorem toList_attributePath (name : String) :
    ("user." ++ name).toList = dotted [principalNamespace.toList, name.toList] := by
  simp [dotted, principalNamespace]

theorem dotted_injective {names names' : List (List Char)} (hne : names ≠ [])
    (hnames : ∀ name ∈ names, IsIdentifier name) (hne' : names' ≠ [])
    (hnames' : ∀ name ∈ names', IsIdentifier name) (h : dotted names = dotted names') :
    names = names' := by
  have hwritten : written 0 0 names = written 0 0 names' := by rw [written, written, h]
  exact written_injective hne hnames hne' hnames' hwritten

theorem refersTo_iff {raw name : String} :
    RefersTo raw name ↔ IsIdentifier name.toList ∧ Encloses raw ("user." ++ name) := by
  rw [RefersTo, Encloses, toList_attributePath]
  rfl

theorem IsAttributePath.isPath {path : String} (h : IsAttributePath path) : IsPath path := by
  obtain ⟨name, hname, rfl⟩ := h
  exact ⟨_, List.cons_ne_nil _ _, isIdentifier_of_mem_attributePath hname, toList_attributePath name⟩

theorem isAttributePath_iff {path : String} {names : List (List Char)} (hne : names ≠ [])
    (hnames : ∀ name ∈ names, IsIdentifier name) (hpath : path.toList = dotted names) :
    IsAttributePath path ↔ ∃ name, names = [principalNamespace.toList, name] := by
  constructor
  · rintro ⟨name, hname, rfl⟩
    refine ⟨name.toList, ?_⟩
    rw [toList_attributePath] at hpath
    exact (dotted_injective (List.cons_ne_nil _ _) (isIdentifier_of_mem_attributePath hname) hne hnames
      hpath).symm
  · rintro ⟨name, rfl⟩
    refine ⟨String.ofList name, ?_, ?_⟩
    · rw [String.toList_ofList]
      exact hnames name (by simp)
    · apply String.toList_injective
      rw [toList_attributePath, String.toList_ofList, hpath]

theorem Encloses.exists_written {raw path : String} (h : Encloses raw path) (hpath : IsPath path) :
    ∃ names left right, names ≠ [] ∧ (∀ name ∈ names, IsIdentifier name) ∧
      path.toList = dotted names ∧ raw.toList = written left right names := by
  obtain ⟨names, hne, hnames, hdotted⟩ := hpath
  obtain ⟨left, right, htext⟩ := h
  rw [hdotted] at htext
  exact ⟨names, left, right, hne, hnames, hdotted, htext⟩

/-- A text has one path between its marks. -/
theorem Encloses.unique {raw path path' : String} (h : Encloses raw path) (hpath : IsPath path)
    (h' : Encloses raw path') (hpath' : IsPath path') : path = path' := by
  obtain ⟨names, _, _, hne, hnames, hdotted, htext⟩ := h.exists_written hpath
  obtain ⟨names', _, _, hne', hnames', hdotted', htext'⟩ := h'.exists_written hpath'
  have heq := written_injective hne hnames hne' hnames' (htext.symm.trans htext')
  apply String.toList_injective
  rw [hdotted, hdotted', heq]

theorem Encloses.marked {raw path : String} (h : Encloses raw path) (hpath : IsPath path) :
    Marked raw.toList := by
  obtain ⟨names, left, right, -, -, -, htext⟩ := h.exists_written hpath
  rw [htext]
  exact marked_written left right names

/-! ## Reading -/

theorem parse_of_path_error {raw : String} {offset : Nat} (hmarked : Marked raw.toList)
    (hpath : path raw.toList = .error offset) : parse raw = .error (.malformed raw offset) := by
  have hlike := isLike_iff.mpr hmarked
  simp [parse, hlike, hpath]

theorem parse_of_path_ok {raw : String} {names : List (List Char)} (hmarked : Marked raw.toList)
    (hpath : path raw.toList = .ok names)
    (hother : ∀ name, names ≠ [principalNamespace.toList, name]) :
    parse raw = .error (.unknownReference (String.ofList (dotted names))) := by
  have hlike := isLike_iff.mpr hmarked
  simp only [parse, hlike, hpath, Bool.not_true, Bool.false_eq_true, if_false]
  split
  · next heq => cases heq
  · next scope name heq =>
    cases heq
    rw [if_neg]
    rintro rfl
    exact hother name rfl
  · next heq =>
    cases heq
    rfl

/-- What reading makes of a string, with the texts of which it makes it. -/
theorem parse_cases (raw : String) :
    (¬ Marked raw.toList ∧ parse raw = .ok (.literal (.string raw))) ∨
      (∃ name, RefersTo raw name ∧ parse raw = .ok (.template ⟨name⟩)) ∨
      (∃ path, (IsPath path ∧ ¬ IsAttributePath path ∧ Encloses raw path) ∧
        parse raw = .error (.unknownReference path)) ∨
      (Marked raw.toList ∧ ∀ path, IsPath path → ¬ Encloses raw path) ∧
        ∃ offset, parse raw = .error (.malformed raw offset) := by
  by_cases hmarked : Marked raw.toList
  · right
    cases hpath : path raw.toList with
    | error offset =>
        refine Or.inr (Or.inr ⟨⟨hmarked, ?_⟩, offset, parse_of_path_error hmarked hpath⟩)
        intro other hother hencloses
        -- Every path between the marks is read, whatever the spaces around it.
        obtain ⟨names, left, right, hne, hnames, -, htext⟩ := hencloses.exists_written hother
        rw [htext, path_written left right hne hnames] at hpath
        cases hpath
    | ok names =>
        obtain ⟨hne, hnames, left, right, htext⟩ := path_sound hpath
        by_cases hattribute : ∃ name, names = [principalNamespace.toList, name]
        · obtain ⟨name, rfl⟩ := hattribute
          have hrefers : RefersTo raw (String.ofList name) := by
            refine ⟨?_, left, right, ?_⟩
            · rw [String.toList_ofList]
              exact hnames name (by simp)
            · rw [String.toList_ofList]
              exact htext
          exact Or.inl ⟨_, hrefers, parse_eq_template_iff.mpr hrefers⟩
        · have hdotted : (String.ofList (dotted names)).toList = dotted names :=
            String.toList_ofList
          refine Or.inr (Or.inl ⟨_, ⟨⟨names, hne, hnames, hdotted⟩, ?_, left, right, ?_⟩, ?_⟩)
          · rwa [isAttributePath_iff hne hnames hdotted]
          · rw [hdotted]
            exact htext
          · exact parse_of_path_ok hmarked hpath (not_exists.mp hattribute)
  · exact Or.inl ⟨hmarked, parse_eq_literal_iff.mpr ⟨hmarked, rfl⟩⟩

theorem parse_eq_unknownReference_iff {raw path : String} :
    parse raw = .error (.unknownReference path) ↔
      IsPath path ∧ ¬ IsAttributePath path ∧ Encloses raw path := by
  rcases parse_cases raw with ⟨hmarked, hparse⟩ | ⟨name, hrefers, hparse⟩ |
    ⟨path', hpath', hparse⟩ | ⟨⟨-, hnone⟩, offset, hparse⟩
  · rw [hparse]
    refine iff_of_false nofun ?_
    rintro ⟨hpath, -, hencloses⟩
    exact hmarked (hencloses.marked hpath)
  · rw [hparse]
    refine iff_of_false nofun ?_
    rintro ⟨hpath, hother, hencloses⟩
    obtain ⟨hname, hattribute⟩ := refersTo_iff.mp hrefers
    have hreference : IsAttributePath ("user." ++ name) := ⟨name, hname, rfl⟩
    have heq := hencloses.unique hpath hattribute hreference.isPath
    exact hother (heq ▸ hreference)
  · rw [hparse, Except.error.injEq, TemplateError.unknownReference.injEq]
    constructor
    · rintro rfl
      exact hpath'
    · rintro ⟨hpath, -, hencloses⟩
      exact hpath'.2.2.unique hpath'.1 hencloses hpath
  · rw [hparse]
    refine iff_of_false nofun ?_
    rintro ⟨hpath, -, hencloses⟩
    exact hnone path hpath hencloses

theorem exists_parse_eq_malformed_iff {raw : String} :
    (∃ offset, parse raw = .error (.malformed raw offset)) ↔
      Marked raw.toList ∧ ∀ path, IsPath path → ¬ Encloses raw path := by
  rcases parse_cases raw with ⟨hmarked, hparse⟩ | ⟨name, hrefers, hparse⟩ |
    ⟨path, ⟨hpath, -, hencloses⟩, hparse⟩ | ⟨hnone, offset, hparse⟩
  · rw [hparse]
    exact iff_of_false nofun fun h => hmarked h.1
  · rw [hparse]
    refine iff_of_false nofun ?_
    rintro ⟨-, hnone⟩
    obtain ⟨hname, hattribute⟩ := refersTo_iff.mp hrefers
    exact hnone _ (IsAttributePath.isPath ⟨name, hname, rfl⟩) hattribute
  · rw [hparse]
    exact iff_of_false nofun fun h => h.2 path hpath hencloses
  · exact iff_of_true ⟨offset, hparse⟩ hnone

end Template

namespace Namespace

variable {scope : Namespace} {raw : String}

theorem resolve_of_unknown {name : String} (hparse : Template.parse raw = .ok (.template ⟨name⟩))
    (hname : name ∉ scope.names) :
    scope.resolve raw = .error (.unknownReference ("user." ++ name)) := by
  have hunknown : ¬ scope.contains name = true := mt List.contains_iff_mem.mp hname
  have hpath : TemplateRef.path ⟨name⟩ = "user." ++ name := rfl
  simp [resolve, hparse, hunknown, hpath]

theorem resolve_eq_parse
    (h : ∀ name, Template.parse raw = .ok (.template ⟨name⟩) → name ∈ scope.names) :
    scope.resolve raw = Template.parse raw := by
  rw [resolve]
  split
  · next ref hparse =>
    have hknown : scope.contains ref.name = true := List.contains_iff_mem.mpr (h ref.name hparse)
    rw [hparse, if_pos hknown]
  · rfl

end Namespace

/-- Reading tells the four kinds of strings apart, each by how it is written. A namespace refuses a
reference to an attribute outside of it by its path, and changes nothing else. The written form of a
reference is read back exactly when the attribute is an identifier. -/
theorem parse_reads_template_language (raw : String) :
    (Template.parse raw = .ok (.literal (.string raw)) ↔ ¬ Template.Marked raw.toList) ∧
    (∀ name : String, Template.parse raw = .ok (.template ⟨name⟩) ↔
      Template.IsIdentifier name.toList ∧ Template.Encloses raw ("user." ++ name)) ∧
    (∀ path, Template.parse raw = .error (.unknownReference path) ↔
      Template.IsPath path ∧ ¬ Template.IsAttributePath path ∧ Template.Encloses raw path) ∧
    ((∃ offset, Template.parse raw = .error (.malformed raw offset)) ↔
      Template.Marked raw.toList ∧
        ∀ path, Template.IsPath path → ¬ Template.Encloses raw path) ∧
    (∀ scope : Namespace,
      (∀ name, Template.parse raw = .ok (.template ⟨name⟩) → name ∉ scope.names →
        scope.resolve raw = .error (.unknownReference ("user." ++ name))) ∧
      ((∀ name, Template.parse raw = .ok (.template ⟨name⟩) → name ∈ scope.names) →
        scope.resolve raw = Template.parse raw)) ∧
    ∀ name : String, Template.parse (TemplateRef.display ⟨name⟩) = .ok (.template ⟨name⟩) ↔
      Template.IsIdentifier name.toList := by
  refine ⟨?literal, ?reference, ?unknown, ?malformed, ?resolved, ?displayed⟩
  case literal =>
    rw [Template.parse_eq_literal_iff]
    exact and_iff_left rfl
  case reference =>
    intro name
    rw [Template.parse_eq_template_iff, Template.refersTo_iff]
  case unknown => exact fun path => Template.parse_eq_unknownReference_iff
  case malformed => exact Template.exists_parse_eq_malformed_iff
  case resolved =>
    intro scope
    exact ⟨fun name => Namespace.resolve_of_unknown, Namespace.resolve_eq_parse⟩
  case displayed =>
    intro name
    rw [Template.parse_eq_template_iff]
    exact ⟨And.left, refersTo_display⟩

/-- A reference that is read, and that the standard namespace refuses. -/
theorem parse_reads_template_language_team :
    Template.parse "\x7b\x7b user.team \x7d\x7d" = .ok (.template ⟨"team"⟩) ∧
    Namespace.standard.resolve "\x7b\x7b user.team \x7d\x7d" =
      .error (.unknownReference "user.team") ∧
    (Namespace.standard.add "team").resolve "\x7b\x7b user.team \x7d\x7d" =
      .ok (.template ⟨"team"⟩) := by
  obtain ⟨-, -, -, -, hresolved, -⟩ :=
    parse_reads_template_language "\x7b\x7b user.team \x7d\x7d"
  have hparse : Template.parse "\x7b\x7b user.team \x7d\x7d" = .ok (.template ⟨"team"⟩) := rfl
  refine ⟨hparse, (hresolved .standard).1 "team" hparse (by decide), ?_⟩
  have hadded := (hresolved (Namespace.standard.add "team")).2
  rw [hadded, hparse]
  intro name hname
  rw [hparse] at hname
  cases hname
  decide

end RowPolicy
