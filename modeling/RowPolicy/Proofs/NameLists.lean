import RowPolicy.Proofs.TextSpan
import RowPolicy.Settings.Basic

/-!
# Lists of names in one text

Names are listed in a text by commas between them. White space around a name and items that hold
nothing else do not count, so that a list may be written in many ways; every text lists exactly one.
-/

namespace RowPolicy

namespace Text

/-! ## White space -/

/-- A text that neither begins nor ends with white space. -/
def Trimmed (text : List Char) : Prop := Stops isBlank text ∧ Stops isBlank text.reverse

theorem Stops.of_append {p : Char → Bool} {text rest : List Char} (h : Stops p (text ++ rest)) :
    Stops p text := by
  cases text with
  | nil => exact stops_nil
  | cons c text => exact h

theorem exists_blank_append_trimStart (text : List Char) :
    ∃ left, text = left ++ trimStart text ∧ ∀ c ∈ left, isBlank c = true :=
  ⟨text.takeWhile isBlank, List.takeWhile_append_dropWhile.symm, fun _ => List.mem_takeWhile_imp⟩

/-- Trimming takes off nothing but white space, and all of it. -/
theorem trim_spec (text : List Char) :
    Trimmed (trim text) ∧ ∃ left right, text = left ++ (trim text ++ right) ∧
      (∀ c ∈ left, isBlank c = true) ∧ ∀ c ∈ right, isBlank c = true := by
  obtain ⟨left, hleft, hblank⟩ := exists_blank_append_trimStart text
  obtain ⟨right, hright, hblank'⟩ := exists_blank_append_trimStart (trimStart text).reverse
  have htrim : trim text = (trimStart (trimStart text).reverse).reverse := rfl
  have hstart : trimStart text = trim text ++ right.reverse := by
    rw [htrim, ← List.reverse_append, ← hright, List.reverse_reverse]
  refine ⟨⟨?_, ?_⟩, left, right.reverse, ?_, hblank, ?_⟩
  · have hstops : Stops isBlank (trimStart text) := stops_dropWhile text
    rw [hstart] at hstops
    exact hstops.of_append
  · rw [htrim, List.reverse_reverse]
    exact stops_dropWhile _
  · rw [← hstart]
    exact hleft
  · intro c hc
    exact hblank' c (List.mem_reverse.mp hc)

theorem trim_append {left name right : List Char} (hleft : ∀ c ∈ left, isBlank c = true)
    (hright : ∀ c ∈ right, isBlank c = true) (hname : Trimmed name) (hne : name ≠ []) :
    trim (left ++ (name ++ right)) = name := by
  have hstart : trimStart (left ++ (name ++ right)) = name ++ right := by
    apply dropWhile_append_of_stops hleft
    cases name with
    | nil => exact absurd rfl hne
    | cons c name => exact hname.1
  have hend : (right.reverse ++ name.reverse).dropWhile isBlank = name.reverse := by
    refine dropWhile_append_of_stops ?_ hname.2
    intro c hc
    exact hright c (List.mem_reverse.mp hc)
  rw [trim, hstart, trimEnd, List.reverse_append, hend, List.reverse_reverse]

theorem trim_of_blank {text : List Char} (h : ∀ c ∈ text, isBlank c = true) : trim text = [] := by
  have hstart : trimStart text = [] := by
    rw [trimStart, List.dropWhile_eq_nil_iff]
    exact h
  rw [trim, hstart]
  rfl

/-! ## Items between commas -/

theorem splitWhen_eq_splitOnP (p : Char → Bool) (text : List Char) :
    splitWhen p text = text.splitOnP p := by
  induction text with
  | nil => simp [splitWhen]
  | cons c rest ih =>
      rw [splitWhen, List.splitOnP_cons_eq_if_modifyHead, ih]
      cases hsplit : rest.splitOnP p with
      | nil => exact absurd hsplit (List.splitOnP_ne_nil p rest)
      | cons part parts => rfl

theorem splitWhen_comma (text : List Char) : splitWhen (· == ',') text = text.splitOn ',' := by
  rw [splitWhen_eq_splitOnP]
  rfl

theorem noComma_of_mem_splitOn {text item : List Char} (h : item ∈ text.splitOn ',') :
    ',' ∉ item := by
  induction text generalizing item with
  | nil =>
      rw [List.splitOn_nil, List.mem_singleton] at h
      rw [h]
      exact List.not_mem_nil
  | cons c rest ih =>
      rw [List.splitOn_cons_eq_if_modifyHead] at h
      split at h
      · rcases List.mem_cons.mp h with rfl | h
        · exact List.not_mem_nil
        · exact ih h
      · next hc =>
        cases hsplit : rest.splitOn ',' with
        | nil => exact absurd hsplit (List.splitOn_ne_nil ',' rest)
        | cons part parts =>
            rw [hsplit] at ih h
            rcases List.mem_cons.mp h with rfl | h
            · rw [List.mem_cons, not_or]
              exact ⟨fun heq => hc (beq_iff_eq.mpr heq.symm), ih List.mem_cons_self⟩
            · exact ih (List.mem_cons_of_mem _ h)

end Text

namespace Settings

open Text

structure IsListed (name : List Char) : Prop where
  ne_nil : name ≠ []
  noComma : ',' ∉ name
  trimmed : Trimmed name

/-- Names with the items that they are written as, among which some may be empty. -/
inductive WrittenAs : List (List Char) → List (List Char) → Prop
  | nil : WrittenAs [] []
  | empty {item : List Char} {names items : List (List Char)} (hitem : ∀ c ∈ item, isBlank c = true)
      (hrest : WrittenAs names items) : WrittenAs names (item :: items)
  | name {left name right : List Char} {names items : List (List Char)}
      (hleft : ∀ c ∈ left, isBlank c = true) (hright : ∀ c ∈ right, isBlank c = true)
      (hname : IsListed name) (hrest : WrittenAs names items) :
      WrittenAs (name :: names) ((left ++ (name ++ right)) :: items)

/-- A text lists names: between its commas stand the names, with white space around them, and
items that are empty but for white space. -/
def Lists (text : String) (list : List String) : Prop :=
  ∃ items, WrittenAs (list.map String.toList) items ∧ text.toList = [','].intercalate items

def namesOf (items : List (List Char)) : List (List Char) :=
  (items.map trim).filter fun name => !name.isEmpty

theorem namesOf_of_writtenAs {names items : List (List Char)} (h : WrittenAs names items) :
    namesOf items = names := by
  induction h with
  | nil => rfl
  | empty hitem hrest ih =>
      rw [namesOf, List.map_cons, trim_of_blank hitem]
      exact ih
  | name hleft hright hname hrest ih =>
      rw [namesOf, List.map_cons, trim_append hleft hright hname.trimmed hname.ne_nil,
        List.filter_cons_of_pos (by simpa using hname.ne_nil)]
      exact congrArg _ ih

theorem writtenAs_namesOf {items : List (List Char)} (h : ∀ item ∈ items, ',' ∉ item) :
    WrittenAs (namesOf items) items := by
  induction items with
  | nil => exact .nil
  | cons item items ih =>
      obtain ⟨hitem, hitems⟩ := List.forall_mem_cons.mp h
      obtain ⟨htrimmed, left, right, heq, hleft, hright⟩ := trim_spec item
      by_cases hempty : trim item = []
      · have hnames : namesOf (item :: items) = namesOf items := by simp [namesOf, hempty]
        rw [hnames]
        refine .empty ?_ (ih hitems)
        rw [heq, hempty, List.nil_append, List.forall_mem_append]
        exact ⟨hleft, hright⟩
      · have hnames : namesOf (item :: items) = trim item :: namesOf items := by
          simp [namesOf, hempty]
        have hlisted : IsListed (trim item) := by
          refine ⟨hempty, ?_, htrimmed⟩
          intro hcomma
          apply hitem
          rw [heq]
          exact List.mem_append_right _ (List.mem_append_left _ hcomma)
        have hwritten := WrittenAs.name hleft hright hlisted (ih hitems)
        rw [hnames]
        rwa [← heq] at hwritten

theorem noComma_of_blank {text : List Char} (h : ∀ c ∈ text, isBlank c = true) : ',' ∉ text :=
  fun hcomma => absurd (h _ hcomma) (by decide)

theorem WrittenAs.noComma {names items : List (List Char)} (h : WrittenAs names items) :
    ∀ item ∈ items, ',' ∉ item := by
  induction h with
  | nil => exact List.forall_mem_nil _
  | empty hitem hrest ih => exact List.forall_mem_cons.mpr ⟨noComma_of_blank hitem, ih⟩
  | name hleft hright hname hrest ih =>
      refine List.forall_mem_cons.mpr ⟨?_, ih⟩
      simp only [List.mem_append, not_or]
      exact ⟨noComma_of_blank hleft, hname.noComma, noComma_of_blank hright⟩

theorem names_eq (text : String) :
    names text = (namesOf (text.toList.splitOn ',')).map String.ofList := by
  rw [names, splitWhen_comma]
  rfl

/-- Every text lists the names that are read from it, and no others. -/
theorem names_eq_iff {text : String} {list : List String} :
    names text = list ↔ Lists text list := by
  rw [names_eq]
  constructor
  · rintro rfl
    refine ⟨text.toList.splitOn ',', ?_, (List.intercalate_splitOn ',').symm⟩
    have hlist : ∀ names : List (List Char),
        (names.map String.ofList).map String.toList = names := by
      intro names
      simp
    rw [hlist]
    exact writtenAs_namesOf fun item => noComma_of_mem_splitOn
  · rintro ⟨items, hwritten, htext⟩
    have hnames : namesOf (text.toList.splitOn ',') = list.map String.toList := by
      rw [← namesOf_of_writtenAs hwritten, htext]
      cases items with
      | nil => rfl
      | cons item items =>
          rw [List.splitOn_intercalate ',' hwritten.noComma (List.cons_ne_nil _ _)]
    rw [hnames, List.map_map]
    simp

end Settings

end RowPolicy
