import RowPolicy.Proofs.Denotation

/-!
# More is known, more is allowed

Rules have no negation, and a condition holds only of values that are there. What is allowed on some
attributes and fields is therefore allowed on more of them. Leaving out attributes, fields or the
whole record can only turn an allow into a deny, and a rule that allows without any record allows
every record.
-/

namespace RowPolicy

/-- Each entry of the first dictionary is an entry of the second. -/
def Dict.Within {α : Type} (a b : Dict α) : Prop :=
  ∀ key value, a.get? key = some value → b.get? key = some value

theorem Dict.filter_within {α : Type} (dict : Dict α) (keep : String → α → Bool) :
    (dict.filter keep).Within dict := by
  intro key value h
  exact (get?_filter_eq_some_iff.mp h).1

theorem Dict.within_insert {α : Type} {dict : Dict α} {key : String} {value : α}
    (h : dict.get? key = none) : dict.Within (dict.insert key value) := by
  intro k v hentry
  rw [get?_insert]
  split
  · next heq =>
    rw [heq, h] at hentry
    cases hentry
  · exact hentry

def Principal.Within (a b : Principal) : Prop := a.attributes.Within b.attributes

def Principal.keeping (principal : Principal) (keep : String → Json → Bool) : Principal :=
  ⟨principal.attributes.filter keep⟩

namespace Record

def keeping (record : Record) (keep : String → Json → Bool) : Record := ⟨record.fields.filter keep⟩

/-- No record is less than any record, and than none. -/
def Within : Option Record → Option Record → Prop
  | none, _ => True
  | some _, none => False
  | some row, some row' => row.fields.Within row'.fields

theorem none_within (record : Option Record) : Within none record := trivial

theorem Within.exists_eq_some {row : Record} {record : Option Record}
    (h : Within (some row) record) : ∃ row', record = some row' ∧ row.fields.Within row'.fields := by
  cases record with
  | none => cases h
  | some row' => exact ⟨row', rfl, h⟩

end Record

variable {principal principal' : Principal} {record record' : Option Record}

theorem ValueSource.resolve?_of_within {source : ValueSource} {value : Json}
    (hprincipal : principal.Within principal') (h : source.resolve? principal = some value) :
    source.resolve? principal' = some value := by
  cases source with
  | literal expected => exact h
  | template ref => exact hprincipal ref.name value h

theorem Condition.holds_of_within {condition : Condition} (hprincipal : principal.Within principal')
    (hrecord : Record.Within record record') (h : condition.holds principal record = true) :
    condition.holds principal' record' = true := by
  cases condition with
  | fieldEquals field source =>
      rw [holds_fieldEquals_iff] at h ⊢
      obtain ⟨row, actual, expected, rfl, hactual, hexpected, hequal⟩ := h
      obtain ⟨row', rfl, hfields⟩ := hrecord.exists_eq_some
      have hactual' : row'.get? field = some actual := hfields field actual hactual
      have hexpected' := source.resolve?_of_within hprincipal hexpected
      exact ⟨row', actual, expected, rfl, hactual', hexpected', hequal⟩
  | attributeMatch attributes =>
      rw [holds_attributeMatch_iff] at h ⊢
      obtain ⟨hne, hmatch⟩ := h
      refine ⟨hne, ?_⟩
      intro name expected hentry
      obtain ⟨actual, hactual, hequal⟩ := hmatch name expected hentry
      have hactual' : principal'.get? name = some actual := hprincipal name actual hactual
      exact ⟨actual, hactual', hequal⟩

theorem Connective.join_of_imp (connective : Connective) {rules : List Rule} {p q : Rule → Bool}
    (himp : ∀ rule ∈ rules, p rule = true → q rule = true)
    (h : connective.join (rules.map p) = true) : connective.join (rules.map q) = true := by
  cases connective with
  | any =>
      simp only [join, List.any_map, List.any_eq_true] at h ⊢
      obtain ⟨rule, hrule, hp⟩ := h
      exact ⟨rule, hrule, himp rule hrule hp⟩
  | all =>
      simp only [join, List.all_map, List.all_eq_true] at h ⊢
      intro rule hrule
      exact himp rule hrule (h rule hrule)

theorem Rule.evaluate_of_within {rule : Rule} (hprincipal : principal.Within principal')
    (hrecord : Record.Within record record') (h : rule.evaluate principal record = true) :
    rule.evaluate principal' record' = true := by
  induction rule with
  | unrestricted => rfl
  | composite connective rules ih =>
      rw [evaluate_composite] at h ⊢
      exact connective.join_of_imp ih h
  | leaf condition => exact condition.holds_of_within hprincipal hrecord h

/-- A rule that allows goes on allowing when more becomes known. A rule that denies goes on denying when
attributes, fields or the record are left out. A policy that allows without a record filters no record
out. -/
theorem access_monotone :
    (∀ (rule : Rule) (principal principal' : Principal) (record record' : Option Record),
      principal.Within principal' → Record.Within record record' →
      rule.evaluate principal record = true → rule.evaluate principal' record' = true) ∧
    (∀ (rule : Rule) (principal : Principal) (record : Option Record)
        (keep keep' : String → Json → Bool), rule.evaluate principal record = false →
      rule.evaluate (principal.keeping keep) (record.map (·.keeping keep')) = false ∧
        rule.evaluate (principal.keeping keep) none = false) ∧
    ∀ (set : PolicySet) (operation : Operation) (principal : Principal) (records : List Record),
      (set.decide operation principal none).allow = true →
      set.filter operation principal records = records := by
  refine ⟨?more, ?less, ?rows⟩
  case more =>
    intro rule principal principal' record record' hprincipal hrecord h
    exact rule.evaluate_of_within hprincipal hrecord h
  case less =>
    intro rule principal record keep keep' hdeny
    have hprincipal : (principal.keeping keep).Within principal :=
      principal.attributes.filter_within keep
    -- What allows on less would allow on more, where the rule denies.
    have hless : ∀ less, Record.Within less record →
        rule.evaluate (principal.keeping keep) less = false := by
      intro less hrecord
      rw [← Bool.not_eq_true] at hdeny ⊢
      exact mt (rule.evaluate_of_within hprincipal hrecord) hdeny
    refine ⟨hless _ ?_, hless none (Record.none_within record)⟩
    cases record with
    | none => exact Record.none_within none
    | some row => exact row.fields.filter_within keep'
  case rows =>
    intro set operation principal records h
    have hsame : principal.Within principal := fun _ _ hentry => hentry
    rw [PolicySet.filter, List.filter_eq_self]
    intro row _
    exact Rule.evaluate_of_within hsame (Record.none_within (some row)) h

theorem access_monotone_openRecord :
    author.Within (author.withAttribute "role" (.string "guest")) ∧
    Record.Within (some openRecord) (some (openRecord.withField "title" (.string "Notes"))) ∧
    adminOrOpenOwner.evaluate author (some openRecord) = true ∧
    adminOrOpenOwner.evaluate (author.withAttribute "role" (.string "guest"))
      (some (openRecord.withField "title" (.string "Notes"))) = true ∧
    adminOrOpenOwner.evaluate author (some Record.empty) = false ∧
    adminOrOpenOwner.evaluate (author.keeping fun name _ => name != "id") none = false ∧
    PolicySet.filter ⟨adminOrOpenOwner, .unrestricted⟩ .write author [openRecord, .empty] =
      [openRecord, .empty] := by
  obtain ⟨hmore, hless, hrows⟩ := access_monotone
  have hprincipal : author.Within (author.withAttribute "role" (.string "guest")) :=
    Dict.within_insert rfl
  have hrecord : Record.Within (some openRecord)
      (some (openRecord.withField "title" (.string "Notes"))) := Dict.within_insert rfl
  have hallow : adminOrOpenOwner.evaluate author (some openRecord) = true := by decide +kernel
  have hdeny : adminOrOpenOwner.evaluate author (some Record.empty) = false := by decide +kernel
  refine ⟨hprincipal, hrecord, hallow, ?_, hdeny, ?_, ?_⟩
  · exact hmore _ _ _ _ _ hprincipal hrecord hallow
  · exact (hless _ _ _ (fun name _ => name != "id") (fun _ _ => true) hdeny).2
  · exact hrows _ _ _ _ rfl

end RowPolicy
