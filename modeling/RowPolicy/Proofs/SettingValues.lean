import RowPolicy.Proofs.NameLists
import RowPolicy.Proofs.Outcomes
import RowPolicy.Proofs.TokenText
import RowPolicy.Settings.Loading

/-!
# Single settings and their variables

Each of the environment variables is about one setting, and its text says the value: a count, a
truth value, a list of names or just a text. Overriding a setting by its variable gives it that
value and leaves all others alone; it fails when the text says none.
-/

namespace RowPolicy

/-! ## Single settings -/

def Variable.Value : Variable → Type
  | .schemaDirectory => String
  | .pollSeconds => UInt64
  | .attributes => List String
  | .trace => Bool
  | .logLevel => String
  | .logFormat => String
  | .logOutput => String
  | .logDirectory => String

@[simp] theorem Variable.mem_all (name : Variable) : name ∈ Variable.all := by
  cases name <;> decide

namespace Settings

def get (settings : Settings) : (name : Variable) → name.Value
  | .schemaDirectory => settings.schemas.directory
  | .pollSeconds => settings.schemas.pollSeconds
  | .attributes => settings.principal.attributes
  | .trace => settings.evaluation.trace
  | .logLevel => settings.logging.level
  | .logFormat => settings.logging.format
  | .logOutput => settings.logging.output
  | .logDirectory => settings.logging.directory

/-- Settings are determined by what the variables override. -/
theorem ext_get {settings settings' : Settings}
    (h : ∀ name, settings.get name = settings'.get name) : settings = settings' := by
  obtain ⟨⟨directory, pollSeconds⟩, ⟨attributes⟩, ⟨trace⟩, ⟨level, format, output, logDirectory⟩⟩ :=
    settings
  obtain ⟨⟨directory', pollSeconds'⟩, ⟨attributes'⟩, ⟨trace'⟩,
    ⟨level', format', output', logDirectory'⟩⟩ := settings'
  obtain rfl : directory = directory' := h .schemaDirectory
  obtain rfl : pollSeconds = pollSeconds' := h .pollSeconds
  obtain rfl : attributes = attributes' := h .attributes
  obtain rfl : trace = trace' := h .trace
  obtain rfl : level = level' := h .logLevel
  obtain rfl : format = format' := h .logFormat
  obtain rfl : output = output' := h .logOutput
  obtain rfl : logDirectory = logDirectory' := h .logDirectory
  rfl

/-- A text spells a count: decimal digits, before which a plus sign may stand. -/
def SpellsCount (text : String) (count : Nat) : Prop :=
  ∃ sign digits, text.toList = sign ++ digits ∧ (sign = [] ∨ sign = ['+']) ∧ digits ≠ [] ∧
    (∀ c ∈ digits, c.isDigit = true) ∧ Nat.ofDigitChars 10 digits 0 = count

def switchWords : Bool → List String
  | true => ["1", "true", "yes", "on"]
  | false => ["0", "false", "no", "off", ""]

/-- A text is a word for a truth value, in any case of its letters. -/
def SpellsSwitch (text : String) (value : Bool) : Prop :=
  String.ofList (text.toList.map Char.toLower) ∈ switchWords value

end Settings

def Variable.Says : (name : Variable) → String → name.Value → Prop
  | .pollSeconds, text, count => Settings.SpellsCount text (UInt64.toNat count)
  | .trace, text, value => Settings.SpellsSwitch text value
  | .attributes, text, list => Settings.Lists text list
  | .schemaDirectory, text, value => value = text
  | .logLevel, text, value => value = text
  | .logFormat, text, value => value = text
  | .logOutput, text, value => value = text
  | .logDirectory, text, value => value = text

namespace Settings

/-- The digits of a text, after a plus sign if there is one. -/
def unsigned : List Char → List Char
  | '+' :: rest => rest
  | text => text

theorem exists_sign (text : List Char) :
    ∃ sign, text = sign ++ unsigned text ∧ (sign = [] ∨ sign = ['+']) := by
  unfold unsigned
  split
  · exact ⟨['+'], rfl, Or.inr rfl⟩
  · exact ⟨[], rfl, Or.inl rfl⟩

theorem unsigned_append {sign digits : List Char} (hsign : sign = [] ∨ sign = ['+'])
    (hdigits : ∀ c ∈ digits, c.isDigit = true) : unsigned (sign ++ digits) = digits := by
  rcases hsign with rfl | rfl
  · unfold unsigned
    split
    · next heq =>
      rw [List.nil_append] at heq
      exact absurd (hdigits '+' (heq ▸ List.mem_cons_self)) (by decide)
    · rfl
  · rfl

theorem seconds?_eq (text : String) : seconds? text =
    if (unsigned text.toList).isEmpty || !(unsigned text.toList).all Char.isDigit then none
    else if Json.digitsValue (unsigned text.toList) < 0x10000000000000000 then
      some (UInt64.ofNat (Json.digitsValue (unsigned text.toList)))
    else none := by
  rfl

theorem seconds?_eq_some_iff {text : String} {count : UInt64} :
    seconds? text = some count ↔ SpellsCount text count.toNat := by
  rw [seconds?_eq]
  constructor
  · intro h
    obtain ⟨sign, htext, hsign⟩ := exists_sign text.toList
    split at h
    · cases h
    · next hspelled =>
      split at h
      · next hfits =>
        cases h
        rw [Bool.or_eq_true, not_or, Bool.not_eq_true', Bool.not_eq_false, List.all_eq_true,
          List.isEmpty_iff] at hspelled
        refine ⟨sign, _, htext, hsign, hspelled.1, hspelled.2, ?_⟩
        rw [← Json.digitsValue_eq_ofDigitChars, UInt64.toNat_ofNat_of_lt' hfits]
      · cases h
  · rintro ⟨sign, digits, htext, hsign, hne, hdigits, hcount⟩
    have hall : digits.all Char.isDigit = true := List.all_eq_true.mpr hdigits
    have hempty : digits.isEmpty = false := by simpa using hne
    rw [htext, unsigned_append hsign hdigits, hall, hempty, Json.digitsValue_eq_ofDigitChars,
      hcount, if_neg (by decide), if_pos count.toNat_lt, UInt64.ofNat_toNat]

theorem switch?_eq_some_iff {text : String} {value : Bool} :
    switch? text = some value ↔ SpellsSwitch text value := by
  have hdisjoint : ∀ word ∈ switchWords true, word ∉ switchWords false := by decide
  have hcases : switch? text = if asciiLower text ∈ switchWords true then some true
      else if asciiLower text ∈ switchWords false then some false else none := by
    simp only [switch?, List.contains_iff_mem, switchWords]
    rfl
  rw [hcases, SpellsSwitch, ← asciiLower]
  by_cases htrue : asciiLower text ∈ switchWords true
  · rw [if_pos htrue]
    cases value with
    | true => simpa using htrue
    | false => simpa using hdisjoint _ htrue
  · rw [if_neg htrue]
    cases value with
    | true => simpa using htrue
    | false => simp

end Settings

/-! ## Single overrides -/

def Variable.read? : (name : Variable) → String → Option name.Value
  | .pollSeconds, text => Settings.seconds? text
  | .trace, text => Settings.switch? text
  | .attributes, text => some (Settings.names text)
  | .schemaDirectory, text => some text
  | .logLevel, text => some text
  | .logFormat, text => some text
  | .logOutput, text => some text
  | .logDirectory, text => some text

theorem Variable.read?_eq_some_iff {name : Variable} {text : String} {value : name.Value} :
    name.read? text = some value ↔ name.Says text value := by
  cases name with
  | pollSeconds => exact Settings.seconds?_eq_some_iff
  | trace => exact Settings.switch?_eq_some_iff
  | attributes => exact Option.some_inj.trans Settings.names_eq_iff
  | _ => exact Option.some_inj.trans eq_comm

namespace Settings

def set (settings : Settings) : (name : Variable) → name.Value → Settings
  | .schemaDirectory, directory => { settings with schemas.directory := directory }
  | .pollSeconds, pollSeconds => { settings with schemas.pollSeconds := pollSeconds }
  | .attributes, attributes => { settings with principal.attributes := attributes }
  | .trace, trace => { settings with evaluation.trace := trace }
  | .logLevel, level => { settings with logging.level := level }
  | .logFormat, format => { settings with logging.format := format }
  | .logOutput, output => { settings with logging.output := output }
  | .logDirectory, directory => { settings with logging.directory := directory }

variable {settings after : Settings} {name : Variable} {text : String}

@[simp] theorem get_set_self (settings : Settings) (name : Variable) (value : name.Value) :
    (settings.set name value).get name = value := by
  cases name <;> rfl

theorem get_set_of_ne (settings : Settings) {name other : Variable} (value : name.Value)
    (h : other ≠ name) : (settings.set name value).get other = settings.get other := by
  cases name <;> cases other <;> first | rfl | exact absurd rfl h

theorem set_eq_iff {value : name.Value} : settings.set name value = after ↔
    after.get name = value ∧ ∀ other, other ≠ name → after.get other = settings.get other := by
  constructor
  · rintro rfl
    exact ⟨settings.get_set_self name value, fun _ => settings.get_set_of_ne value⟩
  · rintro ⟨rfl, hothers⟩
    apply ext_get
    intro other
    by_cases heq : other = name
    · subst heq
      exact settings.get_set_self _ _
    · rw [settings.get_set_of_ne _ heq, hothers other heq]

theorem override_of_read? {value : name.Value} (h : name.read? text = some value) :
    settings.override name text = .ok (settings.set name value) := by
  cases name with
  | pollSeconds =>
      have hseconds : seconds? text = some value := h
      simp only [override, hseconds]
      rfl
  | trace =>
      have hswitch : switch? text = some value := h
      simp only [override, hswitch]
      rfl
  | _ =>
      cases h
      rfl

theorem override_of_read?_none (h : name.read? text = none) :
    settings.override name text = .error ⟨name, text⟩ := by
  cases name with
  | pollSeconds =>
      have hseconds : seconds? text = none := h
      simp only [override, hseconds]
  | trace =>
      have hswitch : switch? text = none := h
      simp only [override, hswitch]
  | _ => cases h

/-- Overriding a setting gives it the value that the text says, and leaves the others alone. -/
theorem override_eq_ok_iff : settings.override name text = .ok after ↔
    name.Says text (after.get name) ∧
      ∀ other, other ≠ name → after.get other = settings.get other := by
  rw [← Variable.read?_eq_some_iff]
  cases hread : name.read? text with
  | none => simp [override_of_read?_none hread]
  | some value =>
      rw [override_of_read? hread, Except.ok.injEq, set_eq_iff, Option.some_inj]
      exact and_congr_left' eq_comm

theorem override_eq_error_iff {error : InvalidVariable} :
    settings.override name text = .error error ↔
      (∀ value, ¬ name.Says text value) ∧ error = ⟨name, text⟩ := by
  simp only [← Variable.read?_eq_some_iff]
  cases hread : name.read? text with
  | none => simp [override_of_read?_none hread, eq_comm]
  | some value => simp [override_of_read? hread]

end Settings

end RowPolicy
