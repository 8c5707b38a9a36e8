import RowPolicy.Proofs.TemplateLanguage

/-!
# Where a template goes wrong

A string with a mark that is no template is refused with a byte offset. The offset is zero when a
mark is missing: the opening one, or the closing one after the longest path. In all other cases the
text stops being the beginning of a template at the offset, because an identifier or the end of the
text had to stand there.
-/

namespace RowPolicy

namespace Template

open Text

def AreNames (names : List (List Char)) : Prop :=
  names ≠ [] ∧ ∀ name ∈ names, IsIdentifier name

/-- A text is the beginning of a template. -/
def Viable (text : List Char) : Prop :=
  ∃ left right names, AreNames names ∧ text <+: written left right names

structure LongestViable (start text : List Char) : Prop where
  isPrefix : start <+: text
  viable : Viable start
  longest : ∀ other, other <+: text → Viable other → other.length ≤ start.length

/-- No longer path stands at the front of a text than these names, which a rest follows. -/
def LongestPath (names : List (List Char)) (rest : List Char) : Prop :=
  ∀ names' rest', AreNames names' → dotted names' ++ rest' = dotted names ++ rest →
    (dotted names').length ≤ (dotted names).length

/-- A text does not open with its mark, or it does not close with its mark after the longest path,
and no dot goes on with the path. -/
def MissingMark (text : List Char) : Prop :=
  ¬ opening <+: text ∨
    ∃ left names rest, AreNames names ∧ LongestPath names rest ∧
      text = opening ++ (List.replicate left ' ' ++ (dotted names ++ rest)) ∧
      ¬ ['.'] <+: rest ∧ ∀ right, ¬ List.replicate right ' ' ++ closing <+: rest

/-- A text cannot go on as a template: what stands before that place, and what after it. -/
inductive Stuck : List Char → List Char → Prop
  /-- An identifier has to stand after the opening mark and all of its spaces. -/
  | first (left : Nat) {after : List Char} (hspaces : Stops (· == ' ') after)
      (hident : Stops isIdentStart after) : Stuck (opening ++ List.replicate left ' ') after
  /-- An identifier has to stand after a dot. -/
  | dot (left : Nat) {names : List (List Char)} {after : List Char} (hnames : AreNames names)
      (hident : Stops isIdentStart after) :
      Stuck (opening ++ (List.replicate left ' ' ++ (dotted names ++ ['.']))) after
  /-- The text has to end after a template. -/
  | trailing (left right : Nat) {names : List (List Char)} {after : List Char}
      (hnames : AreNames names) (hafter : after ≠ []) : Stuck (written left right names) after

/-! ## Bytes -/

@[simp] theorem byteLength_append (text rest : List Char) :
    byteLength (text ++ rest) = byteLength text + byteLength rest := by
  induction text with
  | nil => simp [byteLength]
  | cons c text ih => rw [List.cons_append, byteLength, byteLength, ih, Nat.add_assoc]

theorem byteLength_append_sub (text rest : List Char) :
    byteLength (text ++ rest) - byteLength rest = byteLength text := by
  rw [byteLength_append, Nat.add_sub_cancel]

theorem utf8ByteSize_ofList (text : List Char) :
    (String.ofList text).utf8ByteSize = byteLength text := by
  induction text with
  | nil => rfl
  | cons c text ih =>
      have hcons : String.ofList (c :: text) = String.singleton c ++ String.ofList text := by
        apply String.toList_injective
        simp
      rw [hcons, String.utf8ByteSize_append, ih, byteLength, String.utf8ByteSize_singleton]

/-! ## Identifiers and paths -/

theorem ident?_eq_none_iff {text : List Char} : ident? text = none ↔ Stops isIdentStart text := by
  cases text with
  | nil => simp [ident?]
  | cons c rest =>
      rw [ident?, stops_cons]
      cases isIdentStart c <;> simp

theorem isIdentRest_of_isIdentStart {c : Char} (h : isIdentStart c = true) :
    isIdentRest c = true := by
  simp only [isIdentStart, isIdentRest, Char.isAlphanum, Bool.or_eq_true] at h ⊢
  exact h.imp_left Or.inl

theorem IsIdentifier.isIdentRest {name : List Char} (h : IsIdentifier name) {c : Char}
    (hc : c ∈ name) : isIdentRest c = true := by
  cases name with
  | nil => cases hc
  | cons d rest =>
      rcases List.mem_cons.mp hc with rfl | hc
      · exact isIdentRest_of_isIdentStart h.1
      · exact h.2 c hc

theorem AreNames.exists_cons {names : List (List Char)} (h : AreNames names) :
    ∃ first others, names = first :: others ∧ IsIdentifier first ∧
      ∀ name ∈ others, IsIdentifier name := by
  obtain ⟨hne, hnames⟩ := h
  cases names with
  | nil => exact absurd rfl hne
  | cons first others => exact ⟨first, others, rfl, List.forall_mem_cons.mp hnames⟩

theorem areNames_cons {first : List Char} {others : List (List Char)} :
    AreNames (first :: others) ↔ IsIdentifier first ∧ ∀ name ∈ others, IsIdentifier name := by
  rw [AreNames, List.forall_mem_cons]
  exact and_iff_right (List.cons_ne_nil _ _)

/-- A path can take in one more character of its last identifier. -/
theorem exists_longer {names : List (List Char)} (hnames : AreNames names) {c : Char}
    (hc : isIdentRest c = true) :
    ∃ names', AreNames names' ∧ dotted names' = dotted names ++ [c] := by
  obtain ⟨first, others, rfl, hfirst, hothers⟩ := hnames.exists_cons
  clear hnames
  induction others generalizing first with
  | nil =>
      refine ⟨[first ++ [c]], areNames_cons.mpr ⟨?_, List.forall_mem_nil _⟩, rfl⟩
      cases first with
      | nil => exact hfirst.elim
      | cons d rest =>
          refine ⟨hfirst.1, ?_⟩
          change ∀ d ∈ rest ++ [c], isIdentRest d = true
          rw [List.forall_mem_append, List.forall_mem_singleton]
          exact ⟨hfirst.2, hc⟩
  | cons next others ih =>
      rw [List.forall_mem_cons] at hothers
      obtain ⟨names', hnames', hdotted⟩ := ih next hothers.1 hothers.2
      obtain ⟨first', others', rfl, hfirst', hothers'⟩ := hnames'.exists_cons
      refine ⟨first :: first' :: others', areNames_cons.mpr ⟨hfirst, ?_⟩, ?_⟩
      · rw [List.forall_mem_cons]
        exact ⟨hfirst', hothers'⟩
      · simp [dotted, hdotted]

theorem stops_of_longestPath {names : List (List Char)} {rest : List Char} (hnames : AreNames names)
    (h : LongestPath names rest) : Stops isIdentRest rest := by
  cases rest with
  | nil => exact stops_nil
  | cons c rest =>
      rw [stops_cons, ← Bool.not_eq_true]
      intro hc
      obtain ⟨names', hnames', hdotted⟩ := exists_longer hnames hc
      have hle := h names' rest hnames' (by rw [hdotted, List.append_assoc, List.singleton_append])
      rw [hdotted, List.length_append, List.length_singleton] at hle
      omega

theorem isIdentRest_or_isDot_of_mem {names : List (List Char)}
    (hnames : ∀ name ∈ names, IsIdentifier name) {c : Char} (hc : c ∈ dotted names) :
    isIdentRest c = true ∨ isDot c = true := by
  cases names with
  | nil => cases hc
  | cons first others =>
      rw [dotted_cons, dottedRest, List.mem_append, List.mem_flatMap] at hc
      obtain ⟨hfirst, hothers⟩ := List.forall_mem_cons.mp hnames
      rcases hc with hc | ⟨name, hname, hc⟩
      · exact Or.inl (hfirst.isIdentRest hc)
      · rcases List.mem_cons.mp hc with rfl | hc
        · exact Or.inr rfl
        · exact Or.inl ((hothers name hname).isIdentRest hc)

theorem longestPath_of_stops {names : List (List Char)} {rest : List Char}
    (hdot : Stops isDot rest) (hrest : Stops isIdentRest rest) : LongestPath names rest := by
  intro names' rest' hnames' heq
  rcases List.append_eq_append_iff.mp heq with ⟨more, hmore, -⟩ | ⟨more, hmore, htail⟩
  · rw [hmore, List.length_append]
    omega
  · cases more with
    | nil => rw [hmore, List.append_nil]
    | cons c more =>
        -- The rest would begin with a character of a path.
        have hmem : c ∈ dotted names' := by
          rw [hmore]
          exact List.mem_append_right _ List.mem_cons_self
        rw [htail, List.cons_append, stops_cons] at hdot hrest
        rcases isIdentRest_or_isDot_of_mem hnames'.2 hmem with hc | hc
        · rw [hc] at hrest
          cases hrest
        · rw [hc] at hdot
          cases hdot

/-! ## Reading -/

theorem isPrefixOf_closing_iff {rest : List Char} :
    closing.isPrefixOf (skipSpaces rest) = true ↔
      ∃ right, List.replicate right ' ' ++ closing <+: rest := by
  rw [List.isPrefixOf_iff_prefix]
  constructor
  · rintro ⟨tail, htail⟩
    obtain ⟨right, hright⟩ := skipSpaces_sound rest
    refine ⟨right, tail, ?_⟩
    rw [List.append_assoc, htail, ← hright]
  · rintro ⟨right, tail, rfl⟩
    rw [List.append_assoc, skipSpaces_closing]
    exact List.prefix_append _ _

theorem prefix_dot_iff {rest : List Char} : ¬ ['.'] <+: rest ↔ Stops isDot rest := by
  cases rest with
  | nil => simp
  | cons c rest => rw [List.cons_prefix_cons, stops_cons, isDot, beq_eq_false_iff_ne, ne_comm]; simp

/-- A dot without an identifier after it is left over. -/
theorem segments_dangling {fuel : Nat} {names : List (List Char)} {after : List Char}
    (hfuel : names.length < fuel) (hnames : ∀ name ∈ names, IsIdentifier name)
    (hafter : Stops isIdentStart after) :
    segments fuel (dottedRest names ++ '.' :: after) = (names, '.' :: after, true) := by
  obtain ⟨more, rfl⟩ := Nat.exists_eq_add_of_lt hfuel
  have hdot : Stops isIdentRest ('.' :: after) := by simp [isIdentRest]
  rw [Nat.add_assoc, segments_append _ hnames hdot, segments, ident?_eq_none_iff.mpr hafter,
    List.append_nil]

theorem path_of_missingMark {text : List Char} (h : MissingMark text) : path text = .error 0 := by
  rcases h with hopening | ⟨left, names, rest, hnames, hlongest, rfl, hdot, hclosing⟩
  · have hunopened : opening.isPrefixOf text = false := by
      rw [← Bool.not_eq_true, List.isPrefixOf_iff_prefix]
      exact hopening
    rw [path, hunopened]
  · have hunclosed : ¬ closing.isPrefixOf (skipSpaces rest) = true := by
      rw [isPrefixOf_closing_iff]
      exact not_exists.mpr hclosing
    rw [path_dotted left hnames.1 hnames.2 (prefix_dot_iff.mp hdot)
      (stops_of_longestPath hnames hlongest), if_neg hunclosed]

/-- Where a text is stuck, reading refuses it with the number of bytes before that place. -/
theorem path_of_stuck {before after : List Char} (h : Stuck before after) :
    path (before ++ after) = .error (byteLength before) := by
  have hdrop : ∀ tail, (opening ++ tail).drop 2 = tail := fun _ => rfl
  cases h with
  | first left hspaces hident =>
      rw [← byteLength_append_sub _ after, List.append_assoc, path, isPrefixOf_opening]
      simp only [hdrop, skipSpaces_replicate left hspaces, ident?_eq_none_iff.mpr hident]
  | dot left hnames hident =>
      obtain ⟨first, others, rfl, hfirst, hothers⟩ := hnames.exists_cons
      -- The text that is left over after the first identifier.
      let tail := dottedRest others ++ '.' :: after
      have htail : Stops isIdentRest tail := stops_dottedRest others (by simp [isIdentRest])
      have hsegments : segments tail.length tail = (others, '.' :: after, true) := by
        have hlength := length_le_length_dottedRest others []
        apply segments_dangling _ hothers hident
        simp only [tail, List.length_append, List.length_cons, List.append_nil] at hlength ⊢
        omega
      have htext : opening ++ (List.replicate left ' ' ++ (dotted (first :: others) ++ ['.'])) ++
          after = opening ++ (List.replicate left ' ' ++ (first ++ tail)) := by
        simp [tail]
      have hstart : skipSpaces (List.replicate left ' ' ++ (first ++ tail)) = first ++ tail :=
        skipSpaces_replicate left (hfirst.stops_space tail)
      rw [← byteLength_append_sub _ after, htext, path, isPrefixOf_opening]
      simp only [hdrop, hstart, ident?_append hfirst htail, hsegments, if_true, List.drop_succ_cons,
        List.drop_zero]
  | @trailing left right names after hnames hafter =>
      have htext : written left right names ++ after = opening ++ (List.replicate left ' ' ++
          (dotted names ++ (List.replicate right ' ' ++ (closing ++ after)))) := by
        simp only [written, List.append_assoc]
      have hrest := stops_closing right after
      have hclosing : closing.isPrefixOf (closing ++ after) = true := by
        rw [List.isPrefixOf_iff_prefix]
        exact List.prefix_append _ _
      have hleft : (closing ++ after).drop 2 = after := rfl
      rw [← byteLength_append_sub _ after, htext,
        path_dotted left hnames.1 hnames.2 hrest.1 hrest.2, skipSpaces_closing,
        if_pos hclosing, hleft, if_neg (by simpa using hafter)]

/-- Behind an identifier there are further ones behind dots, as many as there can be. -/
theorem exists_dottedRest {text : List Char} (h : Stops isIdentRest text) :
    ∃ names rest, text = dottedRest names ++ rest ∧ (∀ name ∈ names, IsIdentifier name) ∧
      Stops isIdentRest rest ∧
      (Stops isDot rest ∨ ∃ tail, rest = '.' :: tail ∧ Stops isIdentStart tail) := by
  induction hlength : text.length using Nat.strong_induction_on generalizing text with
  | _ length ih =>
      by_cases hdot : Stops isDot text
      · exact ⟨[], text, rfl, List.forall_mem_nil _, h, Or.inl hdot⟩
      · obtain ⟨tail, rfl⟩ : ∃ tail, text = '.' :: tail := by
          cases text with
          | nil => simp at hdot
          | cons c tail => exact ⟨tail, by simpa [isDot] using hdot⟩
        cases hident : ident? tail with
        | none =>
            have hbroken := ident?_eq_none_iff.mp hident
            exact ⟨[], _, rfl, List.forall_mem_nil _, h, Or.inr ⟨tail, rfl, hbroken⟩⟩
        | some found =>
            obtain ⟨name, after⟩ := found
            obtain ⟨hname, rfl, hafter⟩ := ident?_eq_some hident
            have hshorter : after.length < length := by
              rw [← hlength, List.length_cons, List.length_append]
              omega
            obtain ⟨names, rest, rfl, hnames, hrest⟩ := ih _ hshorter hafter rfl
            refine ⟨name :: names, rest, ?_, List.forall_mem_cons.mpr ⟨hname, hnames⟩, hrest⟩
            simp [dottedRest]

/-- A text that is refused is stuck somewhere, or a mark is missing. -/
theorem stuck_or_missingMark {text : List Char} {offset : Nat} (h : path text = .error offset) :
    (∃ before after, text = before ++ after ∧ Stuck before after) ∨ MissingMark text := by
  by_cases hopening : opening <+: text
  · obtain ⟨tail, rfl⟩ := hopening
    obtain ⟨left, hleft⟩ := skipSpaces_sound tail
    have hspaces : Stops (· == ' ') (skipSpaces tail) := stops_dropWhile tail
    cases hident : ident? (skipSpaces tail) with
    | none =>
        refine Or.inl ⟨_, _, ?_, .first left hspaces (ident?_eq_none_iff.mp hident)⟩
        rw [List.append_assoc, ← hleft]
    | some found =>
        obtain ⟨first, after⟩ := found
        obtain ⟨hfirst, hstart, hafter⟩ := ident?_eq_some hident
        obtain ⟨others, rest, rfl, hothers, hrest, hend⟩ := exists_dottedRest hafter
        have hnames := areNames_cons.mpr ⟨hfirst, hothers⟩
        have htext : opening ++ tail =
            opening ++ (List.replicate left ' ' ++ (dotted (first :: others) ++ rest)) := by
          rw [dotted_cons, List.append_assoc, ← hstart, ← hleft]
        rw [htext] at h ⊢
        rcases hend with hdot | ⟨after, rfl, hbroken⟩
        · by_cases hclosing : ∃ right, List.replicate right ' ' ++ closing <+: rest
          · obtain ⟨right, after, rfl⟩ := hclosing
            have hwritten : opening ++ (List.replicate left ' ' ++ (dotted (first :: others) ++
                (List.replicate right ' ' ++ closing ++ after))) =
                written left right (first :: others) ++ after := by
              simp only [written, List.append_assoc]
            rw [hwritten] at h ⊢
            refine Or.inl ⟨_, after, rfl, .trailing left right hnames ?_⟩
            rintro rfl
            rw [List.append_nil, path_written left right hnames.1 hnames.2] at h
            cases h
          · exact Or.inr (Or.inr ⟨left, _, rest, hnames, longestPath_of_stops hdot hrest, rfl,
              prefix_dot_iff.mpr hdot, not_exists.mp hclosing⟩)
        · refine Or.inl ⟨_, after, ?_, .dot left hnames hbroken⟩
          simp only [List.append_assoc, List.singleton_append]
  · exact Or.inr (Or.inl hopening)

/-! ## Viable beginnings -/

theorem Stuck.viable {before after : List Char} (h : Stuck before after) : Viable before := by
  have hunderscore : IsIdentifier ['_'] := ⟨by decide, List.forall_mem_nil _⟩
  cases h with
  | first left hspaces hident =>
      refine ⟨left, 0, [['_']], areNames_cons.mpr ⟨hunderscore, List.forall_mem_nil _⟩, ?_⟩
      rw [written, List.append_assoc _ (dotted _), List.append_assoc]
      exact List.prefix_append _ _
  | dot left hnames hident =>
      obtain ⟨first, others, rfl, hfirst, hothers⟩ := hnames.exists_cons
      have hlonger : ∀ name ∈ others ++ [['_']], IsIdentifier name := by
        rw [List.forall_mem_append, List.forall_mem_singleton]
        exact ⟨hothers, hunderscore⟩
      refine ⟨left, 0, first :: (others ++ [['_']]), areNames_cons.mpr ⟨hfirst, hlonger⟩,
        '_' :: closing, ?_⟩
      simp [written, dottedRest]
  | trailing left right hnames hafter => exact ⟨left, right, _, hnames, List.prefix_rfl⟩

/-- Where a text is stuck depends on no more than the next character. -/
theorem Stuck.append {before : List Char} {c : Char} {after : List Char}
    (h : Stuck before (c :: after)) (more : List Char) : Stuck before (c :: more) := by
  generalize htail : c :: after = tail at h
  cases h with
  | first left hspaces hident =>
      subst htail
      rw [stops_cons] at hspaces hident
      exact .first left (stops_cons.mpr hspaces) (stops_cons.mpr hident)
  | dot left hnames hident =>
      subst htail
      rw [stops_cons] at hident
      exact .dot left hnames (stops_cons.mpr hident)
  | trailing left right hnames hafter => exact .trailing left right hnames (List.cons_ne_nil _ _)

/-- No template goes on from where a text is stuck, so nothing longer is viable. -/
theorem Stuck.longestViable {before after : List Char} (h : Stuck before after) :
    LongestViable before (before ++ after) := by
  refine ⟨List.prefix_append _ _, h.viable, ?_⟩
  rintro other hother ⟨left, right, names, hnames, hviable⟩
  rw [← Nat.not_lt]
  intro hlonger
  obtain ⟨more, rfl⟩ :=
    List.prefix_of_prefix_length_le (List.prefix_append before after) hother hlonger.le
  cases more with
  | nil => simp at hlonger
  | cons c more =>
      obtain ⟨tail, rfl⟩ := (List.prefix_append_right_inj before).mp hother
      obtain ⟨rest, hrest⟩ := hviable
      have hpath := path_of_stuck (h.append (more ++ rest))
      have hwritten : before ++ c :: (more ++ rest) = written left right names := by
        rw [← hrest, List.append_assoc, List.cons_append]
      rw [hwritten, path_written left right hnames.1 hnames.2] at hpath
      cases hpath

theorem Stuck.byteLength_ne_zero {before after : List Char} (h : Stuck before after) :
    byteLength before ≠ 0 := by
  have hopening : ∀ text, byteLength (opening ++ text) ≠ 0 := by
    intro text
    rw [byteLength_append, show byteLength opening = 2 from rfl]
    omega
  cases h with
  | first left hspaces hident => exact hopening _
  | dot left hnames hident => exact hopening _
  | trailing left right hnames hafter =>
      rw [written, List.append_assoc, List.append_assoc, List.append_assoc]
      exact hopening _

theorem path_of_parse {raw raw' : String} {offset : Nat}
    (h : parse raw = .error (.malformed raw' offset)) :
    raw' = raw ∧ path raw.toList = .error offset := by
  rw [parse] at h
  split at h
  · cases h
  · split at h
    · next hpath =>
      cases h
      exact ⟨rfl, hpath⟩
    · split at h <;> cases h
    · cases h

end Template

/-- The offset of a malformed template is that of a character of the string or of its end. It is
zero exactly if a mark is missing. Otherwise it is where the longest viable beginning of the string
ends, because an identifier is missing there or because the string goes on after a template. -/
theorem malformed_offset_sound (raw raw' : String) (offset : Nat)
    (h : Template.parse raw = .error (.malformed raw' offset)) :
    (TemplateError.malformed raw' offset).message = "Malformed template '" ++ raw ++ "': " ++
      ("expected '\x7b\x7buser.<attribute>\x7d\x7d', invalid input at offset " ++
        toString offset) ∧
    String.Pos.Raw.IsValid raw ⟨offset⟩ ∧ offset ≤ raw.utf8ByteSize ∧
    (offset = 0 ↔ Template.MissingMark raw.toList) ∧
    (offset ≠ 0 → ∃ before after, raw.toList = before ++ after ∧
      (String.ofList before).utf8ByteSize = offset ∧
      Template.LongestViable before raw.toList ∧ Template.Stuck before after) := by
  obtain ⟨rfl, hpath⟩ := Template.path_of_parse h
  have hmissing : Template.MissingMark raw'.toList → offset = 0 := by
    intro hmissing
    rw [Template.path_of_missingMark hmissing] at hpath
    exact (Except.error.inj hpath).symm
  refine ⟨rfl, ?_⟩
  rcases Template.stuck_or_missingMark hpath with ⟨before, after, htext, hstuck⟩ | hmark
  · rw [htext, Template.path_of_stuck hstuck] at hpath
    obtain rfl := Except.error.inj hpath
    have hraw : raw' = String.ofList before ++ String.ofList after := by
      rw [← String.ofList_append, ← htext, String.ofList_toList]
    have hbytes := Template.utf8ByteSize_ofList before
    have hnonzero := hstuck.byteLength_ne_zero
    refine ⟨?_, ?_, iff_of_false hnonzero fun hmark => hnonzero (hmissing hmark), ?_⟩
    · rw [String.Pos.Raw.isValid_iff_exists_append]
      exact ⟨_, _, hraw, by rw [← hbytes]; rfl⟩
    · rw [hraw, String.utf8ByteSize_append, hbytes]
      omega
    · intro _
      exact ⟨before, after, htext, hbytes, htext ▸ hstuck.longestViable, hstuck⟩
  · obtain rfl := hmissing hmark
    exact ⟨String.Pos.Raw.isValid_zero, Nat.zero_le _, iff_of_true rfl hmark, absurd rfl⟩

/-- A dot without an attribute, and characters of more than one byte after it. -/
theorem malformed_offset_sound_danglingDot :
    Template.parse "\x7b\x7b user.é\x7d\x7d" =
      .error (.malformed "\x7b\x7b user.é\x7d\x7d" 8) ∧
    ∃ before after, "\x7b\x7b user.é\x7d\x7d".toList = before ++ after ∧
      (String.ofList before).utf8ByteSize = 8 ∧
      Template.LongestViable before "\x7b\x7b user.é\x7d\x7d".toList ∧
      Template.Stuck before after := by
  have hparse : Template.parse "\x7b\x7b user.é\x7d\x7d" =
      .error (.malformed "\x7b\x7b user.é\x7d\x7d" 8) := rfl
  obtain ⟨-, -, -, -, hstuck⟩ := malformed_offset_sound _ _ _ hparse
  exact ⟨hparse, hstuck (by decide)⟩

end RowPolicy
