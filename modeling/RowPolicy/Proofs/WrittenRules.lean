import RowPolicy.Proofs.ErrorOrder
import RowPolicy.Proofs.WrittenValues

/-!
# Rules as written

A declared rule is an object with at most one member, but the compiler only sees what reading has
made of the text, and reading keeps the last of several members with one key. So the compiler
refuses an object for its members exactly when two of them have different keys, and what a member
that is written again held before is lost without an error.
-/

namespace RowPolicy

open Compiler

namespace Json.Raw

/-- What is read of a part of a tree: of members with one key the last. -/
def part? : Raw → Segment → Option Raw
  | .object members, .member key => members.reverse.lookup (some key)
  | .array items, .element index => items[index]?
  | _, _ => none

/-- A tree stands for a rule in the text of another one: at its root, or as an element of a
composite in any member of such a rule. -/
inductive HoldsRule : Raw → Raw → Prop
  | root (raw : Raw) : HoldsRule raw raw
  | element (connective : Connective) {members : List (Option String × Raw)} {items : List Raw}
      {item rule : Raw} : (some connective.operator, .array items) ∈ members → item ∈ items →
      HoldsRule item rule → HoldsRule (.object members) rule

/-- No object that stands for a rule is written with one key twice. -/
def RepeatsNoKey (raw : Raw) : Prop :=
  ∀ members, raw.HoldsRule (.object members) → (members.map Prod.fst).Nodup

end Json.Raw

def Role.reachWritten? : Role → Json.Raw → Address → Option (Role × Json.Raw)
  | role, raw, [] => some (role, raw)
  | role, raw, segment :: address =>
    (role.part? segment).bind fun role' => (raw.part? segment).bind fun part =>
      reachWritten? role' part address

variable {compiler : Compiler} {scope : Namespace} {role : Role} {raw : Json.Raw} {json : Json}
  {limit : Nat} {address : Address} {keys : List String}

/-! ## Reading keeps places -/

/-- A tree is read as a value, under some limit on nesting. -/
def Json.Raw.Reads (raw : Raw) (json : Json) : Prop := ∃ limit, raw.value? limit = some json

theorem rel_part? (h : raw.Reads json) (segment : Segment) :
    Option.Rel Json.Raw.Reads (raw.part? segment) (json.part? segment) := by
  obtain ⟨limit, h⟩ := h
  cases raw with
  | array items =>
      obtain ⟨-, values, rfl, hvalues⟩ := Json.Raw.value?_array_eq_some_iff.mp h
      cases segment with
      | member key => exact .none
      | element i =>
          exact rel_getElem? (hvalues.imp fun _ _ hvalue => ⟨_, hvalue⟩) i
  | object members =>
      obtain ⟨-, pairs, rfl, hpairs⟩ := Json.Raw.value?_object_eq_some_iff.mp h
      cases segment with
      | element i => exact .none
      | member key =>
          have hlookup := Json.Raw.rel_lookup_reverse hpairs key
          simp only [Json.Raw.part?, Json.ofDict, Json.part?]
          generalize members.reverse.lookup (some key) = part? at hlookup
          generalize (Dict.ofList pairs).entries.lookup key = value? at hlookup
          cases hlookup with
          | none => exact .none
          | some hvalue => exact .some ⟨_, hvalue⟩
  | null =>
      cases h
      exact .none
  | bool value =>
      cases h
      exact .none
  | number value =>
      obtain ⟨number, -, rfl⟩ := Option.map_eq_some_iff.mp h
      exact .none
  | string text =>
      obtain ⟨string, -, rfl⟩ := Option.map_eq_some_iff.mp h
      exact .none

/-- What is read at an address is read from the tree at the address, in the same role. -/
theorem rel_reach? (h : raw.Reads json) (role : Role) (address : Address) :
    Option.Rel (fun written found => written.1 = found.1 ∧ Json.Raw.Reads written.2 found.2)
      (role.reachWritten? raw address) (role.reach? json address) := by
  induction address generalizing role raw json with
  | nil => exact .some ⟨rfl, h⟩
  | cons segment address ih =>
      rw [Role.reachWritten?, Role.reach?]
      apply rel_bind (rel_refl (R := Eq) (fun _ => rfl) (role.part? segment))
      rintro role' _ rfl
      exact rel_bind (rel_part? h segment) fun _ _ hpart => ih hpart role'

/-! ## Objects with several keys -/

theorem Dict.two_le_size_ofList_iff {pairs : List (String × Json)} :
    2 ≤ (Dict.ofList pairs).entries.length ↔
      ∃ first ∈ pairs, ∃ second ∈ pairs, first.1 ≠ second.1 := by
  have hordered := (Dict.ofList pairs).ordered
  constructor
  · intro hsize
    match hentries : (Dict.ofList pairs).entries with
    | [] | [_] => simp [hentries] at hsize
    | first :: second :: rest =>
        have hmem : ∀ entry ∈ first :: second :: rest, entry ∈ pairs := by
          intro entry hentry
          rw [← hentries] at hentry
          exact Dict.mem_of_mem_ofList hentry
        rw [hentries] at hordered
        have hlt : first.1 < second.1 := (List.pairwise_cons.mp hordered).1 _ List.mem_cons_self
        exact ⟨first, hmem _ (by simp), second, hmem _ (by simp), String.ne_of_lt hlt⟩
  · rintro ⟨first, hfirst, second, hsecond, hne⟩
    -- Both keys stay, so that one entry cannot be all there is.
    have hkeys : ∀ pair ∈ pairs, pair.1 ∈ (Dict.ofList pairs).keys := by
      intro pair hpair
      rw [Dict.mem_keys_iff, Dict.get?_ofList, Option.isSome_iff_ne_none, ne_eq,
        List.lookup_eq_none_iff]
      intro hnone
      exact absurd (hnone pair (List.mem_reverse.mpr hpair)) (by simp)
    by_contra hsize
    match hentries : (Dict.ofList pairs).entries with
    | [] => simpa [Dict.keys, hentries] using hkeys first hfirst
    | [entry] =>
        have hkey := hkeys first hfirst
        have hkey' := hkeys second hsecond
        simp only [Dict.keys, hentries, List.map_cons, List.map_nil,
          List.mem_singleton] at hkey hkey'
        exact hne (hkey.trans hkey'.symm)
    | _ :: _ :: _ => simp [hentries] at hsize

/-- Only an object that is read as a rule has several keys too many. -/
theorem violation?_eq_severalKeys_iff {value : Json} :
    role.violation? scope value = some (.malformed (.severalKeys keys)) ↔
      role = .rule ∧ ∃ members, value = .object members ∧ 2 ≤ members.length ∧
        keys = members.map Prod.fst := by
  cases role with
  | rule =>
      cases value with
      | object members =>
          simp only [Role.violation?, true_and, Json.object.injEq, exists_eq_left']
          by_cases hlength : members.length ≤ 1
          · rw [if_pos hlength]
            refine iff_of_false ?_ fun h => by omega
            intro h
            cases h
          · have htwo : 2 ≤ members.length := by omega
            simp [if_neg hlength, htwo, eq_comm]
      | _ => simp [Role.violation?]
  | subrules connective => cases value <;> simp [Role.violation?]
  | attributes => cases value <;> simp [Role.violation?]
  | attributeValue name =>
      rw [Role.violation?, Role.attributeViolation?]
      split_ifs <;> simp
  | fieldValue key =>
      rw [Role.violation?, Role.fieldViolation?]
      split_ifs <;> simp

/-- An object read as a rule has several keys exactly when members with different keys are
written. -/
theorem two_le_length_iff {members : List (Option String × Json.Raw)}
    {entries : List (String × Json)} (h : (Json.Raw.object members).Reads (.object entries)) :
    2 ≤ entries.length ↔ ∃ first ∈ members, ∃ second ∈ members, first.1 ≠ second.1 := by
  obtain ⟨limit, h⟩ := h
  obtain ⟨-, pairs, heq, hpairs⟩ := Json.Raw.value?_object_eq_some_iff.mp h
  cases heq
  rw [Dict.two_le_size_ofList_iff]
  constructor
  · rintro ⟨first, hfirst, second, hsecond, hne⟩
    obtain ⟨member, hmember, hkey, -⟩ := exists_left_of_forall₂ hpairs hfirst
    obtain ⟨member', hmember', hkey', -⟩ := exists_left_of_forall₂ hpairs hsecond
    refine ⟨member, hmember, member', hmember', ?_⟩
    rw [hkey, hkey']
    simpa using hne
  · rintro ⟨member, hmember, member', hmember', hne⟩
    obtain ⟨first, hfirst, hkey, -⟩ := exists_right_of_forall₂ hpairs hmember
    obtain ⟨second, hsecond, hkey', -⟩ := exists_right_of_forall₂ hpairs hmember'
    refine ⟨first, hfirst, second, hsecond, ?_⟩
    rw [hkey, hkey'] at hne
    simpa using hne

theorem Json.Raw.Reads.exists_members {entries : List (String × Json)}
    (h : raw.Reads (.object entries)) : ∃ members, raw = .object members := by
  obtain ⟨limit, h⟩ := h
  cases raw with
  | object members => exact ⟨members, rfl⟩
  | array items =>
      obtain ⟨-, values, heq, -⟩ := Json.Raw.value?_array_eq_some_iff.mp h
      cases heq
  | null => cases h
  | bool value => cases h
  | number value =>
      obtain ⟨number, -, heq⟩ := Option.map_eq_some_iff.mp h
      cases heq
  | string text =>
      obtain ⟨string, -, heq⟩ := Option.map_eq_some_iff.mp h
      cases heq

theorem Json.Raw.Reads.exists_entries {members : List (Option String × Json.Raw)}
    (h : (Json.Raw.object members).Reads json) : ∃ entries, json = .object entries := by
  obtain ⟨limit, h⟩ := h
  obtain ⟨-, pairs, rfl, -⟩ := Json.Raw.value?_object_eq_some_iff.mp h
  exact ⟨_, rfl⟩

/-- Several keys are found at an address exactly when the object that is read there is written with
members of different keys. -/
theorem exists_severalKeys_iff (scope : Namespace) (h : raw.Reads json) :
    (∃ keys, Role.rule.violationAt? scope json address = some (.malformed (.severalKeys keys))) ↔
      ∃ members, Role.rule.reachWritten? raw address = some (.rule, .object members) ∧
        ∃ first ∈ members, ∃ second ∈ members, first.1 ≠ second.1 := by
  have hreach := rel_reach? h .rule address
  constructor
  · rintro ⟨keys, hviolation⟩
    obtain ⟨⟨role, value⟩, hfound, hviolation⟩ := Option.bind_eq_some_iff.mp hviolation
    obtain ⟨hrole, entries, hvalue, hlength, -⟩ := violation?_eq_severalKeys_iff.mp hviolation
    rw [hfound] at hreach
    obtain ⟨⟨role', part⟩, hwritten, hsame, hreads⟩ := exists_left_of_rel hreach
    simp only at hrole hvalue hsame hreads
    subst hrole hvalue hsame
    obtain ⟨members, rfl⟩ := hreads.exists_members
    exact ⟨members, hwritten, (two_le_length_iff hreads).mp hlength⟩
  · rintro ⟨members, hwritten, hdifferent⟩
    rw [hwritten] at hreach
    obtain ⟨⟨role, value⟩, hfound, hsame, hreads⟩ := exists_right_of_rel hreach
    simp only at hsame hreads
    subst hsame
    obtain ⟨entries, rfl⟩ := hreads.exists_entries
    exact ⟨entries.map Prod.fst, Option.bind_eq_some_iff.mpr ⟨_, hfound,
      violation?_eq_severalKeys_iff.mpr
        ⟨rfl, entries, rfl, (two_le_length_iff hreads).mpr hdifferent, rfl⟩⟩⟩

/-! ## Refusals -/

/-- Where no rule repeats a key, every rule of the text is read at some address. -/
theorem exists_address_of_holdsRule {rule : Json.Raw} (h : raw.HoldsRule rule)
    (hkeys : raw.RepeatsNoKey) :
    ∃ address, Role.rule.reachWritten? raw address = some (.rule, rule) := by
  induction h with
  | root raw => exact ⟨[], rfl⟩
  | @element connective members items item rule hmember hitem _ ih =>
      have hitemKeys : item.RepeatsNoKey := fun inner hinner =>
        hkeys inner (.element connective hmember hitem hinner)
      obtain ⟨address, haddress⟩ := ih hitemKeys
      obtain ⟨i, hi⟩ := List.mem_iff_getElem?.mp hitem
      -- With distinct keys no later member replaces the one that holds the rule.
      have hnodup : (members.reverse.map Prod.fst).Nodup := by
        rw [List.map_reverse, List.nodup_reverse]
        exact hkeys members (.root _)
      have hpart : members.reverse.lookup (some connective.operator) = some (.array items) :=
        (lookup_eq_some_iff_mem hnodup).mpr (List.mem_reverse.mpr hmember)
      refine ⟨.member connective.operator :: .element i :: address, ?_⟩
      simp only [Role.reachWritten?, Role.part?, Json.Raw.part?, ofKey_operator, hpart, hi,
        Option.bind_some, haddress]

theorem exists_ne_of_two_le {members : List (Option String × Json.Raw)}
    (hkeys : (members.map Prod.fst).Nodup) (h : 2 ≤ members.length) :
    ∃ first ∈ members, ∃ second ∈ members, first.1 ≠ second.1 := by
  match members with
  | first :: second :: rest =>
      rw [List.map_cons, List.map_cons, List.nodup_cons] at hkeys
      have hne : first.1 ≠ second.1 := fun heq => hkeys.1 (heq ▸ List.mem_cons_self)
      exact ⟨first, by simp, second, by simp, hne⟩

/-- A text is refused for objects that are written with members of different keys, and else for
violations that have nothing to do with the number of members. -/
theorem refused_iff_different_keys (h : raw.Reads json) :
    (∃ error, compiler.compile json = .error error) ↔
      (∃ address members, Role.rule.reachWritten? raw address = some (.rule, .object members) ∧
        ∃ first ∈ members, ∃ second ∈ members, first.1 ≠ second.1) ∨
      ∃ address violation, Role.rule.violationAt? compiler.scope json address = some violation ∧
        ∀ keys, violation ≠ .malformed (.severalKeys keys) := by
  have hcanonical : json.Canonical := by
    obtain ⟨limit, hvalue⟩ := h
    exact Json.Raw.canonical_of_value? hvalue
  have hrefused : (∃ error, compiler.compile json = .error error) ↔
      ∃ address violation, Role.rule.violationAt? compiler.scope json address = some violation := by
    rw [← exists_refuses_iff_violationAt? hcanonical]
    constructor
    · rintro ⟨error, herror⟩
      exact ⟨error.violation, error.location, herror⟩
    · rintro ⟨violation, location, herror⟩
      exact ⟨_, herror⟩
  simp only [hrefused, ← exists_severalKeys_iff compiler.scope h]
  constructor
  · rintro ⟨address, violation, hviolation⟩
    by_cases hkeys : ∃ keys, violation = .malformed (.severalKeys keys)
    · obtain ⟨keys, rfl⟩ := hkeys
      exact Or.inl ⟨address, keys, hviolation⟩
    · exact Or.inr ⟨address, violation, hviolation, not_exists.mp hkeys⟩
  · rintro (⟨address, keys, hviolation⟩ | ⟨address, violation, hviolation, -⟩)
    · exact ⟨address, _, hviolation⟩
    · exact ⟨address, violation, hviolation⟩

/-- Where no rule repeats a key, a text is refused when any of its rules is written with several
members. In general it is refused when an object that is read as a rule is written with members of
different keys, and otherwise the number of members is no reason to refuse it. -/
theorem several_members_refused (compiler : Compiler) {text : String} {raw : Json.Raw} {json : Json}
    (hraw : Json.Raw.parse? text = some raw) (hjson : Json.parse? text = some json) :
    (raw.RepeatsNoKey → ∀ members, raw.HoldsRule (.object members) → 2 ≤ members.length →
      ∃ error, compiler.compile json = .error error) ∧
    ((∃ error, compiler.compile json = .error error) ↔
      (∃ address members, Role.rule.reachWritten? raw address = some (.rule, .object members) ∧
        ∃ first ∈ members, ∃ second ∈ members, first.1 ≠ second.1) ∨
      ∃ address violation, Role.rule.violationAt? compiler.scope json address = some violation ∧
        ∀ keys, violation ≠ .malformed (.severalKeys keys)) ∧
    ∀ address,
      (∃ keys, Role.rule.violationAt? compiler.scope json address =
        some (.malformed (.severalKeys keys))) ↔
      ∃ members, Role.rule.reachWritten? raw address = some (.rule, .object members) ∧
        ∃ first ∈ members, ∃ second ∈ members, first.1 ≠ second.1 := by
  have hreads : raw.Reads json := by
    obtain ⟨_, hraw', hvalue⟩ := Json.parse?_eq_some_iff.mp hjson
    cases hraw.symm.trans hraw'
    exact ⟨_, hvalue⟩
  refine ⟨?distinct, refused_iff_different_keys hreads, ?exactly⟩
  case distinct =>
    intro hkeys members hholds hlength
    obtain ⟨address, haddress⟩ := exists_address_of_holdsRule hholds hkeys
    exact (refused_iff_different_keys hreads).mpr
      (Or.inl ⟨address, members, haddress, exists_ne_of_two_le (hkeys members hholds) hlength⟩)
  case exactly => exact fun _ => exists_severalKeys_iff compiler.scope hreads

/-! ## An alternative with two fields -/

def ownerAndRoleText : String := "\x7b\"$or\":[\x7b\x7d,\x7b\"role\":\"y\",\"owner\":\"x\"\x7d]\x7d"

def ownerAndRoleWritten : List (Option String × Json.Raw) :=
  [(some "role", .string (some "y")), (some "owner", .string (some "x"))]

def ownerAndRole : Json :=
  .object [("$or", .array [.object [], .object [("owner", .string "x"), ("role", .string "y")]])]

def ownerAndRoleTree : Json.Raw :=
  .object [(some "$or", .array [.object [], .object ownerAndRoleWritten])]

theorem ownerAndRole_repeatsNoKey : ownerAndRoleTree.RepeatsNoKey := by
  intro members h
  cases h with
  | root => exact List.nodup_singleton _
  | element _ hmember hitem hrule =>
      obtain ⟨-, hitems⟩ := Prod.mk.inj (List.mem_singleton.mp hmember)
      cases hitems
      simp only [List.mem_cons, List.not_mem_nil, or_false] at hitem
      rcases hitem with rfl | rfl
      · cases hrule with
        | root => exact List.nodup_nil
        | element _ hinner => cases hinner
      · cases hrule with
        | root => simp [ownerAndRoleWritten]
        | element _ hinner => simp [ownerAndRoleWritten] at hinner

theorem several_members_refused_ownerAndRole :
    Json.Raw.parse? ownerAndRoleText = some ownerAndRoleTree ∧
    Json.parse? ownerAndRoleText = some ownerAndRole ∧
    ownerAndRoleTree.RepeatsNoKey ∧
    ownerAndRoleTree.HoldsRule (.object ownerAndRoleWritten) ∧
    (∃ error, Compiler.compile {} ownerAndRole = .error error) ∧
    ∃ keys, Role.rule.violationAt? Namespace.standard ownerAndRole [.member "$or", .element 1] =
      some (.malformed (.severalKeys keys)) := by
  have hraw : Json.Raw.parse? ownerAndRoleText = some ownerAndRoleTree := rfl
  have hjson : Json.parse? ownerAndRoleText = some ownerAndRole :=
    Json.parse?_eq_some_iff.mpr ⟨_, hraw, rfl⟩
  have hholds : ownerAndRoleTree.HoldsRule (.object ownerAndRoleWritten) :=
    .element .any List.mem_cons_self (List.mem_cons_of_mem _ List.mem_cons_self) (.root _)
  obtain ⟨hdistinct, -, hexactly⟩ := several_members_refused {} hraw hjson
  refine ⟨hraw, hjson, ownerAndRole_repeatsNoKey, hholds, ?_, ?_⟩
  · exact hdistinct ownerAndRole_repeatsNoKey ownerAndRoleWritten hholds (by decide)
  · exact (hexactly _).mpr ⟨ownerAndRoleWritten, rfl, _, List.mem_cons_self, _,
      List.mem_cons_of_mem _ List.mem_cons_self, by decide⟩

def ownerTwiceText : String := "\x7b\"owner\":\"x\",\"owner\":\"y\"\x7d"

def ownerTwiceWritten : List (Option String × Json.Raw) :=
  [(some "owner", .string (some "x")), (some "owner", .string (some "y"))]

def allTwiceText : String :=
  "\x7b\"$and\":[\x7b\"role\":\"y\",\"owner\":\"x\"\x7d],\"$and\":[\x7b\x7d]\x7d"

def allTwiceWritten : List (Option String × Json.Raw) :=
  [(some "$and", .array [.object ownerAndRoleWritten]), (some "$and", .array [.object []])]

/-- Two members with one key are accepted, and the first of them is lost: here a condition, and a
whole conjunction with an object of two members in it. -/
theorem repeated_members_accepted :
    Json.Raw.parse? ownerTwiceText = some (.object ownerTwiceWritten) ∧
    (Json.parse? ownerTwiceText).map (Compiler.compile {}) =
      some (.ok (.leaf (.fieldEquals "owner" (.literal (.string "y"))))) ∧
    Json.Raw.parse? allTwiceText = some (.object allTwiceWritten) ∧
    (Json.parse? allTwiceText).map (Compiler.compile {}) =
      some (.ok (.composite .all [.unrestricted])) := by
  have howner : Json.Raw.parse? ownerTwiceText = some (.object ownerTwiceWritten) := rfl
  have hall : Json.Raw.parse? allTwiceText = some (.object allTwiceWritten) := rfl
  have hownerRead : Json.parse? ownerTwiceText = some (.object [("owner", .string "y")]) :=
    Json.parse?_eq_some_iff.mpr ⟨_, howner, rfl⟩
  have hallRead : Json.parse? allTwiceText = some (.object [("$and", .array [.object []])]) :=
    Json.parse?_eq_some_iff.mpr ⟨_, hall, rfl⟩
  refine ⟨howner, ?_, hall, ?_⟩
  · rw [hownerRead]
    rfl
  · rw [hallRead]
    rfl

end RowPolicy
