import RowPolicy.Dict
import Mathlib.Data.List.Induction
import Mathlib.Data.List.Nodup

/-!
# Look-ups in dictionaries

A dictionary is determined by its look-ups. An insertion changes the look-up of its own key only,
and a list of entries is read with the last entry of a key winning, so that the order of entries
with distinct keys does not matter.
-/

namespace RowPolicy

variable {α : Type}

theorem lookup_cons_ite (k key : String) (value : α) (rest : List (String × α)) :
    ((key, value) :: rest).lookup k = if k = key then some value else rest.lookup k := by
  rw [List.lookup_cons]
  by_cases hk : k = key
  · simp [hk]
  · simp [hk, beq_false_of_ne hk]

theorem lookup_map_entry {β : Type} (g : String → α → β) (entries : List (String × α))
    (key : String) :
    (entries.map fun entry => (entry.1, g entry.1 entry.2)).lookup key =
      (entries.lookup key).map (g key) := by
  induction entries with
  | nil => rfl
  | cons entry entries ih =>
      obtain ⟨name, value⟩ := entry
      rw [List.map_cons, lookup_cons_ite, lookup_cons_ite, ih]
      split
      · next heq => rw [heq, Option.map_some]
      · rfl

theorem lookup_optional_entry {β : Type} (key : String) (g : β → α) (b? : Option β) (k : String) :
    (b?.toList.map fun b => (key, g b)).lookup k = if k = key then b?.map g else none := by
  cases b? with
  | none => simp
  | some b => simp [lookup_cons_ite]

/-- Entries that are kept or dropped by their keys are found as before, or not at all. -/
theorem lookup_filter {κ : Type} [BEq κ] [LawfulBEq κ] (keep : κ → Bool) (entries : List (κ × α))
    (k : κ) :
    (entries.filter fun entry => keep entry.1).lookup k =
      if keep k then entries.lookup k else none := by
  induction entries with
  | nil => simp
  | cons entry entries ih =>
      obtain ⟨key, value⟩ := entry
      rw [List.filter_cons, List.lookup_cons]
      by_cases hk : k = key
      · subst hk
        cases hkeep : keep k with
        | false => simp [hkeep, ih]
        | true => simp
      · rw [beq_false_of_ne hk]
        cases keep key with
        | false => simpa using ih
        | true => simpa [List.lookup_cons, beq_false_of_ne hk] using ih

/-- With distinct keys every entry is the one that its key looks up. -/
theorem lookup_eq_some_iff_mem {κ : Type} [BEq κ] [LawfulBEq κ] {entries : List (κ × α)}
    (h : (entries.map Prod.fst).Nodup) {k : κ} {v : α} :
    entries.lookup k = some v ↔ (k, v) ∈ entries := by
  induction entries with
  | nil => simp
  | cons entry rest ih =>
      obtain ⟨key, value⟩ := entry
      rw [List.map_cons, List.nodup_cons] at h
      rw [List.lookup_cons, List.mem_cons]
      by_cases hk : k = key
      · subst hk
        have hrest : (k, v) ∉ rest := fun hmem =>
          h.1 (List.mem_map.mpr ⟨(k, v), hmem, rfl⟩)
        simp [hrest, eq_comm]
      · simp [hk, beq_false_of_ne hk, ih h.2]

namespace Ordered

theorem lookup_insert (key : String) (value : α) (entries : List (String × α)) (k : String) :
    (insert key value entries).lookup k = if k = key then some value else entries.lookup k := by
  induction entries with
  | nil => simp only [insert, lookup_cons_ite]
  | cons entry rest ih =>
      obtain ⟨k', v'⟩ := entry
      simp only [insert]
      split
      · rw [lookup_cons_ite]
      · split
        · next heq =>
          subst heq
          simp only [lookup_cons_ite]
          split <;> rfl
        · next hne =>
          simp only [lookup_cons_ite, ih]
          by_cases hk : k = k'
          · subst hk
            rw [if_pos rfl, if_neg (Ne.symm hne), if_pos rfl]
          · rw [if_neg hk, if_neg hk]

theorem tail {entry : String × α} {rest : List (String × α)} (h : Ordered (entry :: rest)) :
    Ordered rest :=
  (List.pairwise_cons.mp h).2

theorem nodup {entries : List (String × α)} (h : Ordered entries) :
    (entries.map Prod.fst).Nodup := by
  apply List.Pairwise.imp _ h
  rintro a b hlt rfl
  exact String.lt_irrefl a hlt

/-- Of ordered entries those with smaller keys than one of them stand before it. -/
theorem mem_before {before after : List (String × α)} {key k : String} {v w : α}
    (h : Ordered (before ++ (key, v) :: after)) (hmem : (k, w) ∈ before ++ (key, v) :: after)
    (hlt : k < key) : (k, w) ∈ before := by
  rw [Ordered, List.map_append, List.pairwise_append] at h
  obtain ⟨-, hrest, -⟩ := h
  rw [List.map_cons, List.pairwise_cons] at hrest
  rcases List.mem_append.mp hmem with hbefore | hrestmem
  · exact hbefore
  · rcases List.mem_cons.mp hrestmem with heq | hafter
    · cases heq
      exact absurd hlt (String.lt_irrefl key)
    · have hgt : key < k := hrest.1 k (List.mem_map_of_mem hafter)
      exact absurd hlt (String.lt_asymm hgt)

/-- A key up to the first one is not found behind it. -/
theorem lookup_tail_of_not_lt {k' : String} {v' : α} {rest : List (String × α)}
    (h : Ordered ((k', v') :: rest)) {k : String} (hk : ¬ k' < k) : rest.lookup k = none := by
  rw [Ordered, List.map_cons, List.pairwise_cons] at h
  rw [List.lookup_eq_none_iff]
  intro entry hentry
  have hlt : k' < entry.1 := h.1 entry.1 (List.mem_map_of_mem hentry)
  rw [bne_iff_ne]
  rintro rfl
  exact hk hlt

/-- The first key of ordered entries is at most the first key of others that look up the same. -/
theorem first_not_lt {k k' : String} {v v' : α} {rest rest' : List (String × α)}
    (hb : Ordered ((k', v') :: rest'))
    (h : ∀ j, ((k, v) :: rest).lookup j = ((k', v') :: rest').lookup j) : ¬ k < k' := by
  intro hlt
  have hne : k ≠ k' := fun heq => String.lt_irrefl k' (heq ▸ hlt)
  have hk := h k
  rw [lookup_cons_ite, lookup_cons_ite, if_pos rfl, if_neg hne,
    lookup_tail_of_not_lt hb (String.lt_asymm hlt)] at hk
  cases hk

/-- Ordered entries that answer every look-up alike are the same. -/
theorem ext {as bs : List (String × α)} (ha : Ordered as) (hb : Ordered bs)
    (h : ∀ k, as.lookup k = bs.lookup k) : as = bs := by
  induction as generalizing bs with
  | nil =>
      cases bs with
      | nil => rfl
      | cons entry rest =>
          have hhead := h entry.1
          rw [lookup_cons_ite, if_pos rfl] at hhead
          cases hhead
  | cons entry rest ih =>
      obtain ⟨k, v⟩ := entry
      cases bs with
      | nil =>
          have hhead := h k
          rw [lookup_cons_ite, if_pos rfl] at hhead
          cases hhead
      | cons entry' rest' =>
          obtain ⟨k', v'⟩ := entry'
          have hle := first_not_lt hb h
          have hge := first_not_lt ha fun j => (h j).symm
          obtain rfl : k = k' := String.le_antisymm (String.not_lt.mp hge) (String.not_lt.mp hle)
          have hv : v = v' := by
            have hk := h k
            rwa [lookup_cons_ite, lookup_cons_ite, if_pos rfl, if_pos rfl, Option.some_inj] at hk
          have hrest : rest = rest' := by
            apply ih ha.tail hb.tail
            intro j
            by_cases hj : j = k
            · subst hj
              rw [lookup_tail_of_not_lt ha (String.lt_irrefl j),
                lookup_tail_of_not_lt hb (String.lt_irrefl j)]
            · have hk := h j
              rwa [lookup_cons_ite, lookup_cons_ite, if_neg hj, if_neg hj] at hk
          rw [hv, hrest]

end Ordered

namespace Dict

/-- Dictionaries that answer every look-up alike are the same. -/
theorem ext_get? {a b : Dict α} (h : ∀ k, a.get? k = b.get? k) : a = b := by
  cases a with
  | mk as ha =>
      cases b with
      | mk bs hb =>
          obtain rfl : as = bs := Ordered.ext ha hb h
          rfl

@[simp] theorem get?_empty (k : String) : (empty : Dict α).get? k = none := rfl

@[simp] theorem get?_insert (dict : Dict α) (key : String) (value : α) (k : String) :
    (dict.insert key value).get? k = if k = key then some value else dict.get? k :=
  Ordered.lookup_insert key value dict.entries k

theorem get?_eq_some_iff {dict : Dict α} {k : String} {v : α} :
    dict.get? k = some v ↔ (k, v) ∈ dict.entries :=
  lookup_eq_some_iff_mem dict.ordered.nodup

@[simp] theorem mem_keys_iff {dict : Dict α} {k : String} : k ∈ dict.keys ↔ (dict.get? k).isSome := by
  simp only [keys, List.mem_map, Prod.exists, exists_and_right, exists_eq_right,
    Option.isSome_iff_exists, get?_eq_some_iff]

theorem ofList_append_singleton (entries : List (String × α)) (key : String) (value : α) :
    ofList (entries ++ [(key, value)]) = (ofList entries).insert key value := by
  rw [ofList, List.foldl_append]
  rfl

/-- Of repeated keys the last entry is found. -/
theorem get?_ofList (entries : List (String × α)) (k : String) :
    (ofList entries).get? k = entries.reverse.lookup k := by
  induction entries using List.reverseRecOn with
  | nil => rfl
  | append_singleton entries entry ih =>
      obtain ⟨key, value⟩ := entry
      rw [ofList_append_singleton, get?_insert, ih, List.reverse_append, List.reverse_singleton,
        List.singleton_append, lookup_cons_ite]

theorem get?_ofList_eq_some_iff {entries : List (String × α)}
    (h : (entries.map Prod.fst).Nodup) {k : String} {v : α} :
    (ofList entries).get? k = some v ↔ (k, v) ∈ entries := by
  have hreverse : (entries.reverse.map Prod.fst).Nodup := by
    rwa [List.map_reverse, List.nodup_reverse]
  rw [get?_ofList, lookup_eq_some_iff_mem hreverse, List.mem_reverse]

theorem get?_ofList_of_nodup {entries : List (String × α)} (h : (entries.map Prod.fst).Nodup)
    (k : String) : (ofList entries).get? k = entries.lookup k := by
  apply Option.ext
  intro v
  rw [get?_ofList_eq_some_iff h, lookup_eq_some_iff_mem h]

@[simp] theorem ofList_entries (dict : Dict α) : ofList dict.entries = dict := by
  apply ext_get?
  intro k
  exact get?_ofList_of_nodup dict.ordered.nodup k

/-- Entries with distinct keys may come in any order. -/
theorem ofList_eq_of_perm {as bs : List (String × α)} (h : (as.map Prod.fst).Nodup)
    (hperm : as.Perm bs) : ofList as = ofList bs := by
  apply ext_get?
  intro k
  apply Option.ext
  intro v
  rw [get?_ofList_eq_some_iff h,
    get?_ofList_eq_some_iff ((hperm.map Prod.fst).nodup_iff.mp h), hperm.mem_iff]

/-- Collecting entries with distinct keys puts them in another order. -/
theorem perm_ofList {entries : List (String × α)} (h : (entries.map Prod.fst).Nodup) :
    (ofList entries).entries.Perm entries := by
  refine (List.perm_ext_iff_of_nodup ?_ ?_).mpr ?_
  · exact List.Nodup.of_map Prod.fst (ofList entries).ordered.nodup
  · exact List.Nodup.of_map Prod.fst h
  · rintro ⟨k, v⟩
    rw [← get?_eq_some_iff, get?_ofList_eq_some_iff h]

theorem isEmpty_ofList {entries : List (String × α)} (h : entries ≠ []) :
    (ofList entries).isEmpty = false := by
  obtain ⟨entry, hentry⟩ := List.exists_mem_of_ne_nil entries h
  cases hempty : (ofList entries).isEmpty with
  | false => rfl
  | true =>
      have hentries : (ofList entries).entries = [] := List.isEmpty_iff.mp hempty
      have hnone : (ofList entries).get? entry.1 = none := by
        rw [get?, hentries, List.lookup_nil]
      rw [get?_ofList, List.lookup_eq_none_iff] at hnone
      have hne := hnone entry (List.mem_reverse.mpr hentry)
      simp at hne

/-- Collecting entries adds none. -/
theorem mem_of_mem_ofList {entries : List (String × α)} {entry : String × α}
    (h : entry ∈ (ofList entries).entries) : entry ∈ entries := by
  have hlookup : entries.reverse.lookup entry.1 = some entry.2 := by
    rw [← get?_ofList]
    exact get?_eq_some_iff.mpr h
  obtain ⟨before, after, hsplit, -⟩ := List.lookup_eq_some_iff.mp hlookup
  rw [← List.mem_reverse, hsplit]
  exact List.mem_append_right _ List.mem_cons_self

def filter (dict : Dict α) (keep : String → α → Bool) : Dict α :=
  ⟨dict.entries.filter fun entry => keep entry.1 entry.2,
    dict.ordered.sublist (List.filter_sublist.map Prod.fst)⟩

theorem get?_filter_eq_some_iff {dict : Dict α} {keep : String → α → Bool} {k : String} {v : α} :
    (dict.filter keep).get? k = some v ↔ dict.get? k = some v ∧ keep k v = true := by
  rw [get?_eq_some_iff, get?_eq_some_iff, filter, List.mem_filter]

theorem ofList_of_ordered {entries : List (String × α)} (h : Ordered entries) :
    (ofList entries).entries = entries :=
  congrArg Dict.entries (ofList_entries ⟨entries, h⟩)

end Dict

end RowPolicy
