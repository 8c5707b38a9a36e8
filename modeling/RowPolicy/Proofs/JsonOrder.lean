import RowPolicy.Json.Basic
import RowPolicy.Proofs.DictLookup

/-!
# Members in key order

Sorting leaves a canonical value alone, and does not hide any member of an object whose keys are
distinct. What a canonical value holds is canonical.
-/

namespace RowPolicy

namespace Json

@[simp] theorem sortedItems_eq_map (items : List Json) : sortedItems items = items.map sorted := by
  induction items with
  | nil => rfl
  | cons item items ih => rw [sortedItems, ih, List.map_cons]

@[simp] theorem sortedMembers_eq_map (members : List (String × Json)) :
    sortedMembers members = members.map fun member => (member.1, member.2.sorted) := by
  induction members with
  | nil => rfl
  | cons member members ih => rw [sortedMembers, ih, List.map_cons]

@[simp] theorem lookup_sortedMembers (members : List (String × Json)) (key : String) :
    (sortedMembers members).lookup key = (members.lookup key).map sorted := by
  induction members with
  | nil => rfl
  | cons member members ih =>
      obtain ⟨name, value⟩ := member
      rw [sortedMembers, lookup_cons_ite, lookup_cons_ite, ih]
      split <;> rfl

@[simp] theorem map_fst_sortedMembers (members : List (String × Json)) :
    (sortedMembers members).map Prod.fst = members.map Prod.fst := by
  rw [sortedMembers_eq_map, List.map_map]
  rfl

/-- The members of a sorted object, when they are known in their order. -/
theorem sorted_object_of_perm {members ordered : List (String × Json)} (h : Ordered ordered)
    (hperm : (sortedMembers members).Perm ordered) : (object members).sorted = object ordered := by
  have hkeys : ((sortedMembers members).map Prod.fst).Nodup :=
    (hperm.map Prod.fst).nodup_iff.mpr h.nodup
  rw [sorted, ofDict, Dict.ofList_eq_of_perm hkeys hperm, Dict.ofList_of_ordered h]

theorem lookup_sorted {members : List (String × Json)} (h : (members.map Prod.fst).Nodup)
    {key : String} {value : Json} (hvalue : (members.lookup key).map sorted = some value) :
    (Dict.ofList (sortedMembers members)).entries.lookup key = some value := by
  have hkeys : ((sortedMembers members).map Prod.fst).Nodup := by rwa [map_fst_sortedMembers]
  rw [← lookup_sortedMembers] at hvalue
  exact (Dict.get?_ofList_of_nodup hkeys key).trans hvalue

mutual

/-- The recursion is on the value, over all containers at once. -/
theorem sorted_of_canonical : ∀ {json : Json}, json.Canonical → json.sorted = json
  | .null, _ | .bool _, _ | .number _, _ | .string _, _ => rfl
  | .array items, h => by rw [sorted, sortedItems_of_canonical h]
  | .object members, h => by
      obtain ⟨hordered, hmembers⟩ := h
      rw [sorted, sortedMembers_of_canonical hmembers, ofDict, Dict.ofList_of_ordered hordered]

theorem sortedItems_of_canonical :
    ∀ {items : List Json}, CanonicalItems items → sortedItems items = items
  | [], _ => rfl
  | item :: items, h => by
      rw [sortedItems, sorted_of_canonical h.1, sortedItems_of_canonical h.2]

theorem sortedMembers_of_canonical :
    ∀ {members : List (String × Json)}, CanonicalMembers members → sortedMembers members = members
  | [], _ => rfl
  | (key, value) :: members, h => by
      rw [sortedMembers, sorted_of_canonical h.1, sortedMembers_of_canonical h.2]

end

theorem canonical_of_mem_items {items : List Json} (h : (array items).Canonical) {item : Json}
    (hitem : item ∈ items) : item.Canonical :=
  canonicalItems_iff.mp h item hitem

theorem canonical_of_lookup {members : List (String × Json)} (h : (object members).Canonical)
    {key : String} {value : Json} (hvalue : members.lookup key = some value) :
    value.Canonical := by
  have hmem : (key, value) ∈ members := (lookup_eq_some_iff_mem h.1.nodup).mp hvalue
  exact canonicalMembers_iff.mp h.2 (key, value) hmem

end Json

end RowPolicy
