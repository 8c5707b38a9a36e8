/-!
# Dictionaries in key order

A finite map from strings, held as the list of its entries in strictly increasing key order.
The order is that of code points, which is also the order of the UTF-8 bytes. Two dictionaries
that answer every look-up alike are therefore the same list.
-/

namespace RowPolicy

def Ordered {α : Type} (entries : List (String × α)) : Prop :=
  (entries.map Prod.fst).Pairwise (· < ·)

namespace Ordered

variable {α : Type}

/-- Puts an entry in its place; an entry of the same key gives way. -/
def insert (key : String) (value : α) : List (String × α) → List (String × α)
  | [] => [(key, value)]
  | (k, v) :: rest =>
    if key < k then (key, value) :: (k, v) :: rest
    else if key = k then (key, value) :: rest
    else (k, v) :: insert key value rest

theorem mem_keys_insert {key : String} {value : α} {entries : List (String × α)} {k : String} :
    k ∈ (insert key value entries).map Prod.fst ↔ k = key ∨ k ∈ entries.map Prod.fst := by
  induction entries with
  | nil => simp [insert]
  | cons entry rest ih =>
    obtain ⟨k', v'⟩ := entry
    unfold insert
    split
    · simp
    · split
      · next h => subst h; simp
      · simp only [List.map_cons, List.mem_cons, ih]
        grind

theorem insert_ordered {key : String} {value : α} {entries : List (String × α)}
    (h : Ordered entries) : Ordered (insert key value entries) := by
  induction entries with
  | nil => simp [insert, Ordered]
  | cons entry rest ih =>
    obtain ⟨k', v'⟩ := entry
    simp only [Ordered, List.map_cons, List.pairwise_cons] at h
    unfold insert
    split
    · next hlt =>
      simp only [Ordered, List.map_cons, List.pairwise_cons, List.mem_cons]
      refine ⟨?_, h⟩
      rintro k (rfl | hk)
      · exact hlt
      · exact String.lt_trans hlt (h.1 k hk)
    · split
      · next heq =>
        subst heq
        simpa [Ordered, List.map_cons, List.pairwise_cons] using h
      · next hge hne =>
        simp only [Ordered, List.map_cons, List.pairwise_cons]
        refine ⟨?_, ih h.2⟩
        intro k hk
        rcases mem_keys_insert.mp hk with rfl | hk
        · exact Classical.byContradiction fun hn =>
            hne (String.le_antisymm (String.not_lt.mp hn) (String.not_lt.mp hge))
        · exact h.1 k hk

end Ordered

/-- A finite map from strings, as its entries in strictly increasing key order. -/
structure Dict (α : Type) where
  entries : List (String × α)
  ordered : Ordered entries

namespace Dict

variable {α β : Type}

instance [DecidableEq α] : DecidableEq (Dict α) := fun a b =>
  if h : a.entries = b.entries then isTrue (by cases a; cases b; simp_all)
  else isFalse fun hab => h (hab ▸ rfl)

def empty : Dict α := ⟨[], List.Pairwise.nil⟩

instance : Inhabited (Dict α) := ⟨empty⟩

def insert (dict : Dict α) (key : String) (value : α) : Dict α :=
  ⟨Ordered.insert key value dict.entries, Ordered.insert_ordered dict.ordered⟩

/-- Collects entries in any order; of repeated keys the last one wins. -/
def ofList (entries : List (String × α)) : Dict α :=
  entries.foldl (fun dict entry => dict.insert entry.1 entry.2) empty

def get? (dict : Dict α) (key : String) : Option α :=
  dict.entries.lookup key

def contains (dict : Dict α) (key : String) : Bool :=
  (dict.get? key).isSome

def keys (dict : Dict α) : List String :=
  dict.entries.map Prod.fst

def size (dict : Dict α) : Nat :=
  dict.entries.length

def isEmpty (dict : Dict α) : Bool :=
  dict.entries.isEmpty

end Dict

end RowPolicy
