import Mathlib.Data.List.Forall2

/-!
# Lists paired element by element

Two lists are paired when they are of one length and each element is related to the one across. What
stands at one place of both is then related, or missing from both.
-/

namespace RowPolicy

variable {α β : Type} {R : α → β → Prop} {as : List α} {bs : List β}

/-- Lists are paired when they are of one length and what stands at one place is related. -/
theorem forall₂_of_zip (hlength : as.length = bs.length) (h : ∀ a b, (a, b) ∈ as.zip bs → R a b) :
    List.Forall₂ R as bs :=
  List.forall₂_iff_zip.mpr ⟨hlength, fun {a b} => h a b⟩

theorem forall₂_map_left_of_mem {f : β → α} (h : ∀ b ∈ bs, R (f b) b) :
    List.Forall₂ R (bs.map f) bs := by
  rw [List.forall₂_map_left_iff, List.forall₂_same]
  exact h

theorem forall₂_of_mapM_eq_some {f : α → Option β} (h : as.mapM f = some bs) :
    List.Forall₂ (fun a b => f a = some b) as bs := by
  induction as generalizing bs with
  | nil =>
      cases h
      exact .nil
  | cons a as ih =>
      rw [List.mapM_cons] at h
      obtain ⟨b, hfirst, h⟩ := Option.bind_eq_some_iff.mp h
      obtain ⟨rest, hrest, h⟩ := Option.bind_eq_some_iff.mp h
      cases h
      exact .cons hfirst (ih hrest)

theorem exists_right_of_forall₂ (h : List.Forall₂ R as bs) {a : α} (ha : a ∈ as) :
    ∃ b ∈ bs, R a b := by
  induction h with
  | nil => cases ha
  | cons hfirst _ ih =>
      rcases List.mem_cons.mp ha with rfl | ha
      · exact ⟨_, List.mem_cons_self, hfirst⟩
      · obtain ⟨b, hb, hab⟩ := ih ha
        exact ⟨b, List.mem_cons_of_mem _ hb, hab⟩

theorem exists_left_of_forall₂ (h : List.Forall₂ R as bs) {b : β} (hb : b ∈ bs) :
    ∃ a ∈ as, R a b := by
  obtain ⟨a, ha, hab⟩ := exists_right_of_forall₂ h.flip hb
  exact ⟨a, ha, hab⟩

/-- Where partners have distinct keys, two elements that only have partners of one key are the
same. -/
theorem eq_of_forall₂_of_nodup {κ : Type} {key : β → κ} (h : List.Forall₂ R as bs)
    (hnodup : (bs.map key).Nodup) {a a' : α} (ha : a ∈ as) (ha' : a' ∈ as)
    (hkey : ∀ b b', R a b → R a' b' → key b = key b') : a = a' := by
  induction h with
  | nil => cases ha
  | cons hfirst hrest ih =>
      rw [List.map_cons, List.nodup_cons] at hnodup
      rcases List.mem_cons.mp ha with rfl | hin
      · rcases List.mem_cons.mp ha' with rfl | hin'
        · rfl
        · obtain ⟨b', hb', hR⟩ := exists_right_of_forall₂ hrest hin'
          exact absurd (List.mem_map.mpr ⟨b', hb', (hkey _ b' hfirst hR).symm⟩) hnodup.1
      · rcases List.mem_cons.mp ha' with rfl | hin'
        · obtain ⟨b', hb', hR⟩ := exists_right_of_forall₂ hrest hin
          exact absurd (List.mem_map.mpr ⟨b', hb', hkey b' _ hR hfirst⟩) hnodup.1
        · exact ih hnodup.2 hin hin'

theorem exists_forall₂_of_forall_mem (h : ∀ a ∈ as, ∃ b, R a b) : ∃ bs, List.Forall₂ R as bs := by
  induction as with
  | nil => exact ⟨[], .nil⟩
  | cons a as ih =>
      obtain ⟨hfirst, hrest⟩ := List.forall_mem_cons.mp h
      obtain ⟨b, hab⟩ := hfirst
      obtain ⟨bs, hbs⟩ := ih hrest
      exact ⟨b :: bs, .cons hab hbs⟩

/-- Lists that are both paired with a third one are paired with each other. -/
theorem forall₂_of_common {γ : Type} {S : α → γ → Prop} {T : β → γ → Prop} {cs : List γ}
    (h : List.Forall₂ R as bs) (h' : List.Forall₂ S as cs)
    (hstep : ∀ a ∈ as, ∀ b c, R a b → S a c → T b c) : List.Forall₂ T bs cs := by
  induction h generalizing cs with
  | nil =>
      obtain rfl := List.forall₂_nil_left_iff.mp h'
      exact .nil
  | cons hfirst _ ih =>
      obtain ⟨c, cs', hfirst', hrest', rfl⟩ := List.forall₂_cons_left_iff.mp h'
      obtain ⟨hhead, htail⟩ := List.forall_mem_cons.mp hstep
      exact .cons (hhead _ _ hfirst hfirst') (ih hrest' htail)

/-! ## Optional values -/

theorem rel_refl {R : α → α → Prop} (h : ∀ a, R a a) (a? : Option α) : Option.Rel R a? a? := by
  cases a? with
  | none => exact .none
  | some a => exact .some (h a)

theorem rel_symm {R : α → α → Prop} (h : ∀ a b, R a b → R b a) {a? b? : Option α}
    (hab : Option.Rel R a? b?) : Option.Rel R b? a? := by
  cases hab with
  | none => exact .none
  | some hab => exact .some (h _ _ hab)

theorem rel_bind {γ δ : Type} {S : γ → δ → Prop} {a? : Option α} {b? : Option β}
    {f : α → Option γ} {g : β → Option δ}
    (h : Option.Rel R a? b?) (hnext : ∀ a b, R a b → Option.Rel S (f a) (g b)) :
    Option.Rel S (a?.bind f) (b?.bind g) := by
  cases h with
  | none => exact .none
  | some hab => exact hnext _ _ hab

theorem eq_of_rel {a? : Option α} {b? b'? : Option β} (hR : ∀ a b b', R a b → R a b' → b = b')
    (h : Option.Rel R a? b?) (h' : Option.Rel R a? b'?) : b? = b'? := by
  cases h with
  | none =>
      cases h'
      rfl
  | some hab =>
      cases h' with
      | some hab' => rw [hR _ _ _ hab hab']

theorem isSome_eq_of_rel {a? : Option α} {b? : Option β} (h : Option.Rel R a? b?) :
    a?.isSome = b?.isSome := by
  cases h with
  | none => rfl
  | some _ => rfl

theorem exists_right_of_rel {a : α} {b? : Option β} (h : Option.Rel R (some a) b?) :
    ∃ b, b? = some b ∧ R a b := by
  cases h with
  | some hab => exact ⟨_, rfl, hab⟩

theorem exists_left_of_rel {a? : Option α} {b : β} (h : Option.Rel R a? (some b)) :
    ∃ a, a? = some a ∧ R a b := by
  cases h with
  | some hab => exact ⟨_, rfl, hab⟩

theorem rel_getElem? (h : List.Forall₂ R as bs) (i : Nat) :
    Option.Rel R as[i]? bs[i]? := by
  induction h generalizing i with
  | nil => exact .none
  | cons hfirst _ ih =>
      cases i with
      | zero => exact .some hfirst
      | succ i => exact ih i

end RowPolicy
