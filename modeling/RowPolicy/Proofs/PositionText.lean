import RowPolicy.Proofs.RulePositions
import RowPolicy.Proofs.TextSpan

/-!
# Texts of positions

The text of a position can be cut into its branches in one way only: an operator ends at a bracket
and an index at the bracket that closes it. The text of a position therefore starts with the text of
another one exactly when the position goes on from the other one.
-/

namespace RowPolicy

@[simp] theorem Branch.toList_text (branch : Branch) :
    branch.text.toList = '.' :: (branch.connective.operator.toList ++
      '[' :: (Nat.toDigits 10 branch.index ++ [']'])) := by
  simp [text]

theorem Branch.text_unique {a b : Branch} {rest rest' : List Char}
    (h : a.text.toList ++ rest = b.text.toList ++ rest') : a = b ∧ rest = rest' := by
  obtain ⟨connective, i⟩ := a
  obtain ⟨connective', j⟩ := b
  simp only [toList_text, List.cons_append, List.append_assoc, List.nil_append] at h
  have hafter := (List.cons.inj h).2
  -- The operators differ in the letter after the dollar sign.
  have hoperator : connective = connective' := by
    cases connective <;> cases connective' <;> simp [Connective.operator] at hafter <;> rfl
  subst hoperator
  have hindices := (List.cons.inj (List.append_cancel_left hafter)).2
  have hstops : ∀ rest, Text.Stops Char.isDigit (']' :: rest) := fun _ =>
    Text.stops_cons.mpr (by decide)
  obtain ⟨rfl, htail⟩ := Text.toDigits_unique (hstops rest) (hstops rest') hindices
  exact ⟨rfl, (List.cons.inj htail).2⟩

namespace Position

@[simp] theorem text_append (p q : Position) : (p ++ q).text = p.text ++ q.text := by
  induction p with
  | nil => rw [List.nil_append, text, String.empty_append]
  | cons branch p ih => rw [List.cons_append, text, text, ih, String.append_assoc]

@[simp] theorem toList_text_cons (branch : Branch) (p : Position) :
    (text (branch :: p)).toList = branch.text.toList ++ p.text.toList := by
  rw [text, String.toList_append]

theorem exists_append_of_text {p q : Position} {rest : List Char}
    (h : q.text.toList = p.text.toList ++ rest) :
    ∃ below, q = p ++ below ∧ rest = below.text.toList := by
  induction p generalizing q with
  | nil => exact ⟨q, rfl, h.symm⟩
  | cons branch p ih =>
      rw [toList_text_cons, List.append_assoc] at h
      cases q with
      | nil => simp [text] at h
      | cons branch' q =>
          rw [toList_text_cons] at h
          obtain ⟨rfl, hrest⟩ := Branch.text_unique h
          obtain ⟨below, rfl, hbelow⟩ := ih hrest
          exact ⟨below, rfl, hbelow⟩

theorem eq_nil_of_text {p : Position} (h : p.text.toList = []) : p = [] := by
  cases p with
  | nil => rfl
  | cons branch p => simp at h

theorem text_injective {p q : Position} (h : p.text = q.text) : p = q := by
  have hchars : q.text.toList = p.text.toList ++ [] := by rw [h, List.append_nil]
  obtain ⟨below, rfl, hbelow⟩ := exists_append_of_text hchars
  rw [eq_nil_of_text hbelow.symm, List.append_nil]

/-- A text goes on from that of a position behind a dot exactly below the position. -/
theorem exists_text_eq_append_dot_iff {p q : Position} :
    (∃ rest, q.text = p.text ++ "." ++ rest) ↔ ∃ branch below, q = p ++ branch :: below := by
  constructor
  · rintro ⟨rest, h⟩
    have hchars : q.text.toList = p.text.toList ++ '.' :: rest.toList := by
      rw [h]
      simp
    obtain ⟨below, rfl, hbelow⟩ := exists_append_of_text hchars
    cases below with
    | nil => simp [text] at hbelow
    | cons branch below => exact ⟨branch, below, rfl⟩
  · rintro ⟨branch, below, rfl⟩
    refine ⟨String.ofList ((text (branch :: below)).toList.tail), ?_⟩
    apply String.toList_injective
    simp

end Position

end RowPolicy
