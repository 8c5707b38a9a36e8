import RowPolicy.Proofs.CompiledForm
import RowPolicy.Proofs.Pairing
import Mathlib.Data.Set.Card
import Mathlib.Order.Bounds.Basic

/-!
# Positions in rules

A position is a way from the root of a rule: which sub-rule to take at each composite. Positions in a
declared rule and in the rule that it compiles to are the same, and what is declared at a position
compiles to the node there. The number of nodes and the depth of a compiled rule are therefore counts
of declared rules.
-/

namespace RowPolicy

/-- The way from a composite to one of its sub-rules. -/
structure Branch where
  connective : Connective
  index : Nat
deriving DecidableEq

abbrev Position := List Branch

def Branch.text (branch : Branch) : String :=
  "." ++ branch.connective.operator ++ "[" ++ toString branch.index ++ "]"

namespace Position

/-- A position as it is written after the name of the root. -/
def text : Position → String
  | [] => ""
  | branch :: position => branch.text ++ text position

/-- What stands at a position below a root, when it is known what a root branches into. -/
def follow? {α : Type} (branches? : Connective → α → Option (List α)) : Position → α → Option α
  | [], root => some root
  | branch :: position, root =>
    (branches? branch.connective root).bind fun children =>
      children[branch.index]?.bind (follow? branches? position)

end Position

def Json.branches? (connective : Connective) : Json → Option (List Json)
  | .object [(key, .array items)] => if key = connective.operator then some items else none
  | _ => none

def Json.ruleAt? (raw : Json) (position : Position) : Option Json :=
  position.follow? Json.branches? raw

namespace Rule

def branches? (connective : Connective) : Rule → Option (List Rule)
  | .composite connective' rules => if connective' = connective then some rules else none
  | _ => none

def nodeAt? (rule : Rule) (position : Position) : Option Rule := position.follow? branches? rule

mutual

def positions : Rule → List Position
  | .composite connective rules => [] :: positionsFrom connective 0 rules
  | _ => [[]]

/-- The positions in sub-rules, the first of which has the given index. -/
def positionsFrom (connective : Connective) (index : Nat) : List Rule → List Position
  | [] => []
  | rule :: rules =>
    (positions rule).map (⟨connective, index⟩ :: ·) ++ positionsFrom connective (index + 1) rules

end

end Rule

/-! ## The same positions -/

/-- Roots that branch into related children have related children at every position. -/
theorem Position.rel_follow? {α β : Type} {R : α → β → Prop}
    {branches? : Connective → α → Option (List α)} {branches?' : Connective → β → Option (List β)}
    (hbranches : ∀ a b, R a b → ∀ connective,
      Option.Rel (List.Forall₂ R) (branches? connective a) (branches?' connective b))
    (position : Position) {a : α} {b : β} (h : R a b) :
    Option.Rel R (position.follow? branches? a) (position.follow? branches?' b) := by
  induction position generalizing a b with
  | nil => exact .some h
  | cons branch position ih =>
      apply rel_bind (hbranches a b h branch.connective)
      intro as bs hchildren
      apply rel_bind (rel_getElem? hchildren branch.index)
      intro a b hchild
      exact ih hchild

variable {scope : Namespace} {raw : Json} {rule : Rule}

theorem operator_injective {a b : Connective} (h : a.operator = b.operator) : a = b := by
  have hsame := connective?_operator a
  rw [h, connective?_operator, Option.some_inj] at hsame
  exact hsame.symm

theorem Compiles.branches (h : Compiles scope raw rule) (connective : Connective) :
    Option.Rel (List.Forall₂ (Compiles scope)) (raw.branches? connective)
      (rule.branches? connective) := by
  cases h with
  | unrestricted => exact .none
  | composite connective' _ hlength hcompiles =>
      rw [Json.branches?, Rule.branches?]
      by_cases hsame : connective' = connective
      · rw [if_pos (congrArg Connective.operator hsame), if_pos hsame]
        exact .some (forall₂_of_zip hlength hcompiles)
      · rw [if_neg (mt operator_injective hsame), if_neg hsame]
        exact .none
  | condition _ _ => exact .none
  | @literal field value _ hplain =>
      cases value with
      | array items => cases hplain
      | null => exact .none
      | bool value => exact .none
      | number value => exact .none
      | string text => exact .none
      | object members => exact .none
  | template _ _ _ => exact .none

/-- What is declared at a position compiles to the node there. -/
theorem Compiles.ruleAt (h : Compiles scope raw rule) (position : Position) :
    Option.Rel (Compiles scope) (raw.ruleAt? position) (rule.nodeAt? position) :=
  position.rel_follow? (fun _ _ hchild => hchild.branches) h

/-! ## Counting nodes -/

namespace Rule

@[simp] theorem nodeAt?_nil (rule : Rule) : rule.nodeAt? [] = some rule := rfl

theorem nodeAt?_cons_composite {connective : Connective} {rules : List Rule} {branch : Branch}
    {position : Position} :
    (composite connective rules).nodeAt? (branch :: position) =
      if connective = branch.connective then
        rules[branch.index]?.bind fun rule => rule.nodeAt? position
      else none := by
  rw [nodeAt?, Position.follow?, branches?]
  split <;> rfl

@[simp] theorem nodeAt?_singleton {connective : Connective} {rules : List Rule} {i : Nat} :
    (composite connective rules).nodeAt? [⟨connective, i⟩] = rules[i]? := by
  rw [nodeAt?_cons_composite, if_pos rfl]
  cases rules[i]? with
  | none => rfl
  | some rule => rfl

theorem nodeAt?_cons {connective : Connective} {rules : List Rule} {i : Nat} {rule : Rule}
    (h : rules[i]? = some rule) (position : Position) :
    (composite connective rules).nodeAt? (⟨connective, i⟩ :: position) =
      rule.nodeAt? position := by
  rw [nodeAt?_cons_composite, if_pos rfl, h, Option.bind_some]

/-- Only a composite has nodes below it, and they are nodes of its sub-rules. -/
theorem exists_composite_of_nodeAt?_cons {rule : Rule} {branch : Branch} {position : Position}
    {node : Rule} (h : rule.nodeAt? (branch :: position) = some node) :
    ∃ rules sub, rule = composite branch.connective rules ∧ rules[branch.index]? = some sub ∧
      sub.nodeAt? position = some node := by
  cases rule with
  | unrestricted => cases h
  | leaf condition => cases h
  | composite connective rules =>
      rw [nodeAt?_cons_composite] at h
      split at h
      · next hsame =>
        obtain ⟨sub, hsub, hnode⟩ := Option.bind_eq_some_iff.mp h
        exact ⟨rules, sub, by rw [hsame], hsub, hnode⟩
      · cases h

theorem nodeAt?_append (rule : Rule) (p q : Position) :
    rule.nodeAt? (p ++ q) = (rule.nodeAt? p).bind fun node => node.nodeAt? q := by
  induction p generalizing rule with
  | nil => rw [List.nil_append, nodeAt?_nil, Option.bind_some]
  | cons branch p ih =>
      cases rule with
      | unrestricted => rfl
      | leaf condition => rfl
      | composite connective rules =>
          rw [List.cons_append, nodeAt?_cons_composite, nodeAt?_cons_composite]
          split
          · rw [Option.bind_assoc]
            congr 1
            funext sub
            exact ih sub
          · rfl

@[simp] theorem nodeAt?_unrestricted {position : Position} {node : Rule} :
    unrestricted.nodeAt? position = some node ↔ position = [] ∧ node = unrestricted := by
  cases position <;> simp [nodeAt?, Position.follow?, branches?, eq_comm]

@[simp] theorem nodeAt?_leaf {condition : Condition} {position : Position} {node : Rule} :
    (leaf condition).nodeAt? position = some node ↔ position = [] ∧ node = leaf condition := by
  cases position <;> simp [nodeAt?, Position.follow?, branches?, eq_comm]

theorem length_positionsFrom {connective : Connective} {index : Nat} {rules : List Rule}
    (h : ∀ rule ∈ rules, rule.positions.length = rule.nodeCount) :
    (positionsFrom connective index rules).length = nodeCounts rules := by
  induction rules generalizing index with
  | nil => rfl
  | cons rule rules ih =>
      obtain ⟨hrule, hrules⟩ := List.forall_mem_cons.mp h
      rw [positionsFrom, nodeCounts, List.length_append, List.length_map, hrule, ih hrules]

@[simp] theorem length_positions (rule : Rule) : rule.positions.length = rule.nodeCount := by
  induction rule with
  | unrestricted => rfl
  | composite connective rules ih =>
      rw [positions, nodeCount, List.length_cons, length_positionsFrom ih, Nat.add_comm]
  | leaf condition => rfl

theorem mem_positionsFrom {connective : Connective} {index : Nat} {rules : List Rule}
    {position : Position} : position ∈ positionsFrom connective index rules ↔
      ∃ i rule rest, rules[i]? = some rule ∧ rest ∈ rule.positions ∧
        position = ⟨connective, index + i⟩ :: rest := by
  induction rules generalizing index with
  | nil => simp [positionsFrom]
  | cons rule rules ih =>
      rw [positionsFrom, List.mem_append, List.mem_map, ih]
      constructor
      · rintro (⟨rest, hrest, rfl⟩ | ⟨i, rule', rest, hrule, hrest, rfl⟩)
        · exact ⟨0, rule, rest, rfl, hrest, rfl⟩
        · exact ⟨i + 1, rule', rest, hrule, hrest, by rw [Nat.add_right_comm, Nat.add_assoc]⟩
      · rintro ⟨i, rule', rest, hrule, hrest, rfl⟩
        cases i with
        | zero =>
            cases hrule
            exact Or.inl ⟨rest, hrest, rfl⟩
        | succ i => exact Or.inr ⟨i, rule', rest, hrule, hrest, by rw [Nat.add_right_comm, Nat.add_assoc]⟩

@[simp] theorem mem_positions_iff {rule : Rule} {position : Position} :
    position ∈ rule.positions ↔ (rule.nodeAt? position).isSome := by
  induction rule generalizing position with
  | unrestricted => simp [positions, Option.isSome_iff_exists]
  | leaf condition => simp [positions, Option.isSome_iff_exists]
  | composite connective rules ih =>
      cases position with
      | nil => simp [positions]
      | cons branch rest =>
          rw [positions, List.mem_cons, mem_positionsFrom]
          constructor
          · rintro (heq | ⟨i, rule, rest', hrule, hrest, heq⟩)
            · cases heq
            · cases heq
              rw [Nat.zero_add, nodeAt?_cons hrule, ← ih rule (List.mem_of_getElem? hrule)]
              exact hrest
          · intro h
            obtain ⟨node, hnode⟩ := Option.isSome_iff_exists.mp h
            obtain ⟨_, rule, heq, hrule, hbelow⟩ := exists_composite_of_nodeAt?_cons hnode
            cases heq
            have hrest : rest ∈ rule.positions :=
              (ih rule (List.mem_of_getElem? hrule)).mpr (Option.isSome_of_eq_some hbelow)
            exact Or.inr ⟨branch.index, rule, rest, hrule, hrest, by rw [Nat.zero_add]⟩

theorem nodup_positionsFrom {connective : Connective} {index : Nat} {rules : List Rule}
    (h : ∀ rule ∈ rules, rule.positions.Nodup) : (positionsFrom connective index rules).Nodup := by
  induction rules generalizing index with
  | nil => exact List.nodup_nil
  | cons rule rules ih =>
      obtain ⟨hrule, hrules⟩ := List.forall_mem_cons.mp h
      rw [positionsFrom]
      -- Positions in the first sub-rule and in later ones differ in the index they start with.
      apply (hrule.map (List.cons_injective)).append (ih hrules)
      intro position hfirst hrest
      obtain ⟨rest, -, rfl⟩ := List.mem_map.mp hfirst
      obtain ⟨i, _, _, -, -, heq⟩ := mem_positionsFrom.mp hrest
      have hindex : index = index + 1 + i := congrArg Branch.index (List.cons.inj heq).1
      omega

theorem nodup_positions (rule : Rule) : rule.positions.Nodup := by
  induction rule with
  | unrestricted => exact List.nodup_singleton _
  | leaf condition => exact List.nodup_singleton _
  | composite connective rules ih =>
      rw [positions, List.nodup_cons]
      refine ⟨?_, nodup_positionsFrom ih⟩
      intro hmem
      obtain ⟨_, _, _, -, -, heq⟩ := mem_positionsFrom.mp hmem
      cases heq

theorem encard_positions (rule : Rule) :
    {position | (rule.nodeAt? position).isSome}.encard = rule.nodeCount := by
  have hpositions : {position | (rule.nodeAt? position).isSome} =
      (rule.positions.toFinset : Set Position) := by
    ext position
    simp
  rw [hpositions, Set.encard_coe_eq_coe_finsetCard, List.toFinset_card_of_nodup rule.nodup_positions,
    length_positions]

theorem depth_le_depths {rules : List Rule} {rule : Rule} (h : rule ∈ rules) :
    rule.depth ≤ depths rules := by
  induction rules with
  | nil => cases h
  | cons first rules ih =>
      rw [depths]
      rcases List.mem_cons.mp h with rfl | hrest
      · exact Nat.le_max_left _ _
      · exact (ih hrest).trans (Nat.le_max_right _ _)

theorem exists_depth_eq_depths {rules : List Rule} (h : rules ≠ []) :
    ∃ rule ∈ rules, rule.depth = depths rules := by
  induction rules with
  | nil => exact absurd rfl h
  | cons first rules ih =>
      rw [depths]
      rcases Nat.le_total (depths rules) first.depth with hle | hle
      · exact ⟨first, List.mem_cons_self, (Nat.max_eq_left hle).symm⟩
      · by_cases hrest : rules = []
        · subst hrest
          exact ⟨first, List.mem_cons_self, by simp [depths]⟩
        · obtain ⟨rule, hrule, hdepth⟩ := ih hrest
          refine ⟨rule, List.mem_cons_of_mem _ hrule, ?_⟩
          rw [hdepth, Nat.max_eq_right hle]

theorem one_le_depth (rule : Rule) : 1 ≤ rule.depth := by
  cases rule with
  | unrestricted => exact Nat.le_refl _
  | composite connective rules => exact Nat.le_add_right 1 _
  | leaf condition => exact Nat.le_refl _

theorem length_lt_depth {rule : Rule} {position : Position}
    (h : (rule.nodeAt? position).isSome) : position.length + 1 ≤ rule.depth := by
  induction position generalizing rule with
  | nil => exact rule.one_le_depth
  | cons branch position ih =>
      obtain ⟨node, hnode⟩ := Option.isSome_iff_exists.mp h
      obtain ⟨rules, child, rfl, hchild, hbelow⟩ := exists_composite_of_nodeAt?_cons hnode
      have hdepth := depth_le_depths (List.mem_of_getElem? hchild)
      have hrest := ih (Option.isSome_of_eq_some hbelow)
      rw [List.length_cons, depth]
      omega

theorem exists_position_of_depth (rule : Rule) :
    ∃ position, (rule.nodeAt? position).isSome ∧ rule.depth = position.length + 1 := by
  induction rule with
  | unrestricted => exact ⟨[], rfl, rfl⟩
  | leaf condition => exact ⟨[], rfl, rfl⟩
  | composite connective rules ih =>
      by_cases hempty : rules = []
      · subst hempty
        exact ⟨[], rfl, rfl⟩
      · obtain ⟨child, hchild, hdepth⟩ := exists_depth_eq_depths hempty
        obtain ⟨position, hposition, hlength⟩ := ih child hchild
        obtain ⟨i, hi⟩ := List.getElem?_of_mem hchild
        refine ⟨⟨connective, i⟩ :: position, ?_, ?_⟩
        · rw [nodeAt?_cons hi]
          exact hposition
        · rw [depth, ← hdepth, hlength, List.length_cons, Nat.add_comm]

/-- The depth is the length of the longest chain of nodes, each a sub-rule of the one before. -/
theorem isGreatest_depth (rule : Rule) :
    IsGreatest {length | ∃ position, (rule.nodeAt? position).isSome ∧
      length = position.length + 1} rule.depth := by
  refine ⟨rule.exists_position_of_depth, ?_⟩
  rintro length ⟨position, hposition, rfl⟩
  exact length_lt_depth hposition

end Rule

end RowPolicy
