import RowPolicy.Proofs.Evaluation
import RowPolicy.Proofs.PositionText

/-!
# The nodes that a decision visits

A composite is left at the first sub-rule that settles it, so a decision visits a node exactly when no
composite above it is settled to the left of the way down. The trace lists the visited nodes in
post-order, each with the text of its position, its kind and the outcome of its evaluation.
-/

namespace RowPolicy

/-! ## Post-order -/

namespace Position

/-- The order of positions in which sub-rules come before their composite, and from left to right. -/
inductive Precedes : Position → Position → Prop
  | composite (branch : Branch) (p : Position) : Precedes (branch :: p) []
  | sibling {a b : Branch} (p q : Position) : a.index < b.index → Precedes (a :: p) (b :: q)
  | within (branch : Branch) {p q : Position} : Precedes p q → Precedes (branch :: p) (branch :: q)

theorem Precedes.ne {p q : Position} (h : Precedes p q) : p ≠ q := by
  induction h with
  | composite branch p => exact List.cons_ne_nil branch p
  | sibling p q hlt =>
      intro heq
      obtain ⟨rfl, -⟩ := List.cons.inj heq
      exact Nat.lt_irrefl _ hlt
  | within branch _ ih =>
      intro heq
      exact ih (List.cons.inj heq).2

end Position

namespace Rule

variable {principal : Principal} {record : Option Record}

/-! ## Visited positions -/

/-- None of the sub-rules before an index settles the composite. -/
def Passes (principal : Principal) (record : Option Record) (connective : Connective)
    (rules : List Rule) (index : Nat) : Prop :=
  ∀ i < index, ∀ rule, rules[i]? = some rule →
    rule.evaluate principal record = !connective.settles

/-- On the way to a position no composite is settled by a sub-rule left of the way. -/
def Reaches (principal : Principal) (record : Option Record) (rule : Rule)
    (position : Position) : Prop :=
  ∀ above branch below, position = above ++ branch :: below →
    ∀ i < branch.index, ∀ sibling, rule.nodeAt? (above ++ [⟨branch.connective, i⟩]) = some sibling →
      sibling.evaluate principal record = !branch.connective.settles

/-- Every composite is settled by its last sub-rule or by none. -/
def StopsAtEnd (principal : Principal) (record : Option Record) (rule : Rule) : Prop :=
  ∀ position connective rules, rule.nodeAt? position = some (composite connective rules) →
    ∀ i sub, rules[i]? = some sub → sub.evaluate principal record = connective.settles →
      i + 1 = rules.length

mutual

def visited (principal : Principal) (record : Option Record) : Rule → List (Position × Rule)
  | .composite connective rules =>
    visitedUntil principal record connective 0 rules ++ [([], .composite connective rules)]
  | rule => [([], rule)]

def visitedUntil (principal : Principal) (record : Option Record) (connective : Connective)
    (index : Nat) : List Rule → List (Position × Rule)
  | [] => []
  | rule :: rules =>
    let first := (visited principal record rule).map fun found =>
      (⟨connective, index⟩ :: found.1, found.2)
    if evaluate principal record rule = connective.settles then first
    else first ++ visitedUntil principal record connective (index + 1) rules

end

theorem passes_zero (connective : Connective) (rules : List Rule) :
    Passes principal record connective rules 0 :=
  fun i hi => absurd hi (Nat.not_lt_zero i)

theorem passes_succ_iff {connective : Connective} {rule : Rule} {rules : List Rule} {index : Nat} :
    Passes principal record connective (rule :: rules) (index + 1) ↔
      rule.evaluate principal record = (!connective.settles) ∧
        Passes principal record connective rules index := by
  constructor
  · intro h
    refine ⟨h 0 (Nat.succ_pos _) rule rfl, ?_⟩
    intro i hi sub hsub
    exact h (i + 1) (Nat.succ_lt_succ hi) sub hsub
  · rintro ⟨hfirst, hrest⟩ i hi sub hsub
    cases i with
    | zero =>
        cases hsub
        exact hfirst
    | succ i => exact hrest i (Nat.lt_of_succ_lt_succ hi) sub hsub

theorem reaches_nil (rule : Rule) : rule.Reaches principal record [] := by
  intro above branch below heq
  simp at heq

theorem reaches_cons_iff {connective : Connective} {rules : List Rule} {i : Nat} {rule : Rule}
    (h : rules[i]? = some rule) {position : Position} :
    (composite connective rules).Reaches principal record (⟨connective, i⟩ :: position) ↔
      Passes principal record connective rules i ∧ rule.Reaches principal record position := by
  constructor
  · intro hreaches
    constructor
    · intro j hj sibling hsibling
      apply hreaches [] ⟨connective, i⟩ position rfl j hj
      rw [List.nil_append, nodeAt?_singleton]
      exact hsibling
    · intro above branch below heq j hj sibling hsibling
      apply hreaches (⟨connective, i⟩ :: above) branch below (by rw [heq]; rfl) j hj
      rw [List.cons_append, nodeAt?_cons h]
      exact hsibling
  · rintro ⟨hpasses, hbelow⟩ above branch below heq j hj sibling hsibling
    cases above with
    | nil =>
        obtain ⟨rfl, -⟩ := List.cons.inj heq
        rw [List.nil_append, nodeAt?_singleton] at hsibling
        exact hpasses j hj sibling hsibling
    | cons first above =>
        obtain ⟨rfl, hposition⟩ := List.cons.inj heq
        rw [List.cons_append, nodeAt?_cons h] at hsibling
        exact hbelow above branch below hposition j hj sibling hsibling

theorem Reaches.of_append {rule : Rule} {p q : Position}
    (h : rule.Reaches principal record (p ++ q)) : rule.Reaches principal record p := by
  intro above branch below heq
  apply h above branch (below ++ q)
  rw [heq, List.append_assoc, List.cons_append]

/-! ## The list of visited nodes -/

theorem mem_visitedUntil_iff {connective : Connective} {index : Nat} {rules : List Rule}
    {position : Position} {node : Rule} :
    (position, node) ∈ visitedUntil principal record connective index rules ↔
      ∃ i rule rest, rules[i]? = some rule ∧ Passes principal record connective rules i ∧
        (rest, node) ∈ visited principal record rule ∧
        position = ⟨connective, index + i⟩ :: rest := by
  induction rules generalizing index with
  | nil => simp [visitedUntil]
  | cons rule rules ih =>
      have hfirst : (position, node) ∈ (visited principal record rule).map
          (fun found => (⟨connective, index⟩ :: found.1, found.2)) ↔
          ∃ rest, (rest, node) ∈ visited principal record rule ∧
            position = ⟨connective, index⟩ :: rest := by
        simp only [List.mem_map, Prod.exists, Prod.mk.injEq]
        grind
      rw [visitedUntil]
      constructor
      · intro h
        split at h
        · obtain ⟨rest, hrest, rfl⟩ := hfirst.mp h
          exact ⟨0, rule, rest, rfl, passes_zero _ _, hrest, rfl⟩
        · next hnot =>
          rcases List.mem_append.mp h with h | h
          · obtain ⟨rest, hrest, rfl⟩ := hfirst.mp h
            exact ⟨0, rule, rest, rfl, passes_zero _ _, hrest, rfl⟩
          · obtain ⟨i, sub, rest, hsub, hpasses, hrest, rfl⟩ := ih.mp h
            refine ⟨i + 1, sub, rest, hsub, ?_, hrest, ?_⟩
            · exact passes_succ_iff.mpr ⟨Bool.eq_not.mpr hnot, hpasses⟩
            · rw [Nat.add_right_comm, Nat.add_assoc]
      · rintro ⟨i, sub, rest, hsub, hpasses, hrest, rfl⟩
        cases i with
        | zero =>
            cases hsub
            have hmem := hfirst.mpr ⟨rest, hrest, rfl⟩
            split
            · exact hmem
            · exact List.mem_append_left _ hmem
        | succ i =>
            obtain ⟨hrule, hpasses⟩ := passes_succ_iff.mp hpasses
            rw [if_neg (Bool.eq_not.mp hrule)]
            apply List.mem_append_right
            apply ih.mpr
            exact ⟨i, sub, rest, hsub, hpasses, hrest, by rw [Nat.add_right_comm, Nat.add_assoc]⟩

/-- The list of visited nodes holds a node exactly when the evaluation reaches its position. -/
theorem mem_visited_iff {rule : Rule} {position : Position} {node : Rule} :
    (position, node) ∈ visited principal record rule ↔
      rule.nodeAt? position = some node ∧ rule.Reaches principal record position := by
  induction rule generalizing position node with
  | unrestricted =>
      simp only [visited, List.mem_singleton, Prod.mk.injEq, nodeAt?_unrestricted]
      refine ⟨fun h => ⟨h, ?_⟩, And.left⟩
      rw [h.1]
      exact reaches_nil _
  | leaf condition =>
      simp only [visited, List.mem_singleton, Prod.mk.injEq, nodeAt?_leaf]
      refine ⟨fun h => ⟨h, ?_⟩, And.left⟩
      rw [h.1]
      exact reaches_nil _
  | composite connective rules ih =>
      rw [visited, List.mem_append, mem_visitedUntil_iff, List.mem_singleton, Prod.mk.injEq]
      constructor
      · rintro (⟨i, rule, rest, hrule, hpasses, hrest, rfl⟩ | ⟨rfl, rfl⟩)
        · obtain ⟨hnode, hreaches⟩ := (ih rule (List.mem_of_getElem? hrule)).mp hrest
          rw [Nat.zero_add, nodeAt?_cons hrule, reaches_cons_iff hrule]
          exact ⟨hnode, hpasses, hreaches⟩
        · exact ⟨nodeAt?_nil _, reaches_nil _⟩
      · rintro ⟨hnode, hreaches⟩
        cases position with
        | nil =>
            cases hnode
            exact Or.inr ⟨rfl, rfl⟩
        | cons branch rest =>
            obtain ⟨_, rule, heq, hrule, hbelow⟩ := exists_composite_of_nodeAt?_cons hnode
            cases heq
            obtain ⟨hpasses, hreaches⟩ := (reaches_cons_iff hrule).mp hreaches
            have hrest := (ih rule (List.mem_of_getElem? hrule)).mpr ⟨hbelow, hreaches⟩
            exact Or.inl ⟨branch.index, rule, rest, hrule, hpasses, hrest, by rw [Nat.zero_add]⟩

theorem pairwise_visitedUntil {connective : Connective} {index : Nat} {rules : List Rule}
    (h : ∀ rule ∈ rules,
      (visited principal record rule).Pairwise fun a b => Position.Precedes a.1 b.1) :
    (visitedUntil principal record connective index rules).Pairwise
      fun a b => Position.Precedes a.1 b.1 := by
  induction rules generalizing index with
  | nil => exact List.Pairwise.nil
  | cons rule rules ih =>
      obtain ⟨hrule, hrules⟩ := List.forall_mem_cons.mp h
      have hfirst : ((visited principal record rule).map fun found =>
          ((⟨connective, index⟩ : Branch) :: found.1, found.2)).Pairwise
          fun a b => Position.Precedes a.1 b.1 := by
        rw [List.pairwise_map]
        exact hrule.imp fun hbefore => .within _ hbefore
      rw [visitedUntil]
      split
      · exact hfirst
      · rw [List.pairwise_append]
        refine ⟨hfirst, ih hrules, ?_⟩
        rintro a ha ⟨position, node⟩ hb
        obtain ⟨found, -, rfl⟩ := List.mem_map.mp ha
        obtain ⟨i, _, rest, -, -, -, rfl⟩ := mem_visitedUntil_iff.mp hb
        exact .sibling _ _ (by omega : index < index + 1 + i)

theorem pairwise_visited (rule : Rule) :
    (visited principal record rule).Pairwise fun a b => Position.Precedes a.1 b.1 := by
  induction rule with
  | unrestricted => exact List.pairwise_singleton _ _
  | leaf condition => exact List.pairwise_singleton _ _
  | composite connective rules ih =>
      rw [visited, List.pairwise_append]
      refine ⟨pairwise_visitedUntil ih, List.pairwise_singleton _ _, ?_⟩
      rintro ⟨position, node⟩ ha b hb
      obtain ⟨i, _, rest, -, -, -, rfl⟩ := mem_visitedUntil_iff.mp ha
      obtain rfl := List.mem_singleton.mp hb
      exact .composite _ _

theorem nodup_visited_positions (rule : Rule) :
    ((visited principal record rule).map Prod.fst).Nodup := by
  rw [List.Nodup, List.pairwise_map]
  exact rule.pairwise_visited.imp fun hbefore => hbefore.ne

@[simp] theorem getLast?_visited (rule : Rule) :
    (visited principal record rule).getLast? = some ([], rule) := by
  cases rule with
  | unrestricted => rfl
  | leaf condition => rfl
  | composite connective rules => rw [visited, List.getLast?_concat]

theorem length_visited_pos (rule : Rule) : 0 < (visited principal record rule).length :=
  List.length_pos_of_mem (List.mem_of_getLast? rule.getLast?_visited)

/-! ## Counting visited nodes -/

theorem length_visited_le (rule : Rule) :
    (visited principal record rule).length ≤ rule.nodeCount ∧
      ((visited principal record rule).length = rule.nodeCount ↔
        ∀ position, (rule.nodeAt? position).isSome → rule.Reaches principal record position) := by
  have hmem : ∀ position, position ∈ (visited principal record rule).map Prod.fst ↔
      (rule.nodeAt? position).isSome ∧ rule.Reaches principal record position := by
    intro position
    simp only [List.mem_map, Prod.exists, exists_and_right, exists_eq_right, mem_visited_iff,
      Option.isSome_iff_exists]
  have hsubset : (visited principal record rule).map Prod.fst ⊆ rule.positions := by
    intro position hposition
    exact mem_positions_iff.mpr ((hmem position).mp hposition).1
  -- Both lists of positions are without repetitions, so lengths compare as the positions do.
  have hsubperm := List.subperm_of_subset rule.nodup_visited_positions hsubset
  rw [← length_positions, ← List.length_map Prod.fst]
  refine ⟨hsubperm.length_le, ?_⟩
  constructor
  · intro hlength position hposition
    have hperm := hsubperm.perm_of_length_le hlength.ge
    have hvisited := hperm.mem_iff.mpr (mem_positions_iff.mpr hposition)
    exact ((hmem position).mp hvisited).2
  · intro hreaches
    apply hsubperm.length_le.antisymm
    apply (List.subperm_of_subset rule.nodup_positions _).length_le
    intro position hposition
    have hnode := mem_positions_iff.mp hposition
    exact (hmem position).mpr ⟨hnode, hreaches position hnode⟩

/-- Every node is reached exactly when no composite leaves sub-rules out. -/
theorem stopsAtEnd_iff {rule : Rule} : rule.StopsAtEnd principal record ↔
    ∀ position, (rule.nodeAt? position).isSome → rule.Reaches principal record position := by
  constructor
  · rintro hstops position hposition above branch below rfl i hi sibling hsibling
    -- A sub-rule left of the way is not the last one, for the way goes through a later one.
    rw [nodeAt?_append, Option.bind_eq_some_iff] at hsibling
    obtain ⟨upper, hupper, hsibling⟩ := hsibling
    obtain ⟨rules, sub, rfl, hsub, hself⟩ := exists_composite_of_nodeAt?_cons hsibling
    rw [nodeAt?_nil, Option.some_inj] at hself
    rw [hself] at hsub
    rw [nodeAt?_append, hupper, Option.bind_some] at hposition
    obtain ⟨node, hnode⟩ := Option.isSome_iff_exists.mp hposition
    obtain ⟨_, next, heq, hnext, -⟩ := exists_composite_of_nodeAt?_cons hnode
    cases heq
    rw [Bool.eq_not]
    intro hsettles
    have hlast := hstops above _ rules hupper i sibling hsub hsettles
    have hindex := (List.getElem?_eq_some_iff.mp hnext).1
    omega
  · intro hreaches position connective rules hcomposite i sub hsub hsettles
    have hi := (List.getElem?_eq_some_iff.mp hsub).1
    have hbelow : ∀ j, rule.nodeAt? (position ++ [⟨connective, j⟩]) = rules[j]? := by
      intro j
      rw [nodeAt?_append, hcomposite, Option.bind_some, nodeAt?_singleton]
    by_contra hne
    -- The sub-rule after one that settles the composite is not reached.
    have hnext : (rule.nodeAt? (position ++ [⟨connective, i + 1⟩])).isSome := by
      rw [hbelow, List.getElem?_eq_getElem (by omega)]
      rfl
    have hpassed := hreaches _ hnext position _ [] rfl i (Nat.lt_succ_self i) sub
      ((hbelow i).trans hsub)
    rw [hsettles] at hpassed
    exact Bool.eq_not.mp hpassed rfl

/-! ## Steps of a trace -/

/-- The step of a visited node in a trace whose root has a name. -/
def stepAt (principal : Principal) (record : Option Record) (root : String)
    (found : Position × Rule) : TraceStep :=
  ⟨root ++ found.1.text, found.2.kind, found.2.evaluate principal record⟩

theorem stepAt_root (path : String) (rule : Rule) :
    stepAt principal record path ([], rule) =
      ⟨path, rule.kind, rule.evaluate principal record⟩ := by
  rw [stepAt, Position.text, String.append_empty]

theorem stepAt_childPath (path : String) (connective : Connective) (index : Nat)
    (found : Position × Rule) :
    stepAt principal record (childPath path connective index) found =
      stepAt principal record path (⟨connective, index⟩ :: found.1, found.2) := by
  simp only [stepAt, childPath, Position.text, Branch.text, String.append_assoc]

theorem visitUntil_snd {path : String} {connective : Connective} {index : Nat} {rules : List Rule}
    (h : ∀ rule ∈ rules, ∀ here, (visit principal record here rule).2 =
      (visited principal record rule).map (stepAt principal record here)) :
    (visitUntil principal record path connective index rules).2 =
      (visitedUntil principal record connective index rules).map
        (stepAt principal record path) := by
  induction rules generalizing index with
  | nil => rfl
  | cons rule rules ih =>
      obtain ⟨hrule, hrules⟩ := List.forall_mem_cons.mp h
      have hfirst : (visit principal record (childPath path connective index) rule).2 =
          ((visited principal record rule).map fun found =>
            ((⟨connective, index⟩ : Branch) :: found.1, found.2)).map
              (stepAt principal record path) := by
        rw [hrule, List.map_map]
        apply List.map_congr_left
        intro found _
        exact stepAt_childPath path connective index found
      rw [visitUntil, visitedUntil]
      simp only [visit_fst]
      split
      · exact hfirst
      · rw [List.map_append, ← hfirst, ← ih hrules]

/-- A trace lists the visited nodes. -/
theorem visit_snd (path : String) (rule : Rule) :
    (visit principal record path rule).2 =
      (visited principal record rule).map (stepAt principal record path) := by
  induction rule generalizing path with
  | unrestricted => exact congrArg (fun step => [step]) (stepAt_root path unrestricted).symm
  | leaf condition => exact congrArg (fun step => [step]) (stepAt_root path (leaf condition)).symm
  | composite connective rules ih =>
      have houtcome := @visit_fst principal record path (composite connective rules)
      rw [visit] at houtcome
      rw [visit, visited, List.map_append, List.map_singleton, stepAt_root, ← houtcome]
      simp only [visitUntil_snd fun rule hrule here => ih rule hrule here]
      rfl

theorem stepAt_mem_visit (path : String) {rule : Rule} {found : Position × Rule}
    (h : found ∈ visited principal record rule) :
    stepAt principal record path found ∈ (visit principal record path rule).2 := by
  rw [visit_snd]
  exact List.mem_map_of_mem h

theorem getLast?_visit (path : String) (rule : Rule) :
    (visit principal record path rule).2.getLast? =
      some ⟨path, rule.kind, rule.evaluate principal record⟩ := by
  rw [visit_snd, List.getLast?_map, getLast?_visited, Option.map_some, stepAt_root]

/-- A step of a visit is about a node of the rule: it has the node's position, kind and outcome. -/
theorem exists_node_of_mem_visit {rule : Rule} {path : String} {step : TraceStep}
    (h : step ∈ (visit principal record path rule).2) :
    ∃ position node, rule.nodeAt? position = some node ∧
      step = ⟨path ++ position.text, node.kind, node.evaluate principal record⟩ := by
  rw [visit_snd, List.mem_map] at h
  obtain ⟨⟨position, node⟩, hfound, rfl⟩ := h
  exact ⟨position, node, (mem_visited_iff.mp hfound).1, rfl⟩

theorem map_path_stepAt (root : String) (found : List (Position × Rule)) :
    (found.map (stepAt principal record root)).map TraceStep.path =
      (found.map Prod.fst).map fun position => root ++ position.text := by
  rw [List.map_map, List.map_map]
  rfl

theorem nodup_visit_paths (path : String) (rule : Rule) :
    ((visit principal record path rule).2.map TraceStep.path).Nodup := by
  rw [visit_snd, map_path_stepAt]
  apply rule.nodup_visited_positions.map
  intro p q heq
  exact Position.text_injective (String.append_right_inj path |>.mp heq)

end Rule

/-- A trace lists the nodes that the evaluation reaches and no others, in post-order: each with the
text of its position behind the name of the operation, its kind and its outcome. The root comes last,
no two steps have one path, and every node has a step just when each composite is settled by its last
sub-rule or by none. -/
theorem trace_lists_visited_nodes (set : PolicySet) (operation : Operation) (principal : Principal)
    (record : Option Record) :
    (∃ nodes : List (Position × Rule),
      (∀ position node, (position, node) ∈ nodes ↔
        (set.rule operation).nodeAt? position = some node ∧
          (set.rule operation).Reaches principal record position) ∧
      nodes.Pairwise (fun a b => Position.Precedes a.1 b.1) ∧ (nodes.map Prod.fst).Nodup ∧
      (set.decideTraced operation principal record).trace = some (nodes.map fun found =>
        ⟨operation.name ++ found.1.text, found.2.kind, found.2.evaluate principal record⟩)) ∧
    ∃ trace, (set.decideTraced operation principal record).trace = some trace ∧
      trace.getLast? = some ⟨operation.name, (set.rule operation).kind,
        (set.decideTraced operation principal record).allow⟩ ∧
      (trace.map TraceStep.path).Nodup ∧
      1 ≤ trace.length ∧ trace.length ≤ (set.rule operation).nodeCount ∧
      (trace.length = (set.rule operation).nodeCount ↔
        (set.rule operation).StopsAtEnd principal record) := by
  have hsteps := @Rule.visit_snd principal record operation.name (set.rule operation)
  constructor
  · refine ⟨(set.rule operation).visited principal record, ?_, ?_, ?_, ?_⟩
    · exact fun position node => Rule.mem_visited_iff
    · exact (set.rule operation).pairwise_visited
    · exact (set.rule operation).nodup_visited_positions
    · exact congrArg some hsteps
  · obtain ⟨hle, heq⟩ := @Rule.length_visited_le principal record (set.rule operation)
    have hpos := @Rule.length_visited_pos principal record (set.rule operation)
    refine ⟨_, rfl, ?_, Rule.nodup_visit_paths _ _, ?_, ?_, ?_⟩
    · rw [PolicySet.decideTraced_allow]
      exact Rule.getLast?_visit _ _
    · rwa [hsteps, List.length_map]
    · rwa [hsteps, List.length_map]
    · rw [hsteps, List.length_map, heq, Rule.stopsAtEnd_iff]

end RowPolicy
