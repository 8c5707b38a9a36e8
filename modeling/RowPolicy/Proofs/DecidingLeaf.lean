import RowPolicy.Proofs.SafeRules
import RowPolicy.Proofs.VisitedNodes

/-!
# The deciding leaf of a trace

The first leaf of a trace that allowed is named as the deciding one. An allowed request always has
such a leaf, and all composites above it allowed as well, unless it stands in an "all of" that failed
at a later sub-rule. Through such a conjunction a denied request may have one, too.
-/

namespace RowPolicy

namespace TraceStep

/-- The path of one step goes on from the path of the other behind a dot. -/
def Above (upper lower : TraceStep) : Prop := ∃ rest, lower.path = upper.path ++ "." ++ rest

def IsFailedConjunction (step : TraceStep) : Prop := step.node = .all ∧ step.outcome = false

def IsAllowingLeaf (step : TraceStep) : Prop :=
  step.outcome = true ∧ step.node ≠ .all ∧ step.node ≠ .any

end TraceStep

theorem isAllowingLeaf_iff {step : TraceStep} :
    (step.outcome && step.node != .all && step.node != .any) = true ↔ step.IsAllowingLeaf := by
  simp [TraceStep.IsAllowingLeaf, and_assoc]

theorem decidingLeaf?_sound {trace : List TraceStep} {step : TraceStep}
    (h : decidingLeaf? trace = some step) : step ∈ trace ∧ step.IsAllowingLeaf := by
  have hfound := List.find?_some h
  exact ⟨List.mem_of_find?_eq_some h, isAllowingLeaf_iff.mp hfound⟩

theorem exists_decidingLeaf? {trace : List TraceStep} {step : TraceStep} (hmem : step ∈ trace)
    (hstep : step.IsAllowingLeaf) : ∃ first, decidingLeaf? trace = some first := by
  rw [← Option.isSome_iff_exists, decidingLeaf?, List.find?_isSome]
  exact ⟨step, hmem, isAllowingLeaf_iff.mpr hstep⟩

namespace Rule

variable {principal : Principal} {record : Option Record}

/-! ## Leaves that allow -/

theorem exists_first_allowing {rules : List Rule}
    (h : ∃ rule ∈ rules, rule.evaluate principal record = true) :
    ∃ i rule, rules[i]? = some rule ∧ Passes principal record .any rules i ∧
      rule.evaluate principal record = true := by
  induction rules with
  | nil =>
      obtain ⟨rule, hmem, -⟩ := h
      cases hmem
  | cons first rules ih =>
      cases hfirst : first.evaluate principal record with
      | true => exact ⟨0, first, rfl, passes_zero _ _, hfirst⟩
      | false =>
          have hrest : ∃ rule ∈ rules, rule.evaluate principal record = true := by
            obtain ⟨rule, hmem, hrule⟩ := h
            rcases List.mem_cons.mp hmem with rfl | hmem
            · rw [hfirst] at hrule
              cases hrule
            · exact ⟨rule, hmem, hrule⟩
          obtain ⟨i, rule, hget, hpasses, hrule⟩ := ih hrest
          exact ⟨i + 1, rule, hget, passes_succ_iff.mpr ⟨hfirst, hpasses⟩, hrule⟩

/-- A composite that allows has a visited sub-rule that does. -/
theorem exists_allowing_child {connective : Connective} {rules : List Rule} (hne : rules ≠ [])
    (h : (composite connective rules).evaluate principal record = true) :
    ∃ i rule, rules[i]? = some rule ∧ Passes principal record connective rules i ∧
      rule.evaluate principal record = true := by
  cases connective with
  | any => exact exists_first_allowing (evaluate_any.mp h)
  | all =>
      obtain ⟨first, rest, rfl⟩ := List.exists_cons_of_ne_nil hne
      exact ⟨0, first, rfl, passes_zero _ _, evaluate_all.mp h first List.mem_cons_self⟩

theorem Safe.exists_allowing_leaf {attributes : List String} {rule : Rule}
    (hsafe : rule.Safe attributes) (h : rule.evaluate principal record = true) :
    ∃ position node, (position, node) ∈ visited principal record rule ∧
      node.evaluate principal record = true ∧ node.kind ≠ .all ∧ node.kind ≠ .any := by
  simp only [mem_visited_iff]
  induction hsafe with
  | unrestricted =>
      exact ⟨[], _, ⟨rfl, reaches_nil _⟩, h, NodeKind.noConfusion, NodeKind.noConfusion⟩
  | @leaf condition _ =>
      refine ⟨[], _, ⟨rfl, reaches_nil _⟩, h, ?_⟩
      cases condition <;> exact ⟨NodeKind.noConfusion, NodeKind.noConfusion⟩
  | composite hne _ ih =>
      obtain ⟨i, rule, hrule, hpasses, hallows⟩ := exists_allowing_child hne h
      obtain ⟨position, node, ⟨hnode, hreaches⟩, hleaf⟩ :=
        ih rule (List.mem_of_getElem? hrule) hallows
      refine ⟨_, node, ⟨(nodeAt?_cons hrule position).trans hnode, ?_⟩, hleaf⟩
      exact (reaches_cons_iff hrule).mpr ⟨hpasses, hreaches⟩

/-! ## Conjunctions that failed -/

/-- Between a node that denies and one below it that allows, an "all of" denies. -/
theorem exists_failed_conjunction {rule node : Rule} {position : Position}
    (hnode : rule.nodeAt? position = some node) (hdenies : rule.evaluate principal record = false)
    (hallows : node.evaluate principal record = true) :
    ∃ above branch below rules, position = above ++ branch :: below ∧
      rule.nodeAt? above = some (composite .all rules) ∧
      (composite .all rules).evaluate principal record = false := by
  -- On the way down, the first node to allow stands directly below the conjunction.
  induction position generalizing rule with
  | nil =>
      rw [nodeAt?_nil, Option.some_inj] at hnode
      rw [hnode, hallows] at hdenies
      cases hdenies
  | cons branch position ih =>
      obtain ⟨rules, sub, rfl, hsub, hbelow⟩ := exists_composite_of_nodeAt?_cons hnode
      obtain ⟨connective, i⟩ := branch
      cases houtcome : sub.evaluate principal record with
      | false =>
          obtain ⟨above, branch, below, failed, rfl, hfailed, houtcome⟩ := ih hbelow houtcome
          exact ⟨⟨connective, i⟩ :: above, branch, below, failed, rfl,
            (nodeAt?_cons hsub above).trans hfailed, houtcome⟩
      | true =>
          cases connective with
          | all => exact ⟨[], ⟨.all, i⟩, position, rules, rfl, rfl, hdenies⟩
          | any =>
              rw [evaluate_any.mpr ⟨sub, List.mem_of_getElem? hsub, houtcome⟩] at hdenies
              cases hdenies

/-! ## Steps above others -/

theorem stepAt_above_iff {root : String} {upper lower : Position × Rule} :
    (stepAt principal record root upper).Above (stepAt principal record root lower) ↔
      ∃ branch below, lower.1 = upper.1 ++ branch :: below := by
  rw [← Position.exists_text_eq_append_dot_iff]
  simp only [TraceStep.Above, stepAt, String.append_assoc, String.append_right_inj]

/-- A denying step above an allowing one is a failed conjunction or has one below it. -/
theorem exists_failed_step {root : String} {rule : Rule} {upper lower : TraceStep}
    (hupper : upper ∈ (visit principal record root rule).2)
    (hlower : lower ∈ (visit principal record root rule).2) (habove : upper.Above lower)
    (hdenies : upper.outcome = false) (hallows : lower.outcome = true) :
    ∃ failed ∈ (visit principal record root rule).2, failed.IsFailedConjunction ∧
      failed.Above lower ∧ (failed = upper ∨ upper.Above failed) := by
  rw [visit_snd] at hupper hlower ⊢
  obtain ⟨⟨p, node⟩, hnode, rfl⟩ := List.mem_map.mp hupper
  obtain ⟨⟨q, leaf⟩, hleaf, rfl⟩ := List.mem_map.mp hlower
  obtain ⟨branch, below, rfl⟩ := stepAt_above_iff.mp habove
  obtain ⟨hnode, -⟩ := mem_visited_iff.mp hnode
  obtain ⟨hleaf, hreaches⟩ := mem_visited_iff.mp hleaf
  rw [nodeAt?_append, hnode, Option.bind_some] at hleaf
  obtain ⟨above, branch', rest, rules, hsplit, hfailed, houtcome⟩ :=
    exists_failed_conjunction hleaf hdenies hallows
  have hposition : p ++ branch :: below = (p ++ above) ++ branch' :: rest := by
    rw [hsplit, List.append_assoc]
  have hvisited : (p ++ above, composite .all rules) ∈ visited principal record rule := by
    rw [mem_visited_iff, nodeAt?_append, hnode]
    rw [hposition] at hreaches
    exact ⟨hfailed, hreaches.of_append⟩
  refine ⟨_, List.mem_map_of_mem hvisited, ⟨rfl, houtcome⟩, ?_, ?_⟩
  · exact stepAt_above_iff.mpr ⟨branch', rest, hposition⟩
  · cases above with
    | nil =>
        rw [nodeAt?_nil, Option.some_inj] at hfailed
        left
        rw [List.append_nil, hfailed]
    | cons first above => exact Or.inr (stepAt_above_iff.mpr ⟨first, above, rfl⟩)

theorem eq_root_or_above {root : String} {rule : Rule} {step : TraceStep}
    (h : step ∈ (visit principal record root rule).2) :
    step = ⟨root, rule.kind, rule.evaluate principal record⟩ ∨
      TraceStep.Above ⟨root, rule.kind, rule.evaluate principal record⟩ step := by
  rw [visit_snd] at h
  obtain ⟨⟨position, node⟩, hvisited, rfl⟩ := List.mem_map.mp h
  rw [← stepAt_root]
  cases position with
  | nil =>
      obtain ⟨hnode, -⟩ := mem_visited_iff.mp hvisited
      rw [nodeAt?_nil, Option.some_inj] at hnode
      exact Or.inl (by rw [hnode])
  | cons branch position => exact Or.inr (stepAt_above_iff.mpr ⟨branch, position, rfl⟩)

/-- A rule that denies allows only below a failed conjunction. -/
theorem exists_failed_step_of_denied {root : String} {rule : Rule} {step : TraceStep}
    (hdenied : rule.evaluate principal record = false)
    (hmem : step ∈ (visit principal record root rule).2) (hallows : step.outcome = true) :
    ∃ failed ∈ (visit principal record root rule).2, failed.IsFailedConjunction ∧
      failed.Above step := by
  have hroot := List.mem_of_getLast? (@getLast?_visit principal record root rule)
  rcases eq_root_or_above hmem with rfl | habove
  · rw [hdenied] at hallows
    cases hallows
  · obtain ⟨failed, hfailed, hconjunction, hstep, -⟩ :=
      exists_failed_step hroot hmem habove hdenied hallows
    exact ⟨failed, hfailed, hconjunction, hstep⟩

end Rule

/-- An allowed request has a deciding leaf. A step above it that denies is an "all of" that failed
after the leaf, or stands above such a one; a denied request has a deciding leaf below such an
"all of" only. -/
theorem deciding_leaf_upto_failed_conjunctions {compiler : Compiler} {raws : Operation → Json}
    {set : PolicySet} (h : compiler.compileSet (raws .read) (raws .write) = .ok set)
    (operation : Operation) (principal : Principal) (record : Option Record) :
    ∃ trace, (set.decideTraced operation principal record).trace = some trace ∧
      ((set.decideTraced operation principal record).allow = false →
        ∀ step, decidingLeaf? trace = some step →
          ∃ failed ∈ trace, failed.IsFailedConjunction ∧ failed.Above step) ∧
      ((set.decideTraced operation principal record).allow = true →
        ∃ step, decidingLeaf? trace = some step ∧ step.IsAllowingLeaf ∧
          ∀ upper ∈ trace, upper.Above step → upper.outcome = false →
            ∃ failed ∈ trace, failed.IsFailedConjunction ∧ failed.Above step ∧
              (failed = upper ∨ upper.Above failed)) := by
  rw [PolicySet.decideTraced_allow]
  refine ⟨_, rfl, ?denied, ?allowed⟩
  case denied =>
    intro hdenied step hstep
    obtain ⟨hmem, houtcome, -⟩ := decidingLeaf?_sound hstep
    exact Rule.exists_failed_step_of_denied hdenied hmem houtcome
  case allowed =>
    intro hallowed
    obtain ⟨position, node, hvisited, hnode, hkind⟩ :=
      (compiles_of_compileSet h operation).safe.exists_allowing_leaf hallowed
    have hallows := Rule.stepAt_mem_visit operation.name hvisited
    obtain ⟨step, hstep⟩ := exists_decidingLeaf? hallows ⟨hnode, hkind⟩
    obtain ⟨hmem, hleaf⟩ := decidingLeaf?_sound hstep
    refine ⟨step, hstep, hleaf, ?_⟩
    intro upper hupper habove hdenies
    exact Rule.exists_failed_step hupper hmem habove hdenies hleaf.1

/-! ## A conjunction that fails after its first sub-rule -/

/-- What only administrators may do, with an open rule ahead of the test. -/
def guarded : Json := .object [("$and", .array
  [.object [], .object [("user_condition", .object [("role", .string "admin")])]])]

/-- Writing is guarded, and reading is open by an alternative after the guarded one. -/
def guardedRaws : Operation → Json
  | .read => .object [("$or", .array [guarded, .object []])]
  | .write => guarded

def guardedRule : Rule :=
  .composite .all
    [.unrestricted, .leaf (.attributeMatch (Dict.ofList [("role", .string "admin")]))]

def guardedSet : PolicySet := ⟨.composite .any [guardedRule, .unrestricted], guardedRule⟩

theorem deciding_leaf_upto_failed_conjunctions_guarded :
    Compiler.compileSet {} (guardedRaws .read) (guardedRaws .write) = .ok guardedSet ∧
    (∃ step, (guardedSet.decideTraced .read .anonymous none).trace.bind decidingLeaf? = some step ∧
      step.IsAllowingLeaf) ∧
    ∃ failed : TraceStep, failed.IsFailedConjunction ∧
      failed.Above ⟨"write.$and[0]", .unrestricted, true⟩ := by
  have hcompile : Compiler.compileSet {} (guardedRaws .read) (guardedRaws .write) =
      .ok guardedSet := rfl
  refine ⟨hcompile, ?_, ?_⟩
  · obtain ⟨trace, htrace, -, hallowed⟩ :=
      deciding_leaf_upto_failed_conjunctions hcompile .read .anonymous none
    obtain ⟨step, hstep, hleaf, -⟩ := hallowed (by decide +kernel)
    exact ⟨step, by rw [htrace, Option.bind_some, hstep], hleaf⟩
  · obtain ⟨trace, htrace, hdenied, -⟩ :=
      deciding_leaf_upto_failed_conjunctions hcompile .write .anonymous none
    have hleaf : (guardedSet.decideTraced .write .anonymous none).trace.bind decidingLeaf? =
        some ⟨"write.$and[0]", .unrestricted, true⟩ := by decide +kernel
    rw [htrace, Option.bind_some] at hleaf
    obtain ⟨failed, -, hfailed⟩ := hdenied (by decide +kernel) _ hleaf
    exact ⟨failed, hfailed⟩

/-- Writing is denied and reading is allowed, and either way the deciding leaf is the open rule ahead
of the failed test of the role. -/
theorem deciding_leaf_in_failed_conjunction :
    Compiler.compileSet {} (guardedRaws .read) (guardedRaws .write) = .ok guardedSet ∧
    ((guardedSet.decideTraced .write .anonymous none).allow = false ∧
      (guardedSet.decideTraced .write .anonymous none).trace.bind decidingLeaf? =
        some ⟨"write.$and[0]", .unrestricted, true⟩) ∧
    (guardedSet.decideTraced .read .anonymous none).allow = true ∧
    (guardedSet.decideTraced .read .anonymous none).trace.bind decidingLeaf? =
      some ⟨"read.$or[0].$and[0]", .unrestricted, true⟩ ∧
    (∃ trace, (guardedSet.decideTraced .read .anonymous none).trace = some trace ∧
      ⟨"read.$or[0]", .all, false⟩ ∈ trace) ∧
    TraceStep.Above ⟨"read.$or[0]", .all, false⟩ ⟨"read.$or[0].$and[0]", .unrestricted, true⟩ := by
  refine ⟨rfl, ⟨by decide +kernel, by decide +kernel⟩, by decide +kernel, by decide +kernel,
    ⟨_, rfl, by decide +kernel⟩, "$and[0]", by decide⟩

end RowPolicy
