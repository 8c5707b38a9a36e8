import RowPolicy.Proofs.CompileErrors
import RowPolicy.Proofs.VisitedNodes

/-!
# Paths of traces and locations of errors

A trace and a compile error name places of a rule by texts that are put together in different ways.
The path of a step is the name of the operation with the position of a node, and what the declared rule
has at this position compiles to the node. Were anything but an object written there, compiling would
fail, and the location of the error would be the path of the step.
-/

namespace RowPolicy

/-- A declared rule with a value in place of what stands at a position. -/
def Json.replaceAt : Json → Position → Json → Json
  | _, [], value => value
  | raw, branch :: position, value =>
    match raw.branches? branch.connective with
    | some items =>
      .object [(branch.connective.operator,
        .array (items.modify branch.index fun item => item.replaceAt position value))]
    | none => raw

def Location.descend (place : Location) (position : Position) : Location :=
  position.foldl
    (fun here branch => (here.member branch.connective.operator).item branch.index) place

/-! ## Locations of errors -/

section Locations

open Compiler

variable {compiler : Compiler} {place : Location}

theorem Location.member_item_ne_empty (place : Location) (branch : Branch) :
    (place.member branch.connective.operator).item branch.index ≠ "" := by
  intro h
  have hchars := congrArg String.toList h
  simp [item] at hchars

theorem Location.descend_of_ne_empty (h : place ≠ "") (position : Position) :
    place.descend position = place ++ position.text := by
  induction position generalizing place with
  | nil => rw [Position.text, String.append_empty]; rfl
  | cons branch position ih =>
      have hrest := ih (place.member_item_ne_empty branch)
      rw [member, if_neg h] at hrest
      rw [descend, List.foldl_cons, member, if_neg h]
      refine hrest.trans ?_
      simp only [item, Position.text, Branch.text, String.append_assoc]

/-- Seen from the root, a location is the text of the position without its first dot. -/
theorem Location.dot_descend_root (branch : Branch) (position : Position) :
    "." ++ Location.descend "" (branch :: position) = Position.text (branch :: position) := by
  have hrest := descend_of_ne_empty (member_item_ne_empty "" branch) position
  rw [member, if_pos rfl] at hrest
  rw [descend, List.foldl_cons, member, if_pos rfl]
  refine (congrArg ("." ++ ·) hrest).trans ?_
  simp only [item, Position.text, Branch.text, String.append_assoc]

theorem Location.descend_root_ne (branch : Branch) (position : Position) :
    Location.descend "" (branch :: position) ≠ "" ∧
      Location.descend "" (branch :: position) ≠ rootName := by
  have hdot := dot_descend_root branch position
  constructor
  · intro h
    rw [h] at hdot
    have hchars := congrArg String.toList hdot
    simp [Position.text, Branch.text] at hchars
  · intro h
    rw [h] at hdot
    have hchars := congrArg String.toList hdot
    cases hoperator : branch.connective <;>
      simp [Position.text, Branch.text, rootName, Connective.operator, hoperator] at hchars

/-- An error at a position has the location that a trace gives to the position, once it is put under
the operation. -/
theorem CompileError.under_descend (scope : String) (position : Position) (violation : Violation) :
    (CompileError.mk (Location.descend "" position).display violation).under scope =
      ⟨scope ++ position.text, violation⟩ := by
  -- The root has a name of its own in errors, which the operation replaces.
  cases position with
  | nil =>
      rw [Position.text, String.append_empty]
      rfl
  | cons branch position =>
      obtain ⟨hne, hroot⟩ := Location.descend_root_ne branch position
      rw [under, Location.display, if_neg hne, if_neg hroot, String.append_assoc,
        Location.dot_descend_root]

theorem compileItems_modify {items : List Json} {index i : Nat} {item : Json} {f : Json → Json}
    {error : CompileError}
    (hitems : ∀ item ∈ items, ∃ rule, Compiles compiler.scope item rule)
    (hitem : items[i]? = some item)
    (herror : compileAt compiler (place.item (index + i)) (f item) = .error error) :
    compileItems compiler place index (items.modify i f) = .error error := by
  obtain ⟨hi, rfl⟩ := List.getElem?_eq_some_iff.mp hitem
  apply compileItems_eq_error_iff.mpr
  refine ⟨items.take i, f items[i], items.drop (i + 1), List.modify_eq_take_cons_drop hi, ?_, ?_⟩
  · -- The loop gets past the elements before only because they compile.
    intro sibling hsibling
    exact hitems sibling (List.mem_of_mem_take hsibling)
  · rwa [List.length_take_of_le (Nat.le_of_lt hi)]

/-- Of a rule that compiles, with something else than an object written at one position, this position
is refused. -/
theorem compileAt_replaceAt {raw sub value : Json} {rule : Rule} {position : Position}
    (hraw : Compiles compiler.scope raw rule) (hsub : raw.ruleAt? position = some sub)
    (hvalue : value.members? = none) :
    compileAt compiler place (raw.replaceAt position value) =
      refuse (place.descend position) (.malformed (.notAnObject value.kindName)) := by
  induction position generalizing raw rule place with
  | nil =>
      rw [Json.replaceAt]
      cases value with
      | object members => cases hvalue
      | null => rfl
      | bool value => rfl
      | number value => rfl
      | string text => rfl
      | array items => rfl
  | cons branch position ih =>
      obtain ⟨items, hitems, hbelow⟩ := Option.bind_eq_some_iff.mp hsub
      obtain ⟨item, hitem, hsub⟩ := Option.bind_eq_some_iff.mp hbelow
      have hchildren := hraw.branches branch.connective
      rw [hitems] at hchildren
      obtain ⟨rules, -, hpairs⟩ := exists_right_of_rel hchildren
      have hcompiles : ∀ item ∈ items, ∃ rule, Compiles compiler.scope item rule := by
        intro item hitem
        obtain ⟨rule, -, hrule⟩ := exists_right_of_forall₂ hpairs hitem
        exact ⟨rule, hrule⟩
      obtain ⟨child, hchild⟩ := hcompiles item (List.mem_of_getElem? hitem)
      have hmodified : items.modify branch.index (·.replaceAt position value) ≠ [] := by
        intro hempty
        rw [List.modify_eq_nil_iff] at hempty
        rw [hempty] at hitem
        cases hitem
      have herror : compileItems compiler (place.member branch.connective.operator) 0
          (items.modify branch.index (·.replaceAt position value)) =
          refuse (place.descend (branch :: position)) (.malformed (.notAnObject value.kindName)) := by
        apply compileItems_modify hcompiles hitem
        rw [Nat.zero_add]
        exact ih hchild hsub
      simp only [Json.replaceAt, hitems]
      rw [compileAt, connective?_operator]
      simp only [compileComposite_array hmodified, herror]
      rfl

/-- The two declared rules of an entity, with a value in place of what one of them has at a position. -/
def replaceRule (raws : Operation → Json) (operation : Operation) (position : Position)
    (value : Json) : Operation → Json :=
  Function.update raws operation ((raws operation).replaceAt position value)

theorem compileFor_replaceAt {raw sub value : Json} {rule : Rule} {position : Position}
    (operation : Operation) (hraw : compiler.compile raw = .ok rule)
    (hsub : raw.ruleAt? position = some sub) (hvalue : value.members? = none) :
    compiler.compileFor operation (raw.replaceAt position value) =
      .error ⟨operation.name ++ position.text, .malformed (.notAnObject value.kindName)⟩ := by
  have herror : compiler.compile (raw.replaceAt position value) =
      refuse (Location.descend "" position) (.malformed (.notAnObject value.kindName)) :=
    compileAt_replaceAt (compile_eq_ok_iff.mp hraw) hsub hvalue
  rw [compileFor, herror, refuse, ← CompileError.under_descend]
  rfl

theorem compileSet_replaceRule {raws : Operation → Json} {set : PolicySet} {operation : Operation}
    {position : Position} {sub value : Json}
    (h : compiler.compileSet (raws .read) (raws .write) = .ok set)
    (hsub : (raws operation).ruleAt? position = some sub) (hvalue : value.members? = none) :
    compiler.compileSet (replaceRule raws operation position value .read)
        (replaceRule raws operation position value .write) =
      .error ⟨operation.name ++ position.text, .malformed (.notAnObject value.kindName)⟩ := by
  obtain ⟨hread, hwrite⟩ := Compiler.compileSet_eq_ok_iff.mp h
  cases operation with
  | read =>
      have herror := compileFor_replaceAt .read hread hsub hvalue
      rw [compileSet, replaceRule, Function.update_self, herror]
  | write =>
      have herror := compileFor_replaceAt .write hwrite hsub hvalue
      have hok : compiler.compileFor .read (raws .read) = .ok set.read := mapError_eq_ok_iff.mpr hread
      rw [compileSet, replaceRule, Function.update_self, Function.update_of_ne (by simp), hok]
      simp only [herror]

end Locations

/-- Declared rules that compile have the positions of the compiled rules, and as many of them as these
have nodes, in chains up to the depth. A step of a trace has the path of a position where the declared
rule compiles to a rule of the step's kind and outcome; with anything but an object there, compiling
fails at this path. -/
theorem trace_paths_locate_rules {compiler : Compiler} {raws : Operation → Json} {set : PolicySet}
    (h : compiler.compileSet (raws .read) (raws .write) = .ok set) (operation : Operation) :
    (∀ position, Option.Rel (fun sub node => compiler.compile sub = .ok node)
      ((raws operation).ruleAt? position) ((set.rule operation).nodeAt? position)) ∧
    {position | ((raws operation).ruleAt? position).isSome}.encard =
      (set.rule operation).nodeCount ∧
    IsGreatest {length | ∃ position, ((raws operation).ruleAt? position).isSome ∧
      length = position.length + 1} (set.rule operation).depth ∧
    ∀ principal record, ∃ trace, (set.decideTraced operation principal record).trace = some trace ∧
      ∀ step ∈ trace, ∃ position sub node,
        step.path = operation.name ++ position.text ∧
        (raws operation).ruleAt? position = some sub ∧
        compiler.compile sub = .ok node ∧ node.kind = step.node ∧
        node.evaluate principal record = step.outcome ∧
        ∀ value : Json, value.members? = none →
          compiler.compileSet (replaceRule raws operation position value .read)
              (replaceRule raws operation position value .write) =
            .error ⟨step.path, .malformed (.notAnObject value.kindName)⟩ := by
  have hcompiles := compiles_of_compileSet h operation
  have hpositions : ∀ position, Option.Rel (fun sub node => compiler.compile sub = .ok node)
      ((raws operation).ruleAt? position) ((set.rule operation).nodeAt? position) := by
    simp only [compile_eq_ok_iff]
    exact hcompiles.ruleAt
  refine ⟨hpositions, ?count, ?depth, ?steps⟩
  case count =>
    simp only [fun position => isSome_eq_of_rel (hpositions position)]
    exact (set.rule operation).encard_positions
  case depth =>
    simp only [fun position => isSome_eq_of_rel (hpositions position)]
    exact (set.rule operation).isGreatest_depth
  case steps =>
    intro principal record
    refine ⟨((set.rule operation).visit principal record operation.name).2, rfl, ?_⟩
    intro step hstep
    obtain ⟨position, node, hnode, rfl⟩ := Rule.exists_node_of_mem_visit hstep
    have hrel := hpositions position
    rw [hnode] at hrel
    obtain ⟨sub, hsub, hcompile⟩ := exists_left_of_rel hrel
    refine ⟨position, sub, node, rfl, hsub, hcompile, rfl, rfl, ?_⟩
    intro value hvalue
    exact compileSet_replaceRule h hsub hvalue

/-- Reading is for administrators and for the author of an open record, and writing for all. -/
def openRaws : Operation → Json
  | .read => .object [("$or", .array
      [.object [("$and", .array
          [.object [("created_by", .string "\x7b\x7buser.email\x7d\x7d")],
            .object [("open", .bool true)]])],
        .object [("user_condition", .object [("role", .string "admin")])]])]
  | .write => .object []

def openSet : PolicySet where
  read := .composite .any
    [.composite .all [.leaf (.fieldEquals "created_by" (.template ⟨"email"⟩)),
        .leaf (.fieldEquals "open" (.literal (.bool true)))],
      .leaf (.attributeMatch (Dict.ofList [("role", .string "admin")]))]
  write := .unrestricted

theorem trace_paths_locate_rules_openRaws :
    Compiler.compileSet {} (openRaws .read) (openRaws .write) = .ok openSet ∧
    {position | ((openRaws .read).ruleAt? position).isSome}.encard = (5 : Nat) ∧
    ∃ position, Compiler.compileSet {} (replaceRule openRaws .read position .null .read)
        (replaceRule openRaws .read position .null .write) =
      .error ⟨"read.$or[0].$and[0]", .malformed (.notAnObject "null")⟩ := by
  have hcompile : Compiler.compileSet {} (openRaws .read) (openRaws .write) = .ok openSet := rfl
  obtain ⟨-, hcount, -, hsteps⟩ := trace_paths_locate_rules hcompile .read
  obtain ⟨trace, htrace, hsteps⟩ := hsteps .anonymous none
  have hvisited : (openSet.decideTraced .read .anonymous none).trace =
      some [⟨"read.$or[0].$and[0]", .fieldEquals, false⟩, ⟨"read.$or[0]", .all, false⟩,
        ⟨"read.$or[1]", .attributeMatch, false⟩, ⟨"read", .any, false⟩] := by decide +kernel
  obtain rfl := Option.some.inj (hvisited.symm.trans htrace)
  obtain ⟨position, sub, node, -, -, -, -, -, hrefused⟩ := hsteps _ List.mem_cons_self
  exact ⟨hcompile, hcount, position, hrefused .null rfl⟩

end RowPolicy
