import RowPolicy.Json.Printer
import RowPolicy.Proofs.JsonOrder
import RowPolicy.Proofs.JsonText
import RowPolicy.Proofs.TokenText
import RowPolicy.Proofs.WrittenValues

/-!
# Reading written values

The tokens of a value are read as its tree, and the tree as the value with its members in key
order, unless its containers nest too deep. So a text of these tokens is read as the value; the
compact text is one when all numbers are integers. The numbers that are read from a text are
spelled in it, so that what has been read can be written.
-/

namespace RowPolicy

namespace Json

mutual

/-- The tokens of a value, with the members of its objects in the order listed. -/
def tokens : Json → List Token
  | .null => [.null]
  | .bool value => [.bool value]
  | .number value => [.number (some value)]
  | .string text => [.string (some text)]
  | .array [] => [.openBracket, .closeBracket]
  | .array (item :: items) => .openBracket :: (tokens item ++ itemTokens items)
  | .object [] => [.openBrace, .closeBrace]
  | .object ((key, value) :: members) =>
    .openBrace :: .string (some key) :: .colon :: (tokens value ++ memberTokens members)

/-- The tokens of further items, up to the end of the array. -/
def itemTokens : List Json → List Token
  | [] => [.closeBracket]
  | item :: items => .comma :: (tokens item ++ itemTokens items)

def memberTokens : List (String × Json) → List Token
  | [] => [.closeBrace]
  | (key, value) :: members =>
    .comma :: .string (some key) :: .colon :: (tokens value ++ memberTokens members)

end

mutual

/-- The number of containers around the deepest part of a value, the part itself included. -/
def nesting : Json → Nat
  | .array items => nestingItems items + 1
  | .object members => nestingMembers members + 1
  | _ => 0

def nestingItems : List Json → Nat
  | [] => 0
  | item :: items => max (nesting item) (nestingItems items)

def nestingMembers : List (String × Json) → Nat
  | [] => 0
  | (_, value) :: members => max (nesting value) (nestingMembers members)

end

namespace Raw

mutual

def ofJson : Json → Raw
  | .null => .null
  | .bool value => .bool value
  | .number value => .number (some value)
  | .string text => .string (some text)
  | .array items => .array (ofJsons items)
  | .object members => .object (ofMembers members)

def ofJsons : List Json → List Raw
  | [] => []
  | item :: items => ofJson item :: ofJsons items

def ofMembers : List (String × Json) → List (Option String × Raw)
  | [] => []
  | (key, value) :: members => (some key, ofJson value) :: ofMembers members

end

/-! ## From tokens to the tree -/

/-- An array that has been opened goes on with a value as if a value had to stand there. -/
theorem foldlM_opened (a : Json) (stack : List Frame) (rest : List Token) :
    (a.tokens ++ rest).foldlM step? (.opened stack) =
      (a.tokens ++ rest).foldlM step? (.value (.item [] :: stack)) := by
  cases a with
  | array items => cases items <;> rfl
  | object members => cases members <;> rfl
  | _ => rfl

mutual

/-- The tokens of a value complete it, whatever containers are open. -/
theorem foldlM_tokens : ∀ (a : Json) (stack : List Frame) (rest : List Token),
    (a.tokens ++ rest).foldlM step? (.value stack) =
      rest.foldlM step? (.ended stack (ofJson a))
  | .null, _, _ | .bool _, _, _ | .number _, _, _ | .string _, _, _ => rfl
  | .array [], _, _ | .object [], _, _ => rfl
  | .array (item :: items), stack, rest => by
      rw [tokens, List.cons_append, List.append_assoc]
      have hopen : (Token.openBracket :: (item.tokens ++ (itemTokens items ++ rest))).foldlM step?
          (.value stack) = (item.tokens ++ (itemTokens items ++ rest)).foldlM step?
            (.opened stack) := rfl
      -- The first item stands where the array could also end, the others after a comma.
      rw [hopen, foldlM_opened, foldlM_tokens item, foldlM_itemTokens items]
      rfl
  | .object ((key, value) :: members), stack, rest => by
      rw [tokens, List.cons_append, List.cons_append, List.cons_append, List.append_assoc]
      have hkey : (Token.openBrace :: .string (some key) :: .colon ::
          (value.tokens ++ (memberTokens members ++ rest))).foldlM step? (.value stack) =
            (value.tokens ++ (memberTokens members ++ rest)).foldlM step?
              (.value (.member [] (some key) :: stack)) := rfl
      rw [hkey, foldlM_tokens value, foldlM_memberTokens members]
      rfl

theorem foldlM_itemTokens : ∀ (items : List Json) (before : List Raw) (value : Raw)
    (stack : List Frame) (rest : List Token),
    (itemTokens items ++ rest).foldlM step? (.ended (.item before :: stack) value) =
      rest.foldlM step? (.ended stack (.array ((value :: before).reverse ++ ofJsons items)))
  | [], before, value, stack, rest => by
      rw [ofJsons, List.append_nil]
      rfl
  | item :: items, before, value, stack, rest => by
      rw [itemTokens, List.cons_append, List.append_assoc]
      have hcomma : (Token.comma :: (item.tokens ++ (itemTokens items ++ rest))).foldlM step?
          (.ended (.item before :: stack) value) =
            (item.tokens ++ (itemTokens items ++ rest)).foldlM step?
              (.value (.item (value :: before) :: stack)) := rfl
      rw [hcomma, foldlM_tokens item, foldlM_itemTokens items, ofJsons,
        List.reverse_cons (a := ofJson item), List.append_assoc, List.singleton_append]

theorem foldlM_memberTokens : ∀ (members : List (String × Json))
    (before : List (Option String × Raw)) (key : Option String) (value : Raw) (stack : List Frame)
    (rest : List Token),
    (memberTokens members ++ rest).foldlM step? (.ended (.member before key :: stack) value) =
      rest.foldlM step?
        (.ended stack (.object (((key, value) :: before).reverse ++ ofMembers members)))
  | [], before, key, value, stack, rest => by
      rw [ofMembers, List.append_nil]
      rfl
  | (name, part) :: members, before, key, value, stack, rest => by
      rw [memberTokens, List.cons_append, List.cons_append, List.cons_append, List.append_assoc]
      have hcomma : (Token.comma :: .string (some name) :: .colon ::
          (part.tokens ++ (memberTokens members ++ rest))).foldlM step?
            (.ended (.member before key :: stack) value) =
              (part.tokens ++ (memberTokens members ++ rest)).foldlM step?
                (.value (.member ((key, value) :: before) (some name) :: stack)) := rfl
      rw [hcomma, foldlM_tokens part, foldlM_memberTokens members, ofMembers,
        List.reverse_cons (a := (some name, ofJson part)), List.append_assoc, List.singleton_append]

end

theorem ofTokens?_tokens (a : Json) : ofTokens? a.tokens = some (ofJson a) := by
  have hfold := foldlM_tokens a [] []
  rw [List.append_nil] at hfold
  rw [ofTokens?, hfold]
  rfl

end Raw

variable {limit : Nat} {json : Json}

theorem nestingItems_le_iff {items : List Json} :
    nestingItems items ≤ limit ↔ ∀ item ∈ items, item.nesting ≤ limit := by
  induction items with
  | nil => simp [nestingItems]
  | cons item items ih => rw [nestingItems, Nat.max_le, ih, List.forall_mem_cons]

theorem nestingMembers_le_iff {members : List (String × Json)} :
    nestingMembers members ≤ limit ↔ ∀ member ∈ members, member.2.nesting ≤ limit := by
  induction members with
  | nil => simp [nestingMembers]
  | cons member members ih => rw [nestingMembers, Nat.max_le, ih, List.forall_mem_cons]

/-! ## From the tree to the value -/

namespace Raw

mutual

/-- The tree of a value is read as the value with its members in key order, when it does not nest
deeper than the limit. -/
theorem value?_ofJson : ∀ (a : Json) (limit : Nat),
    (ofJson a).value? limit = if a.nesting ≤ limit then some a.sorted else none
  | .null, _ | .bool _, _ | .number _, _ | .string _, _ => (if_pos (Nat.zero_le _)).symm
  | .array items, limit => by
      rw [ofJson, value?, values?_ofJsons, nesting, sorted]
      cases limit with
      | zero => simp
      | succ limit => by_cases h : nestingItems items ≤ limit <;> simp [h]
  | .object members, limit => by
      rw [ofJson, value?, memberValues?_ofMembers, nesting, sorted]
      cases limit with
      | zero => simp
      | succ limit => by_cases h : nestingMembers members ≤ limit <;> simp [h]

theorem values?_ofJsons : ∀ (items : List Json) (limit : Nat),
    values? (ofJsons items) limit =
      if nestingItems items ≤ limit then some (sortedItems items) else none
  | [], _ => (if_pos (Nat.zero_le _)).symm
  | item :: items, limit => by
      rw [ofJsons, values?, value?_ofJson, values?_ofJsons, nestingItems, sortedItems]
      by_cases h : item.nesting ≤ limit <;> by_cases h' : nestingItems items ≤ limit <;>
        simp [h, h']

theorem memberValues?_ofMembers : ∀ (members : List (String × Json)) (limit : Nat),
    memberValues? (ofMembers members) limit =
      if nestingMembers members ≤ limit then some (sortedMembers members) else none
  | [], _ => (if_pos (Nat.zero_le _)).symm
  | (key, value) :: members, limit => by
      have hvalue := value?_ofJson value limit
      have hmembers := memberValues?_ofMembers members limit
      rw [ofMembers, nestingMembers, sortedMembers]
      by_cases h : value.nesting ≤ limit <;> by_cases h' : nestingMembers members ≤ limit <;>
        simp [memberValues?, hvalue, hmembers, h, h']

end

end Raw

theorem Raw.nesting_le_of_value? {raw : Raw} (h : raw.value? limit = some json) :
    json.nesting ≤ limit := by
  induction raw generalizing limit json with
  | null =>
      cases h
      exact Nat.zero_le _
  | bool value =>
      cases h
      exact Nat.zero_le _
  | number value =>
      obtain ⟨number, -, rfl⟩ := Option.map_eq_some_iff.mp h
      exact Nat.zero_le _
  | string text =>
      obtain ⟨string, -, rfl⟩ := Option.map_eq_some_iff.mp h
      exact Nat.zero_le _
  | array items ih =>
      obtain ⟨hlimit, values, rfl, hvalues⟩ := Raw.value?_array_eq_some_iff.mp h
      have hitems : nestingItems values ≤ limit - 1 := by
        rw [nestingItems_le_iff]
        intro value hvalue
        obtain ⟨item, hitem, hread⟩ := exists_left_of_forall₂ hvalues hvalue
        exact ih item hitem hread
      rw [nesting]
      omega
  | object members ih =>
      obtain ⟨hlimit, pairs, rfl, hpairs⟩ := Raw.value?_object_eq_some_iff.mp h
      have hmembers : nestingMembers (Dict.ofList pairs).entries ≤ limit - 1 := by
        rw [nestingMembers_le_iff]
        intro entry hentry
        obtain ⟨member, hmember, -, hread⟩ :=
          exists_left_of_forall₂ hpairs (Dict.mem_of_mem_ofList hentry)
        exact ih member hmember hread
      rw [ofDict, nesting]
      omega

/-- What is read from a text does not nest too deep. -/
theorem nesting_le_of_parse? {text : String} (h : parse? text = some json) :
    json.nesting ≤ nestingLimit := by
  obtain ⟨raw, -, hvalue⟩ := Option.bind_eq_some_iff.mp h
  exact Raw.nesting_le_of_value? hvalue

theorem Raw.parse?_of_tokenized {a : Json} {text : List Char} (h : Tokenized text a.tokens) :
    Raw.parse? (String.ofList text) = some (ofJson a) := by
  rw [parse?, String.toList_ofList, tokens?_of_tokenized h]
  exact ofTokens?_tokens a

theorem parse?_of_tokenized {a : Json} {text : List Char} (h : Tokenized text a.tokens) :
    parse? (String.ofList text) = if a.nesting ≤ nestingLimit then some a.sorted else none := by
  rw [parse?, Raw.parse?_of_tokenized h, Option.bind_some, Raw.value?_ofJson]

/-! ## Compact texts -/

inductive NumbersAre (P : Number → Prop) : Json → Prop
  | null : NumbersAre P .null
  | bool (value : Bool) : NumbersAre P (.bool value)
  | number {value : Number} : P value → NumbersAre P (.number value)
  | string (text : String) : NumbersAre P (.string text)
  | array {items : List Json} : (∀ item ∈ items, NumbersAre P item) → NumbersAre P (.array items)
  | object {members : List (String × Json)} :
      (∀ member ∈ members, NumbersAre P member.2) → NumbersAre P (.object members)

variable {P : Number → Prop}

@[simp] theorem numbersAre_string (text : String) : NumbersAre P (.string text) := .string text

@[simp] theorem numbersAre_array {items : List Json} :
    NumbersAre P (.array items) ↔ ∀ item ∈ items, NumbersAre P item := by
  constructor
  · rintro (_ | _ | _ | _ | h | _)
    exact h
  · exact .array

@[simp] theorem numbersAre_object {members : List (String × Json)} :
    NumbersAre P (.object members) ↔ ∀ member ∈ members, NumbersAre P member.2 := by
  constructor
  · rintro (_ | _ | _ | _ | _ | h)
    exact h
  · exact .object

/-- A value without floats. -/
def Integral (a : Json) : Prop := a.NumbersAre fun n => ∃ x, n = .integer x

theorem NumbersAre.sorted {a : Json} (h : a.NumbersAre P) : a.sorted.NumbersAre P := by
  induction h with
  | null => exact .null
  | bool value => exact .bool value
  | number hvalue => exact .number hvalue
  | string text => exact .string text
  | @array items _ ih =>
      rw [Json.sorted, sortedItems_eq_map, numbersAre_array]
      exact List.forall_mem_map.mpr ih
  | @object members _ ih =>
      rw [Json.sorted, ofDict, numbersAre_object]
      intro entry hentry
      have hsorted := Dict.mem_of_mem_ofList hentry
      rw [sortedMembers_eq_map] at hsorted
      obtain ⟨member, hmember, rfl⟩ := List.mem_map.mp hsorted
      exact ih member hmember

open Text

variable {rest : List Char} {further : List Token}

/-! ## White space between tokens -/

/-- In front of any text that does not go on with a numeral, a text adds these tokens to those of
that text. -/
def TextOf (text : List Char) (tokens : List Token) : Prop :=
  ∀ rest further, Stops extendsNumeral rest → Tokenized rest further →
    Tokenized (text ++ rest) (tokens ++ further)

theorem Token.WrittenAs.textOf {token : Token} {text : List Char} (h : token.WrittenAs text) :
    TextOf text [token] :=
  fun _ _ hstops hrest => h.append hstops hrest

def Blank (gap : List Char) : Prop := ∀ c ∈ gap, isSpace c = true

theorem blank_nil : Blank [] := fun _ hc => absurd hc List.not_mem_nil

theorem extendsNumeral_of_isSpace {c : Char} (h : isSpace c = true) : extendsNumeral c = false := by
  simp only [isSpace, Bool.or_eq_true, beq_iff_eq] at h
  rcases h with ((rfl | rfl) | rfl) | rfl <;> decide

theorem Blank.stops {gap : List Char} (h : Blank gap) (hrest : Stops extendsNumeral rest) :
    Stops extendsNumeral (gap ++ rest) := by
  cases gap with
  | nil => exact hrest
  | cons c gap => exact stops_cons.mpr (extendsNumeral_of_isSpace (h c List.mem_cons_self))

theorem Blank.tokenized {gap : List Char} (h : Blank gap) (hrest : Tokenized rest further) :
    Tokenized (gap ++ rest) further := by
  induction gap with
  | nil => exact hrest
  | cons c gap ih =>
      obtain ⟨hc, hgap⟩ := List.forall_mem_cons.mp h
      exact .space hc (ih hgap)

/-- A character that is a token by itself, whatever follows it. -/
structure IsMark (c : Char) (token : Token) : Prop where
  no_space : isSpace c = false
  no_numeral : extendsNumeral c = false
  read : ∀ rest, token? (c :: rest) = some (token, rest)

theorem IsMark.tokenized {c : Char} {token : Token} (h : IsMark c token)
    (hrest : Tokenized rest further) : Tokenized (c :: rest) (token :: further) :=
  .token h.no_space (h.read rest) (Nat.le_refl _) hrest

theorem isMark_comma : IsMark ',' .comma := ⟨by decide, by decide, fun _ => rfl⟩

theorem isMark_colon : IsMark ':' .colon := ⟨by decide, by decide, fun _ => rfl⟩

/-- Texts between two marks, with commas between them and white space after the first mark, after
each comma and in front of the last mark. -/
def spaced (gap close : List Char) (left right : Char) : List (List Char) → List Char
  | [] => [left, right]
  | text :: texts =>
    left :: (gap ++ (text ++ (texts.flatMap (fun text => ',' :: (gap ++ text)) ++
      (close ++ [right]))))

def elementTokens {α : Type} (left right : Token) (tokensOf : α → List Token) : List α → List Token
  | [] => [left, right]
  | element :: elements =>
    left :: (tokensOf element ++
      (elements.flatMap (fun element => .comma :: tokensOf element) ++ [right]))

section Containers

variable {α : Type} {tokensOf : α → List Token} {gap close : List Char} {left right : Char}
  {leftToken rightToken : Token} {elements : List α} {texts : List (List Char)}

/-- The elements after the first one. What follows an element is a comma, white space or the last
mark, none of which goes on with a numeral. -/
theorem tokenized_further (hgap : Blank gap) (hclose : Blank close)
    (hright : IsMark right rightToken)
    (h : List.Forall₂ (fun element text => TextOf text (tokensOf element)) elements texts)
    (hrest : Tokenized rest further) :
    Stops extendsNumeral
      (texts.flatMap (fun text => ',' :: (gap ++ text)) ++ (close ++ right :: rest)) ∧
    Tokenized (texts.flatMap (fun text => ',' :: (gap ++ text)) ++ (close ++ right :: rest))
      (elements.flatMap (fun element => .comma :: tokensOf element) ++ rightToken :: further) := by
  induction h with
  | nil =>
      exact ⟨hclose.stops (stops_cons.mpr hright.no_numeral),
        hclose.tokenized (hright.tokenized hrest)⟩
  | cons helement _ ih =>
      have helements := isMark_comma.tokenized (hgap.tokenized (helement _ _ ih.1 ih.2))
      simp only [List.flatMap_cons, List.cons_append, List.append_assoc] at helements ⊢
      exact ⟨stops_cons.mpr isMark_comma.no_numeral, helements⟩

theorem textOf_spaced (hgap : Blank gap) (hclose : Blank close) (hleft : IsMark left leftToken)
    (hright : IsMark right rightToken)
    (h : List.Forall₂ (fun element text => TextOf text (tokensOf element)) elements texts) :
    TextOf (spaced gap close left right texts)
      (elementTokens leftToken rightToken tokensOf elements) := by
  intro rest further _ hrest
  cases h with
  | nil => exact hleft.tokenized (hright.tokenized hrest)
  | cons helement helements =>
      obtain ⟨hstops, hfurther⟩ := tokenized_further hgap hclose hright helements hrest
      have hfirst := hleft.tokenized (hgap.tokenized (helement _ _ hstops hfurther))
      simpa only [spaced, elementTokens, List.cons_append, List.append_assoc, List.nil_append]
        using hfirst

end Containers

section Values

variable {gap close : List Char}

theorem tokens_array (items : List Json) :
    tokens (.array items) = elementTokens .openBracket .closeBracket tokens items := by
  have hfurther : ∀ items, itemTokens items =
      items.flatMap (fun item => .comma :: item.tokens) ++ [.closeBracket] := by
    intro items
    induction items with
    | nil => rfl
    | cons item items ih => simp [itemTokens, ih]
  cases items with
  | nil => rfl
  | cons item items => rw [tokens, hfurther, elementTokens]

def ownTokens (member : String × Json) : List Token :=
  .string (some member.1) :: .colon :: member.2.tokens

theorem tokens_object (members : List (String × Json)) :
    tokens (.object members) = elementTokens .openBrace .closeBrace ownTokens members := by
  have hfurther : ∀ members, memberTokens members =
      members.flatMap (fun member => .comma :: ownTokens member) ++ [.closeBrace] := by
    intro members
    induction members with
    | nil => rfl
    | cons member members ih => simp [memberTokens, ownTokens, ih]
  cases members with
  | nil => rfl
  | cons member members => rw [tokens, hfurther, elementTokens, ownTokens]; rfl

theorem textOf_array (write : Json → List Char) (hgap : Blank gap) (hclose : Blank close)
    {items : List Json} (h : ∀ item ∈ items, TextOf (write item) item.tokens) :
    TextOf (spaced gap close '[' ']' (items.map write)) (tokens (.array items)) := by
  rw [tokens_array]
  apply textOf_spaced hgap hclose ⟨by decide, by decide, fun _ => rfl⟩
    ⟨by decide, by decide, fun _ => rfl⟩
  rw [List.forall₂_map_right_iff, List.forall₂_same]
  exact h

theorem textOf_member (hgap : Blank gap) {key : String} {value : Json} {text : List Char}
    (h : TextOf text value.tokens) :
    TextOf (stringText key ++ ':' :: (gap ++ text)) (ownTokens (key, value)) := by
  intro rest further hstops hrest
  have hvalue := isMark_colon.tokenized (hgap.tokenized (h rest further hstops hrest))
  have hmember := (writtenAs_string key).append (stops_cons.mpr isMark_colon.no_numeral) hvalue
  simpa only [ownTokens, List.cons_append, List.append_assoc] using hmember

theorem textOf_object (write : Json → List Char) (hgap : Blank gap) (hclose : Blank close)
    {space : List Char} (hspace : Blank space) {members : List (String × Json)}
    (h : ∀ member ∈ members, TextOf (write member.2) member.2.tokens) :
    TextOf (spaced gap close '\x7b' '\x7d'
        (members.map fun member => stringText member.1 ++ ':' :: (space ++ write member.2)))
      (tokens (.object members)) := by
  rw [tokens_object]
  apply textOf_spaced hgap hclose ⟨by decide, by decide, fun _ => rfl⟩
    ⟨by decide, by decide, fun _ => rfl⟩
  rw [List.forall₂_map_right_iff, List.forall₂_same]
  exact fun member hmember => textOf_member hspace (h member hmember)

theorem textOf_integer (x : Integer) : TextOf x.text [.number (some (.integer x))] := by
  have hwritten := writtenAs_numeral x.wellFormed_decimal
  rw [x.value?_decimal, x.chars_decimal] at hwritten
  exact hwritten.textOf

end Values

/-! ## Compact and indented texts -/

theorem compactChars_array (items : List Json) :
    compactChars (.array items) = spaced [] [] '[' ']' (items.map compactChars) := by
  rw [compactChars, compactItems_eq_map]
  cases items with
  | nil => rfl
  | cons item items => simp [spaced]

theorem compactChars_object (members : List (String × Json)) :
    compactChars (.object members) = spaced [] [] '\x7b' '\x7d' (members.map memberChars) := by
  rw [compactChars, compactMembers_eq_map]
  cases members with
  | nil => rfl
  | cons member members => simp [spaced]

/-- The compact text of a value without floats is made of its tokens. -/
theorem textOf_compactChars {a : Json} (h : a.Integral) : TextOf (compactChars a) a.tokens := by
  induction h with
  | null => exact writtenAs_null.textOf
  | bool value => exact (writtenAs_bool value).textOf
  | string text => exact (writtenAs_string text).textOf
  | number hvalue =>
      obtain ⟨x, rfl⟩ := hvalue
      exact textOf_integer x
  | array _ ih =>
      rw [compactChars_array]
      exact textOf_array compactChars blank_nil blank_nil ih
  | object _ ih =>
      rw [compactChars_object]
      exact textOf_object compactChars blank_nil blank_nil blank_nil ih

theorem blank_newLine (depth : Nat) : Blank (newLine depth) := by
  intro c hc
  rcases List.mem_cons.mp hc with rfl | hc
  · decide
  · rw [List.eq_of_mem_replicate hc]
    decide

theorem block_eq_spaced (depth : Nat) (left right : Char) (texts : List (List Char)) :
    block depth left right texts = spaced (newLine (depth + 1)) (newLine depth) left right texts := by
  cases texts with
  | nil => rfl
  | cons text texts => simp [block, spaced]

@[simp] theorem indentedItems_eq_map (items : List Json) (depth : Nat) :
    indentedItems items depth = items.map fun item => indentedChars item depth := by
  induction items with
  | nil => rfl
  | cons item items ih => rw [indentedItems, ih, List.map_cons]

theorem indentedMembers_eq_map (members : List (String × Json)) (depth : Nat) :
    indentedMembers members depth = members.map fun member =>
      stringText member.1 ++ ':' :: ([' '] ++ indentedChars member.2 depth) := by
  induction members with
  | nil => rfl
  | cons member members ih => rw [indentedMembers, ih, List.map_cons]; rfl

/-- The indented text has the tokens of the compact one, at every depth. -/
theorem textOf_indentedChars {a : Json} (h : a.Integral) (depth : Nat) :
    TextOf (indentedChars a depth) a.tokens := by
  induction h generalizing depth with
  | null => exact writtenAs_null.textOf
  | bool value => exact (writtenAs_bool value).textOf
  | string text => exact (writtenAs_string text).textOf
  | number hvalue =>
      obtain ⟨x, rfl⟩ := hvalue
      exact textOf_integer x
  | array _ ih =>
      rw [indentedChars, block_eq_spaced, indentedItems_eq_map]
      exact textOf_array (indentedChars · (depth + 1)) (blank_newLine _) (blank_newLine _)
        fun item hitem => ih item hitem _
  | object _ ih =>
      have hspace : Blank [' '] := List.forall_mem_singleton.mpr (by decide)
      rw [indentedChars, block_eq_spaced, indentedMembers_eq_map]
      exact textOf_object (indentedChars · (depth + 1)) (blank_newLine _) (blank_newLine _) hspace
        fun member hmember => ih member hmember _

theorem tokenized_compact {a : Json} (h : a.Integral) : Tokenized a.compactChars a.tokens := by
  have htokens := textOf_compactChars h [] [] stops_nil .done
  rwa [List.append_nil, List.append_nil] at htokens

/-- An indented text without floats is read as its value, also with a line end after it. -/
theorem Raw.parse?_indented {a : Json} (h : a.Integral) :
    Raw.parse? (a.indented ++ "\n") = some (ofJson a) := by
  have hline : Tokenized ['\n'] [] := .space (by decide) .done
  have htokens := textOf_indentedChars h 0 ['\n'] [] (stops_cons.mpr (by decide)) hline
  rw [List.append_nil] at htokens
  have htext : a.indented ++ "\n" = String.ofList (indentedChars a 0 ++ ['\n']) := by
    rw [String.ofList_append]
    rfl
  rw [htext]
  exact parse?_of_tokenized htokens

theorem Raw.parse?_compact {a : Json} (h : a.Integral) :
    Raw.parse? a.compact = some (ofJson a) :=
  parse?_of_tokenized (tokenized_compact h)

/-- The compact text of a value without floats is read as the value with its members in key order,
unless it nests too deep. -/
theorem parse?_compact {a : Json} (h : a.Integral) :
    parse? a.compact = if a.nesting ≤ nestingLimit then some a.sorted else none :=
  parse?_of_tokenized (tokenized_compact h)

end Json

end RowPolicy
