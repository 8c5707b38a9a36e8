import RowPolicy.Proofs.TokenTree

/-!
# Writing what has been read

The reader takes the numbers of a tree from the tokens of the text, so each of them has a numeral.
What has been read can therefore be written as a text again, in tokens with spaces between them,
and is read from this text as the same value.
-/

namespace RowPolicy

namespace Json

variable {P : Number → Prop} {tokens : List Token}

namespace Raw

inductive NumbersAre (P : Number → Prop) : Raw → Prop
  | null : NumbersAre P .null
  | bool (value : Bool) : NumbersAre P (.bool value)
  | number {value : Option Number} : (∀ n ∈ value, P n) → NumbersAre P (.number value)
  | string (text : Option String) : NumbersAre P (.string text)
  | array {items : List Raw} : (∀ item ∈ items, NumbersAre P item) → NumbersAre P (.array items)
  | object {members : List (Option String × Raw)} :
      (∀ member ∈ members, NumbersAre P member.2) → NumbersAre P (.object members)

/-! ## Numbers of the reader's state -/

def Frame.NumbersAre (P : Number → Prop) : Frame → Prop
  | .item before => ∀ item ∈ before, item.NumbersAre P
  | .member before _ => ∀ member ∈ before, member.2.NumbersAre P

/-- The numbers that the reader has seen have a property. -/
def State.NumbersAre (P : Number → Prop) : State → Prop
  | .value stack | .opened stack => ∀ frame ∈ stack, frame.NumbersAre P
  | .key stack before _ | .colon stack before _ =>
    (∀ frame ∈ stack, frame.NumbersAre P) ∧ ∀ member ∈ before, member.2.NumbersAre P
  | .ended stack last => (∀ frame ∈ stack, frame.NumbersAre P) ∧ last.NumbersAre P

variable {state state' : State} {token : Token}

theorem numbersAre_begin? {stack : List Frame} (h : begin? stack token = some state')
    (hstack : ∀ frame ∈ stack, frame.NumbersAre P) (htoken : ∀ n, token = .number (some n) → P n) :
    state'.NumbersAre P := by
  cases token with
  | null =>
      cases h
      exact ⟨hstack, .null⟩
  | bool value =>
      cases h
      exact ⟨hstack, .bool value⟩
  | number value =>
      cases h
      exact ⟨hstack, .number fun n hn => htoken n (congrArg Token.number hn)⟩
  | string text =>
      cases h
      exact ⟨hstack, .string text⟩
  | openBracket =>
      cases h
      exact hstack
  | openBrace =>
      cases h
      exact ⟨hstack, nofun⟩
  | closeBracket | closeBrace | comma | colon => cases h

/-- A token adds its own number at most. -/
theorem numbersAre_step? (h : step? state token = some state') (hstate : state.NumbersAre P)
    (htoken : ∀ n, token = .number (some n) → P n) : state'.NumbersAre P := by
  unfold step? at h
  -- Where a value has ended it moves into the innermost container, and a container that closes
  -- becomes such a value itself.
  split at h
  · exact numbersAre_begin? h hstate htoken
  · cases h
    exact ⟨hstate, .array nofun⟩
  · exact numbersAre_begin? h (List.forall_mem_cons.mpr ⟨nofun, hstate⟩) htoken
  · cases h
    exact hstate
  · cases h
    exact ⟨hstate.1, .object nofun⟩
  · cases h
    exact List.forall_mem_cons.mpr ⟨hstate.2, hstate.1⟩
  · next before stack value =>
    cases h
    obtain ⟨hstack, hvalue⟩ := hstate
    obtain ⟨hbefore, hstack⟩ := List.forall_mem_cons.mp hstack
    exact List.forall_mem_cons.mpr ⟨List.forall_mem_cons.mpr ⟨hvalue, hbefore⟩, hstack⟩
  · next before stack value =>
    cases h
    obtain ⟨hstack, hvalue⟩ := hstate
    obtain ⟨hbefore, hstack⟩ := List.forall_mem_cons.mp hstack
    have hitems : ∀ item ∈ value :: before, item.NumbersAre P :=
      List.forall_mem_cons.mpr ⟨hvalue, hbefore⟩
    exact ⟨hstack, .array fun item hitem => hitems item (List.mem_reverse.mp hitem)⟩
  · next before key stack value =>
    cases h
    obtain ⟨hstack, hvalue⟩ := hstate
    obtain ⟨hbefore, hstack⟩ := List.forall_mem_cons.mp hstack
    have hentries : ∀ member ∈ (key, value) :: before, member.2.NumbersAre P :=
      List.forall_mem_cons.mpr ⟨hvalue, hbefore⟩
    exact ⟨hstack, hentries⟩
  · next before key stack value =>
    cases h
    obtain ⟨hstack, hvalue⟩ := hstate
    obtain ⟨hbefore, hstack⟩ := List.forall_mem_cons.mp hstack
    have hentries : ∀ member ∈ (key, value) :: before, member.2.NumbersAre P :=
      List.forall_mem_cons.mpr ⟨hvalue, hbefore⟩
    exact ⟨hstack, .object fun member hmember => hentries member (List.mem_reverse.mp hmember)⟩
  · cases h

theorem numbersAre_foldlM (h : tokens.foldlM step? state = some state')
    (hstate : state.NumbersAre P) (htokens : ∀ n, Token.number (some n) ∈ tokens → P n) :
    state'.NumbersAre P := by
  induction tokens generalizing state with
  | nil =>
      cases h
      exact hstate
  | cons token tokens ih =>
      obtain ⟨next, hstep, hrest⟩ := Option.bind_eq_some_iff.mp h
      have hnext : next.NumbersAre P := numbersAre_step? hstep hstate fun n hn =>
        htokens n (hn ▸ List.mem_cons_self)
      exact ih hrest hnext fun n hn => htokens n (List.mem_cons_of_mem _ hn)

theorem numbersAre_ofTokens? {raw : Raw} (h : ofTokens? tokens = some raw)
    (htokens : ∀ n, Token.number (some n) ∈ tokens → P n) : raw.NumbersAre P := by
  rw [ofTokens?] at h
  split at h
  · next value hrun =>
    cases h
    have hempty : (State.value []).NumbersAre P := List.forall_mem_nil _
    exact (numbersAre_foldlM hrun hempty htokens).2
  · cases h

theorem numbersAre_value? {raw : Raw} {json : Json} {limit : Nat} (hraw : raw.NumbersAre P)
    (h : raw.value? limit = some json) : json.NumbersAre P := by
  induction hraw generalizing limit json with
  | null =>
      cases h
      exact .null
  | bool value =>
      cases h
      exact .bool value
  | number hvalue =>
      obtain ⟨number, hnumber, rfl⟩ := Option.map_eq_some_iff.mp h
      exact .number (hvalue number hnumber)
  | string text =>
      obtain ⟨string, -, rfl⟩ := Option.map_eq_some_iff.mp h
      exact .string string
  | array _ ih =>
      obtain ⟨-, values, rfl, hvalues⟩ := value?_array_eq_some_iff.mp h
      refine .array fun value hvalue => ?_
      obtain ⟨item, hitem, hread⟩ := exists_left_of_forall₂ hvalues hvalue
      exact ih item hitem hread
  | object _ ih =>
      obtain ⟨-, pairs, rfl, hpairs⟩ := value?_object_eq_some_iff.mp h
      refine .object fun entry hentry => ?_
      obtain ⟨member, hmember, -, hread⟩ :=
        exists_left_of_forall₂ hpairs (Dict.mem_of_mem_ofList hentry)
      exact ih member hmember hread

end Raw

/-- The numbers that are read from a text are spelled in it. -/
theorem spellable_of_parse? {text : String} {json : Json} (h : parse? text = some json) :
    json.NumbersAre Number.Spellable := by
  obtain ⟨raw, hraw, hvalue⟩ := parse?_eq_some_iff.mp h
  obtain ⟨tokens, htokens, htree⟩ := Option.bind_eq_some_iff.mp hraw
  have hnumbers : ∀ n, Token.number (some n) ∈ tokens → n.Spellable := fun _ hn =>
    spellable_of_mem_tokensWith? htokens hn
  exact Raw.numbersAre_value? (Raw.numbersAre_ofTokens? htree hnumbers) hvalue

/-! ## Writing values -/

theorem writable_itemTokens {items : List Json}
    (h : ∀ item ∈ items, ∀ token ∈ item.tokens, token.Writable) :
    ∀ token ∈ itemTokens items, token.Writable := by
  induction items with
  | nil => simp [itemTokens, Token.Writable]
  | cons item items ih =>
      obtain ⟨hitem, hitems⟩ := List.forall_mem_cons.mp h
      rw [itemTokens, List.forall_mem_cons, List.forall_mem_append]
      exact ⟨trivial, hitem, ih hitems⟩

theorem writable_memberTokens {members : List (String × Json)}
    (h : ∀ member ∈ members, ∀ token ∈ member.2.tokens, token.Writable) :
    ∀ token ∈ memberTokens members, token.Writable := by
  induction members with
  | nil => simp [memberTokens, Token.Writable]
  | cons member members ih =>
      obtain ⟨hmember, hmembers⟩ := List.forall_mem_cons.mp h
      rw [memberTokens, List.forall_mem_cons, List.forall_mem_cons, List.forall_mem_cons,
        List.forall_mem_append]
      exact ⟨trivial, rfl, trivial, hmember, ih hmembers⟩

theorem writable_tokens {a : Json} (h : a.NumbersAre Number.Spellable) :
    ∀ token ∈ a.tokens, token.Writable := by
  induction h with
  | null => simp [Json.tokens, Token.Writable]
  | bool value => simp [Json.tokens, Token.Writable]
  | string text => simp [Json.tokens, Token.Writable]
  | number hvalue => simpa [Json.tokens, Token.Writable] using hvalue
  | @array items _ ih =>
      cases items with
      | nil => simp [Json.tokens, Token.Writable]
      | cons item items =>
          obtain ⟨hitem, hitems⟩ := List.forall_mem_cons.mp ih
          rw [Json.tokens, List.forall_mem_cons, List.forall_mem_append]
          exact ⟨trivial, hitem, writable_itemTokens hitems⟩
  | @object members _ ih =>
      cases members with
      | nil => simp [Json.tokens, Token.Writable]
      | cons member members =>
          obtain ⟨hmember, hmembers⟩ := List.forall_mem_cons.mp ih
          rw [Json.tokens, List.forall_mem_cons, List.forall_mem_cons, List.forall_mem_cons,
            List.forall_mem_append]
          exact ⟨trivial, rfl, trivial, hmember, writable_memberTokens hmembers⟩

/-- A canonical value with spelled numbers can be written, unless it nests too deep. -/
theorem exists_text {a : Json} (hcanonical : a.Canonical) (hnumbers : a.NumbersAre Number.Spellable)
    (hnesting : a.nesting ≤ nestingLimit) :
    ∃ text : List Char, text.head? ≠ some '@' ∧ parse? (String.ofList text) = some a := by
  obtain ⟨text, htext⟩ := exists_tokenized (writable_tokens hnumbers)
  refine ⟨text, ?_, ?_⟩
  · intro hhead
    obtain ⟨rest, rfl⟩ := List.head?_eq_some_iff.mp hhead
    exact not_tokenized_at rest htext
  · rw [parse?_of_tokenized htext, if_pos hnesting, sorted_of_canonical hcanonical]

end Json

end RowPolicy
