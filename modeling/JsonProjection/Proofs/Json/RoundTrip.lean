/-
# `JsonProjection.Proofs.Json.RoundTrip` -- a value is read back from its text.

A text of a value spells its tokens, be it compact or with blanks between them; it does not matter which blanks.
Reading undoes writing under two conditions.  The value must be one that a text can describe: no object in it
names a member twice, and it is nested no deeper than the reader admits.  And its doubles must be read as they
are written, which the reader, rounding more than once, does not do for every double (`ReadableNumbers`).

The statement about the reader is one about any moment of its run: where a value is due, the tokens of a value
take it to where that value is complete, or nowhere if the value is too deep for what is open around it
(`Reader.State.run?_tokens`).
-/
import JsonProjection.Json.Reader
import JsonProjection.Proofs.Json.Lexed

namespace JsonProjection.Json

/-! ## Values as rows of tokens -/

/-- **Readable numbers**: every double in the value is read as it is written. -/
def ReadableNumbers (value : Json) : Prop :=
  ∀ d, Within (.num (.float d)) value → Number.ofChars? d.chars = some (.float d)

theorem readableNumbers_arr_iff {items : List Json} :
    (Json.arr items).ReadableNumbers ↔ ∀ item ∈ items, item.ReadableNumbers := by
  constructor
  · exact fun h item hitem d hd => h d (.item hitem hd)
  · intro h d hd
    rcases within_arr_iff.mp hd with he | ⟨item, hitem, hd⟩
    · cases he
    · exact h item hitem d hd

theorem readableNumbers_obj_iff {members : Object} :
    (Json.obj members).ReadableNumbers ↔ ∀ member ∈ members, member.2.ReadableNumbers := by
  constructor
  · exact fun h member hmember d hd => h d (.member hmember hd)
  · intro h d hd
    rcases within_obj_iff.mp hd with he | ⟨member, hmember, hd⟩
    · cases he
    · exact h member hmember d hd

theorem readableNumbers_null : Json.null.ReadableNumbers := by
  intro d hd
  cases hd

theorem readableNumbers_emptyObject : (Json.obj []).ReadableNumbers :=
  readableNumbers_obj_iff.mpr nofun

theorem readableNumbers_num_iff {n : Number} :
    (Json.num n).ReadableNumbers ↔ (Token.num n).ReadsBack := by
  constructor
  · intro h
    cases n with
    | int n ge lt => exact Number.ofChars?_chars_int n ge lt
    | float d => exact h d .refl
  · intro h d hd
    cases hd
    exact h

namespace Token

/-- **Legible tokens**: no word follows another, and every number is read back. -/
structure Legible (tokens : List Token) : Prop where
  parted : Parted tokens
  readsBack : ∀ token ∈ tokens, token.ReadsBack

/-- Legible tokens that may stand after a value: the first of them is no word. -/
structure LegibleAfter (tokens : List Token) : Prop extends Legible tokens where
  head : ∀ token ∈ tokens.head?, token.isWord = false

variable {rest : List Token}

theorem legibleAfter_nil : LegibleAfter [] where
  parted := List.isChain_nil
  readsBack := List.forall_mem_nil _
  head := by rintro _ ⟨⟩

/-- Punctuation and strings may stand anywhere. -/
theorem Legible.cons (h : Legible rest) (token : Token) (hw : token.isWord = false)
    (hback : token.ReadsBack) : LegibleAfter (token :: rest) where
  parted := h.parted.cons hw
  readsBack := List.forall_mem_cons.mpr ⟨hback, h.readsBack⟩
  head := by
    rintro _ ⟨⟩
    exact hw

/-- Any token may stand before tokens that may stand after a value. -/
theorem LegibleAfter.cons (h : LegibleAfter rest) (token : Token) (hback : token.ReadsBack) :
    Legible (token :: rest) where
  parted := parted_cons_iff.mpr ⟨fun _ => h.head, h.parted⟩
  readsBack := List.forall_mem_cons.mpr ⟨hback, h.readsBack⟩

/-- A comma where there is more, and nothing where there is not. -/
theorem LegibleAfter.separator {α : Type} {more : List α} {row : List Token}
    (h : LegibleAfter rest) (hnil : more = [] → row = []) (hrow : Legible (row ++ rest)) :
    LegibleAfter (separator more ++ (row ++ rest)) := by
  cases more with
  | nil =>
      rw [hnil rfl]
      exact h
  | cons => exact hrow.cons .comma rfl trivial

end Token

open Token (Legible LegibleAfter)

section Rows

variable {rest : List Token}

/-- The items of an array, if each item is legible before whatever may stand after it. -/
theorem legible_itemTokens {items : List Json} (h : LegibleAfter rest)
    (hitems : ∀ item ∈ items, ∀ {rest}, LegibleAfter rest → Legible (item.tokens ++ rest)) :
    Legible (itemTokens items ++ rest) := by
  induction items with
  | nil => exact h.toLegible
  | cons item more ih =>
      obtain ⟨hitem, hmore⟩ := List.forall_mem_cons.mp hitems
      have hnil : more = [] → itemTokens more = [] := by
        rintro rfl
        rfl
      rw [itemTokens, List.append_assoc, List.append_assoc]
      exact hitem (h.separator hnil (ih hmore))

/-- The members of an object, if each value is legible before whatever may stand after it. -/
theorem legible_memberTokens {members : Object} (h : LegibleAfter rest)
    (hmembers : ∀ member ∈ members, ∀ {rest}, LegibleAfter rest →
      Legible (member.2.tokens ++ rest)) :
    Legible (memberTokens members ++ rest) := by
  induction members with
  | nil => exact h.toLegible
  | cons member more ih =>
      obtain ⟨hmember, hmore⟩ := List.forall_mem_cons.mp hmembers
      have hnil : more = [] → memberTokens more = [] := by
        rintro rfl
        rfl
      rw [memberTokens, List.cons_append, List.cons_append, List.append_assoc, List.append_assoc]
      have hvalue := hmember (h.separator hnil (ih hmore))
      have hcolon := (hvalue.cons .colon rfl trivial).toLegible
      exact (hcolon.cons (.str member.1) rfl trivial).toLegible

/-- **The tokens of a value are legible**, before whatever may stand after a value. -/
theorem legible_tokens {value : Json} (hn : value.ReadableNumbers) (h : LegibleAfter rest) :
    Legible (value.tokens ++ rest) := by
  induction value using induct generalizing rest with
  | null => exact h.cons .null trivial
  | bool b => exact h.cons (.bool b) trivial
  | num n => exact h.cons (.num n) (readableNumbers_num_iff.mp hn)
  | str s => exact h.cons (.str s) trivial
  | arr items ih =>
      rw [tokens, List.cons_append, List.append_assoc]
      have hclose : LegibleAfter ([.closeArray] ++ rest) := h.toLegible.cons .closeArray rfl trivial
      have hitems := legible_itemTokens hclose fun item hitem =>
        ih item hitem (readableNumbers_arr_iff.mp hn item hitem)
      exact (hitems.cons .openArray rfl trivial).toLegible
  | obj members ih =>
      rw [tokens, List.cons_append, List.append_assoc]
      have hclose : LegibleAfter ([.closeObject] ++ rest) := h.toLegible.cons .closeObject rfl trivial
      have hmembers := legible_memberTokens hclose fun member hmember =>
        ih member hmember (readableNumbers_obj_iff.mp hn member hmember)
      exact (hmembers.cons .openObject rfl trivial).toLegible

end Rows

/-- **A text that spells the tokens of a value** is cut into these tokens. -/
theorem tokens?_of_spaced {value : Json} {cs : List Char} (h : Token.Spaced value.tokens cs)
    (hn : value.ReadableNumbers) : tokens? cs = some value.tokens := by
  have hlegible : Legible value.tokens := by
    simpa only [List.append_nil] using legible_tokens hn Token.legibleAfter_nil
  show Lexer.read? ⟨[], .between⟩ _ = _
  rw [Lexer.read?_of_spaced h hlegible.parted hlegible.readsBack]
  rfl

/-! ## Rows of tokens as values -/

namespace Reader.State

variable {limit : Nat}

theorem run?_cons (state : State) (token : Token) (rest : List Token) :
    state.run? limit (token :: rest) =
      (state.step? limit token).bind fun next => next.run? limit rest := by
  rw [run?]
  cases state.step? limit token <;> rfl

/-- **What the tokens of a value do** where a value is due: the value is complete, if what is open around it
leaves room for its height. -/
def Takes (limit : Nat) (value : Json) : Prop :=
  ∀ (stack : List Frame) (rest : List Token), stack.length ≤ limit →
    run? limit ⟨stack, .value⟩ (value.tokens ++ rest) =
      if stack.length + value.height ≤ limit then run? limit (plug stack value) rest else none

/-- A value that is one token. -/
theorem takes_of_tokens_eq {value : Json} {token : Token} (htokens : value.tokens = [token])
    (hheight : value.height = 0)
    (hstart : ∀ stack, startValue? limit stack token = some (plug stack value)) :
    Takes limit value := by
  intro stack rest hstack
  rw [htokens, List.singleton_append, run?_cons, hheight, Nat.add_zero, if_pos hstack]
  show (startValue? limit stack token).bind _ = _
  rw [hstart, Option.bind_some]

/-! ### Arrays -/

/-- The first item of an array is read like the items after it. -/
theorem run?_firstItem (stack : List Frame) (value : Json) (rest : List Token) :
    run? limit ⟨stack, .firstItem⟩ (value.tokens ++ rest) =
      run? limit ⟨.array [] :: stack, .value⟩ (value.tokens ++ rest) := by
  cases value <;> rfl

/-- One item. -/
theorem run?_item {stack : List Frame} (hstack : stack.length < limit) {item : Json}
    (htakes : Takes limit item) (done : List Json) (rest : List Token) :
    run? limit ⟨.array done :: stack, .value⟩ (item.tokens ++ rest) =
      if stack.length + (item.height + 1) ≤ limit then
        run? limit ⟨stack, .afterItem (item :: done)⟩ rest
      else none := by
  have hroom : stack.length + 1 + item.height = stack.length + (item.height + 1) := by omega
  have hitem := htakes (.array done :: stack) rest hstack
  rw [List.length_cons, hroom] at hitem
  exact hitem

/-- The items up to the end of the array, after the items in `done`. -/
theorem run?_items {stack : List Frame} (hstack : stack.length < limit) (item : Json)
    (more : List Json) (htakes : ∀ value ∈ item :: more, Takes limit value) (done : List Json)
    (rest : List Token) :
    run? limit ⟨.array done :: stack, .value⟩ (itemTokens (item :: more) ++ .closeArray :: rest) =
      if stack.length + (itemsHeight (item :: more) + 1) ≤ limit then
        run? limit (plug stack (.arr (done.reverse ++ item :: more))) rest
      else none := by
  induction more generalizing item done with
  | nil =>
      have htokens : itemTokens [item] ++ .closeArray :: rest =
          item.tokens ++ .closeArray :: rest := by
        simp [itemTokens, separator]
      have hheight : itemsHeight [item] = item.height := Nat.max_zero _
      rw [htokens, run?_item hstack (htakes item List.mem_cons_self), hheight, ← List.reverse_cons]
      rfl
  | cons next more ih =>
      obtain ⟨hitem, hmore⟩ := List.forall_mem_cons.mp htakes
      have htokens : itemTokens (item :: next :: more) ++ .closeArray :: rest =
          item.tokens ++ .comma :: (itemTokens (next :: more) ++ .closeArray :: rest) := by
        simp [itemTokens, separator]
      have hcomma : run? limit ⟨stack, .afterItem (item :: done)⟩
          (.comma :: (itemTokens (next :: more) ++ .closeArray :: rest)) =
          run? limit ⟨.array (item :: done) :: stack, .value⟩
            (itemTokens (next :: more) ++ .closeArray :: rest) := rfl
      have hdone : (item :: done).reverse ++ next :: more = done.reverse ++ item :: next :: more := by
        rw [List.reverse_cons, List.append_assoc, List.singleton_append]
      have hheight : itemsHeight (item :: next :: more) =
          max item.height (itemsHeight (next :: more)) := rfl
      rw [htokens, run?_item hstack hitem, hcomma, ih next hmore, hdone, hheight]
      -- there is room for all if there is room for this item and for the others
      split_ifs <;> first | rfl | omega

theorem takes_arr {items : List Json} (h : ∀ item ∈ items, Takes limit item) :
    Takes limit (.arr items) := by
  intro stack rest hstack
  rw [tokens, height, List.cons_append, List.append_assoc, run?_cons]
  by_cases hroom : stack.length < limit
  · have hopen : step? limit ⟨stack, .value⟩ .openArray = some ⟨stack, .firstItem⟩ := if_pos hroom
    rw [hopen, Option.bind_some]
    cases items with
    | nil =>
        rw [itemsHeight, Nat.zero_add, if_pos (Nat.succ_le_of_lt hroom)]
        rfl
    | cons item more =>
        have hfirst : itemTokens (item :: more) ++ ([.closeArray] ++ rest) =
            item.tokens ++ (separator more ++ itemTokens more ++ .closeArray :: rest) := by
          simp [itemTokens]
        rw [hfirst, run?_firstItem, ← hfirst]
        exact run?_items hroom item more h [] rest
  · have hopen : step? limit ⟨stack, .value⟩ .openArray = none := if_neg hroom
    rw [hopen, if_neg (by omega)]
    rfl

/-! ### Objects -/

/-- One member: its name, a colon and its value. -/
theorem run?_member {stack : List Frame} (hstack : stack.length < limit) {name : String}
    {value : Json} (htakes : Takes limit value) {done : Object} (hname : name ∉ Assoc.keys done)
    (rest : List Token) :
    run? limit ⟨stack, .nextName done⟩ (.str name :: .colon :: (value.tokens ++ rest)) =
      if stack.length + (value.height + 1) ≤ limit then
        run? limit ⟨stack, .afterMember (done ++ [(name, value)])⟩ rest
      else none := by
  have hplug : plug (.object done name :: stack) value =
      ⟨stack, .afterMember (done ++ [(name, value)])⟩ := by
    rw [plug, Assoc.set_of_not_mem hname]
  have hroom : stack.length + 1 + value.height = stack.length + (value.height + 1) := by omega
  have hvalue := htakes (.object done name :: stack) rest hstack
  rw [hplug, List.length_cons, hroom] at hvalue
  exact hvalue

/-- The members up to the end of the object, after the members in `done`. -/
theorem run?_members {stack : List Frame} (hstack : stack.length < limit) (member : String × Json)
    (more : Object) (htakes : ∀ m ∈ member :: more, Takes limit m.2) (done : Object)
    (hnames : (Assoc.keys (done ++ member :: more)).Nodup) (rest : List Token) :
    run? limit ⟨stack, .nextName done⟩ (memberTokens (member :: more) ++ .closeObject :: rest) =
      if stack.length + (membersHeight (member :: more) + 1) ≤ limit then
        run? limit (plug stack (.obj (done ++ member :: more))) rest
      else none := by
  induction more generalizing member done with
  | nil =>
      obtain ⟨name, value⟩ := member
      have hvalue : Takes limit value := htakes _ List.mem_cons_self
      have hname : name ∉ Assoc.keys done := Assoc.not_mem_keys_of_nodup_append hnames
      have htokens : memberTokens [(name, value)] ++ .closeObject :: rest =
          .str name :: .colon :: (value.tokens ++ .closeObject :: rest) := by
        simp [memberTokens, separator]
      have hheight : membersHeight [(name, value)] = value.height := Nat.max_zero _
      rw [htokens, run?_member hstack hvalue hname, hheight]
      rfl
  | cons next more ih =>
      obtain ⟨name, value⟩ := member
      obtain ⟨htakesValue, hmore⟩ := List.forall_mem_cons.mp htakes
      have hvalue : Takes limit value := htakesValue
      have hname : name ∉ Assoc.keys done := Assoc.not_mem_keys_of_nodup_append hnames
      have htokens : memberTokens ((name, value) :: next :: more) ++ .closeObject :: rest =
          .str name :: .colon :: (value.tokens ++
            .comma :: (memberTokens (next :: more) ++ .closeObject :: rest)) := by
        simp [memberTokens, separator]
      have hcomma : run? limit ⟨stack, .afterMember (done ++ [(name, value)])⟩
          (.comma :: (memberTokens (next :: more) ++ .closeObject :: rest)) =
          run? limit ⟨stack, .nextName (done ++ [(name, value)])⟩
            (memberTokens (next :: more) ++ .closeObject :: rest) := rfl
      have hdone : done ++ [(name, value)] ++ next :: more = done ++ (name, value) :: next :: more := by
        rw [List.append_assoc, List.singleton_append]
      have hheight : membersHeight ((name, value) :: next :: more) =
          max value.height (membersHeight (next :: more)) := rfl
      rw [htokens, run?_member hstack hvalue hname, hcomma, ih next hmore _ (hdone ▸ hnames), hdone,
        hheight]
      -- there is room for all if there is room for this value and for the others
      split_ifs <;> first | rfl | omega

theorem takes_obj {members : Object} (hnames : (Assoc.keys members).Nodup)
    (h : ∀ member ∈ members, Takes limit member.2) : Takes limit (.obj members) := by
  intro stack rest hstack
  rw [tokens, height, List.cons_append, List.append_assoc, run?_cons]
  by_cases hroom : stack.length < limit
  · have hopen : step? limit ⟨stack, .value⟩ .openObject = some ⟨stack, .firstName⟩ := if_pos hroom
    rw [hopen, Option.bind_some]
    cases members with
    | nil =>
        rw [membersHeight, Nat.zero_add, if_pos (Nat.succ_le_of_lt hroom)]
        rfl
    | cons member more => exact run?_members hroom member more h [] hnames rest
  · have hopen : step? limit ⟨stack, .value⟩ .openObject = none := if_neg hroom
    rw [hopen, if_neg (by omega)]
    rfl

/-- **Every value that is unambiguous is taken.** -/
theorem takes {value : Json} (hu : value.Unambiguous) : Takes limit value := by
  induction value using induct with
  | null | bool | num | str => exact takes_of_tokens_eq rfl rfl fun _ => rfl
  | arr items ih => exact takes_arr fun item hitem => ih item hitem (unambiguous_arr_iff.mp hu item hitem)
  | obj members ih =>
      obtain ⟨hnames, hmembers⟩ := unambiguous_obj_iff.mp hu
      exact takes_obj hnames fun member hmember => ih member hmember (hmembers member hmember)

end Reader.State

/-- **Reading undoes writing**, up to the nesting that the reader admits: a text that spells the tokens of a value
is read as the value. -/
theorem ofTextWithin?_of_spaced {value : Json} {text : String} (h : Token.Spaced value.tokens text.toList)
    (hu : value.Unambiguous) (hn : value.ReadableNumbers) (limit : Nat) :
    ofTextWithin? limit text = if value.height ≤ limit then some value else none := by
  have htokens : (tokens? text.toList).bind (ofTokens? limit) = ofTokens? limit (value.tokens ++ []) := by
    rw [tokens?_of_spaced h hn, Option.bind_some, List.append_nil]
  rw [ofTextWithin?, htokens, ofTokens?]
  show (Reader.State.run? limit ⟨[], .value⟩ _).bind _ = _
  rw [Reader.State.takes hu [] [] (Nat.zero_le limit), List.length_nil, Nat.zero_add]
  split_ifs <;> rfl

/-! ## Compact text -/

/-- **The compact text** spells the tokens of the value. -/
theorem spaced_compact (value : Json) : Token.Spaced value.tokens value.compact.toList := by
  rw [compact, String.toList_ofList]
  exact Token.Spaced.flatMap_chars value.tokens

theorem ofTextWithin?_compact {value : Json} (hu : value.Unambiguous) (hn : value.ReadableNumbers)
    (limit : Nat) :
    ofTextWithin? limit value.compact = if value.height ≤ limit then some value else none :=
  ofTextWithin?_of_spaced value.spaced_compact hu hn limit

/-! ## Pretty text -/

section Pretty

variable {depth : Nat}

theorem spaced_newline (depth : Nat) : Token.Spaced [] (newline depth) := by
  refine .blank (by decide) (Token.Spaced.of_blanks fun c hc => ?_)
  rw [List.eq_of_mem_replicate hc]
  decide

theorem spaced_commaBefore {α : Type} (rest : List α) : Token.Spaced (separator rest) (commaBefore rest) := by
  cases rest with
  | nil => exact .nil
  | cons => exact .single .comma

/-- The items of an array, each on a line of its own. -/
theorem spaced_prettyItems {items : List Json}
    (h : ∀ item ∈ items, Token.Spaced item.tokens (item.prettyChars depth)) :
    Token.Spaced (itemTokens items) (prettyItems depth items) := by
  induction items with
  | nil => exact .nil
  | cons item rest ih =>
      obtain ⟨hitem, hrest⟩ := List.forall_mem_cons.mp h
      exact (spaced_newline depth).append (hitem.append ((spaced_commaBefore rest).append (ih hrest)))

/-- The members of an object, each on a line of its own, with a blank behind the colon. -/
theorem spaced_prettyMembers {members : Object}
    (h : ∀ member ∈ members, Token.Spaced member.2.tokens (member.2.prettyChars depth)) :
    Token.Spaced (memberTokens members) (prettyMembers depth members) := by
  induction members with
  | nil => exact .nil
  | cons member rest ih =>
      obtain ⟨hmember, hrest⟩ := List.forall_mem_cons.mp h
      have hvalue := hmember.append ((spaced_commaBefore rest).append (ih hrest))
      have hcolon : Token.Spaced [.colon] [':', ' '] := .token .colon (.blank (by decide) .nil)
      exact (spaced_newline depth).append (.token (.str member.1) (hcolon.append hvalue))

theorem spaced_prettyChars (value : Json) (depth : Nat) :
    Token.Spaced value.tokens (value.prettyChars depth) := by
  induction value using induct generalizing depth with
  | null => exact .single .null
  | bool b => exact .single (.bool b)
  | num n => exact .single (.num n)
  | str s => exact .single (.str s)
  | arr items ih =>
      cases items with
      | nil => exact .flatMap_chars [.openArray, .closeArray]
      | cons item rest =>
          have hitems := spaced_prettyItems fun value hvalue => ih value hvalue (depth + 1)
          have hclose := (spaced_newline depth).append (.single .closeArray)
          exact .token .openArray (hitems.append hclose)
  | obj members ih =>
      cases members with
      | nil => exact .flatMap_chars [.openObject, .closeObject]
      | cons member rest =>
          have hmembers := spaced_prettyMembers fun entry hentry => ih entry hentry (depth + 1)
          have hclose := (spaced_newline depth).append (.single .closeObject)
          exact .token .openObject (hmembers.append hclose)

/-- **The pretty text** spells the tokens of the value. -/
theorem spaced_pretty (value : Json) : Token.Spaced value.tokens value.pretty.toList := by
  rw [pretty, String.toList_ofList]
  exact value.spaced_prettyChars 0

/-- **The pretty text is read back** like the compact one. -/
theorem ofTextWithin?_pretty {value : Json} (hu : value.Unambiguous) (hn : value.ReadableNumbers)
    (limit : Nat) :
    ofTextWithin? limit value.pretty = if value.height ≤ limit then some value else none :=
  ofTextWithin?_of_spaced value.spaced_pretty hu hn limit

end Pretty

end JsonProjection.Json
