/-
# `JsonProjection.Pattern.Reader` -- reading the text of a pattern.

The reader keeps the open groups, the innermost first, and for each what stands before it.  Every step takes
at least one character: a parenthesis, a bar, a class, a repetition of the item before it, or an item.  A
repetition may be followed by a question mark, which changes nothing about where a pattern occurs.

A group is remembered if it has a name or no flags.  The names of groups must differ.
-/
import JsonProjection.Pattern.CharClass
import JsonProjection.Text.Letter

namespace JsonProjection.Pattern

/-! ## Counts -/

/-- A decimal number below 2^32 with blanks around it; it may be missing or too large, and the reading goes
on after it all the same. -/
def readDecimal (verbose : Bool) (cursor : Cursor) : Except PatternError Nat × Cursor :=
  let (_, cursor) := cursor.takeWhile false Text.isWhitespace
  let start := cursor.place
  let (digits, cursor) := cursor.takeWhile verbose Char.isDigit
  let span := cursor.since start
  let (_, cursor) := cursor.takeWhile verbose Text.isWhitespace
  let value := Nat.ofDigitChars 10 (digits.map Prod.snd) 0
  if digits.isEmpty then (refuse .countEmpty span, cursor)
  else if value < 4294967296 then (.ok value, cursor)
  else (refuse .decimalTooLarge span, cursor)

/-- The end of a count that began at `start`: a right brace, and perhaps a question mark. -/
def closeCount (verbose : Bool) (start least : Nat) (most : Option Nat) (cursor : Cursor) :
    Except PatternError ((Nat × Option Nat) × Cursor) :=
  if !cursor.isAt '}' then refuse .countUnclosed (cursor.since start)
  else
    let cursor := cursor.advance verbose
    let cursor := if cursor.isAt '?' then cursor.next else cursor
    if most.any (· < least) then refuse .countOrder (cursor.since start)
    else .ok ((least, most), cursor)

/-- The bounds of a count; the left brace comes next. -/
def readCount (verbose : Bool) (cursor : Cursor) : Except PatternError ((Nat × Option Nat) × Cursor) := do
  let start := cursor.place
  let cursor := cursor.advance verbose
  if cursor.atEnd then refuse .countUnclosed (cursor.since start)
  else
    let (least, cursor) := readDecimal verbose cursor
    if cursor.atEnd then refuse .countUnclosed (cursor.since start)
    else if !cursor.isAt ',' then
      let least ← least
      closeCount verbose start least (some least) cursor
    else
      let cursor := cursor.advance verbose
      if cursor.atEnd then refuse .countUnclosed (cursor.since start)
      else if cursor.isAt '}' then closeCount verbose start (← least) none cursor
      else
        let least ← least
        let (most, cursor) := readDecimal verbose cursor
        closeCount verbose start least (some (← most)) cursor

/-! ## Beginnings of groups -/

/-- The flags of a group: changes in the order of the text, each with its place. -/
abbrev PlacedFlags := List (Nat × Flag × Bool)

/-- Flags, and whether a colon ends them and not a parenthesis.  `minus` is the place of the minus sign, if
there has been one, and `dangling` says whether no flag has followed it. -/
def readFlags (n : Nat) (minus : Option Nat) (dangling : Bool) (flags : PlacedFlags) :
    List Char → Except PatternError ((FlagChanges × Bool) × Cursor)
  | [] => refuse .flagCutShort (.place n)
  | c :: cs =>
    if c = ':' ∨ c = ')' then
      match minus, dangling with
      | some place, true => refuse .flagDangling (.char place)
      | _, _ => .ok ((flags.map Prod.snd, c = ':'), ⟨n + 1, cs⟩)
    else if c = '-' then
      match minus with
      | some place => refuseAfter .flagNegatedTwice (.char n) (.char place)
      | none => readFlags (n + 1) (some n) true flags cs
    else
      match Flag.ofChar? c with
      | none => refuse .flagUnknown (.char n)
      | some flag =>
        match flags.find? fun placed => placed.2.1 = flag with
        | some (place, _) => refuseAfter .flagRepeated (.char n) (.char place)
        | none => readFlags (n + 1) minus false (flags ++ [(n, flag, minus.isNone)]) cs

/-- Whether the character may stand in the name of a group. -/
def isNameChar (first : Bool) (c : Char) : Bool :=
  c = '_' || (if first then Text.isLetter c else Text.isLetterOrNumber c || c = '.' || c = '[' || c = ']')

/-- The name of a group, which began at `start` with the characters `newest`, and its end. -/
def readName (start n : Nat) (newest : List Char) : List Char → Except PatternError (List Char × Cursor)
  | [] => refuse .groupNameCutShort (.place n)
  | c :: cs =>
    if c = '>' then
      if newest.isEmpty then refuse .groupNameEmpty (.place start) else .ok (newest.reverse, ⟨n + 1, cs⟩)
    else if isNameChar newest.isEmpty c then readName start (n + 1) (c :: newest) cs
    else refuse .groupNameInvalid (.char n)

/-- The number of characters that begin an assertion about what is around a place. -/
def lookAround? : List Char → Option Nat
  | '?' :: '=' :: _ => some 2
  | '?' :: '!' :: _ => some 2
  | '?' :: '<' :: '=' :: _ => some 3
  | '?' :: '<' :: '!' :: _ => some 3
  | _ => none

/-- What begins with a left parenthesis. -/
inductive Opening where
  /-- a group, remembered or with flags of its own -/
  | group (remembered : Bool) (changes : FlagChanges)
  /-- a group with a name -/
  | named (name : List Char) (span : Span)
  /-- flags for the group around -/
  | flags (changes : FlagChanges)

/-- The beginning of a group; the left parenthesis comes next. -/
def readOpening (verbose : Bool) (cursor : Cursor) : Except PatternError (Opening × Cursor) := do
  let start := cursor.place
  let cursor := cursor.advance verbose
  let named (name : Cursor) : Except PatternError (Opening × Cursor) := do
    let (chars, after) ← readName name.place name.place [] name.rest
    return (.named chars ⟨name.place, name.place + chars.length⟩, after)
  match lookAround? cursor.rest with
  | some length => refuse .lookAround ⟨start, cursor.place + length⟩
  | none =>
    match cursor.rest with
    | '?' :: 'P' :: '<' :: cs => named ⟨cursor.place + 3, cs⟩
    | '?' :: '<' :: cs => named ⟨cursor.place + 2, cs⟩
    | ['?'] => refuse .groupUnclosed (.char start)
    | '?' :: cs =>
      let ((changes, opens), after) ← readFlags (cursor.place + 1) none false [] cs
      if opens then return (.group false changes, after)
      else if changes.isEmpty then refuse .nothingToRepeat cursor.here
      else return (.flags changes, after)
    | _ => return (.group true [], cursor)

/-! ## States -/

/-- **What has been read of a group**, or of the whole text. -/
structure Body where
  /-- where the first branch begins -/
  start : Nat
  /-- the branches before the last bar, newest first -/
  branches : List Expression
  /-- where the last branch begins -/
  branchStart : Nat
  /-- the items of the last branch, newest first -/
  items : List Expression

namespace Body

/-- Nothing has been read. -/
def initial (start : Nat) : Body := ⟨start, [], start, []⟩

/-- A further item. -/
def push (body : Body) (item : Expression) : Body := { body with items := item :: body.items }

/-- The last branch, which ends before `place`. -/
def branch (body : Body) (place : Nat) : Expression :=
  .ofItems ⟨body.branchStart, place⟩ body.items.reverse

/-- A bar stands at `place`. -/
def startBranch (body : Body) (place : Nat) : Body :=
  { body with branches := body.branch place :: body.branches, branchStart := place + 1, items := [] }

/-- All of it, which ends before `place`. -/
def whole (body : Body) (place : Nat) : Expression :=
  match body.branches with
  | [] => body.branch place
  | branches => .alternation ⟨body.start, place⟩ (branches.reverse ++ [body.branch place])

/-- The last item, which a repetition would repeat, and what stands before it. -/
def last? (body : Body) : Option (Expression × Body) :=
  match body.items with
  | [] => none
  | .flags _ _ :: _ => none
  | item :: items => some (item, { body with items := items })

end Body

/-- **An open group**: its place, whether it is remembered, its flags, what stands before it, and whether
blanks may stand there. -/
structure OpenGroup where
  start : Nat
  remembered : Bool
  changes : FlagChanges
  outer : Body
  verbose : Bool

/-- **The state of the reader.** -/
structure ReadState where
  cursor : Cursor
  /-- whether blanks and comments may stand here -/
  verbose : Bool
  /-- the open groups, the innermost first -/
  groups : List OpenGroup
  body : Body
  /-- the names of groups -/
  names : List (List Char × Span)

namespace ReadState

/-- Before the first character. -/
def initial (text : List Char) : ReadState := ⟨⟨0, text⟩, false, [], .initial 0, []⟩

/-- A further item, which ends at a place. -/
def push (state : ReadState) (item : Expression) (cursor : Cursor) : ReadState :=
  { state with body := state.body.push item, cursor := cursor }

/-- Whether blanks may stand in the text after changes of flags. -/
def verboseAfter (state : ReadState) (changes : FlagChanges) : Bool :=
  ((changes.find? fun change => change.1 = .verbose).map Prod.snd).getD state.verbose

/-- A group begins, whose content comes next. -/
def openGroup (state : ReadState) (remembered : Bool) (changes : FlagChanges) (cursor : Cursor) :
    ReadState :=
  let group : OpenGroup := ⟨state.cursor.place, remembered, changes, state.body, state.verbose⟩
  { state with
    cursor := cursor
    verbose := state.verboseAfter changes
    groups := group :: state.groups
    body := .initial cursor.place }

/-- A left parenthesis comes next. -/
def stepOpening (state : ReadState) : Except PatternError ReadState := do
  let (opening, cursor) ← readOpening state.verbose state.cursor
  match opening with
  | .group remembered changes => return state.openGroup remembered changes cursor
  | .named name span =>
    match state.names.find? fun named => named.1 = name with
    | some (_, earlier) => refuseAfter .groupNameRepeated span earlier
    | none => return { state.openGroup true [] cursor with names := (name, span) :: state.names }
  | .flags changes =>
    let item : Expression := .flags (cursor.since state.cursor.place) changes
    return { state.push item cursor with verbose := state.verboseAfter changes }

/-- A right parenthesis comes next. -/
def stepClosing (state : ReadState) : Except PatternError ReadState :=
  match state.groups with
  | [] => refuse .groupUnopened state.cursor.char
  | innermost :: groups =>
    let after := state.cursor.next
    let span := after.since innermost.start
    let content := state.body.whole state.cursor.place
    .ok { state with
      cursor := after
      verbose := innermost.verbose
      groups := groups
      body := innermost.outer.push (.group span innermost.remembered innermost.changes content) }

/-- A repetition comes next: a mark with its bounds, or a count in braces. -/
def stepRepetition (state : ReadState) (mark : Option (Nat × Option Nat)) :
    Except PatternError ReadState :=
  match state.body.last? with
  | none => refuse .nothingToRepeat state.cursor.here
  | some (item, body) => do
    let ((least, most), cursor) ←
      match mark with
      | some bounds =>
        let cursor := state.cursor.next
        .ok (bounds, if cursor.isAt '?' then cursor.next else cursor)
      | none => readCount state.verbose state.cursor
    let repetition : Expression := .repetition (cursor.since item.span.start) item least most
    return { state with body := body.push repetition, cursor := cursor }

/-- **One step**, for the character that comes next. -/
def step (state : ReadState) (c : Char) : Except PatternError ReadState :=
  let cursor := state.cursor
  if c = '(' then state.stepOpening
  else if c = ')' then state.stepClosing
  else if c = '|' then
    .ok { state with cursor := cursor.next, body := state.body.startBranch cursor.place }
  else if c = '[' then
    (CharClass.read state.verbose cursor).map fun (content, cursor) =>
      state.push (.charClass content) cursor
  else if c = '?' then state.stepRepetition (some (0, some 1))
  else if c = '*' then state.stepRepetition (some (0, none))
  else if c = '+' then state.stepRepetition (some (1, none))
  else if c = '{' then state.stepRepetition none
  else if c = '\\' then
    (Escape.read state.verbose cursor).map fun (item, cursor) => state.push item cursor
  else if c = '.' then .ok (state.push (.dot cursor.char) cursor.next)
  else if c = '^' then .ok (state.push (.anchor cursor.char .lineStart) cursor.next)
  else if c = '$' then .ok (state.push (.anchor cursor.char .lineStop) cursor.next)
  else .ok (state.push (.atom (.literal ⟨cursor.char, c, false⟩)) cursor.next)

/-- **The end of the text**, at which no group is open. -/
def finish (state : ReadState) : Except PatternError Expression :=
  match state.groups with
  | [] => .ok (state.body.whole state.cursor.place)
  | innermost :: _ => refuse .groupUnclosed (.char innermost.start)

/-- The steps up to the end of the text.  Every step takes a character, so the steps suffice if they are as
many as the characters. -/
def run : Nat → ReadState → Except PatternError Expression
  | 0, state => state.finish
  | steps + 1, state =>
    let cursor := state.cursor.skip state.verbose
    let state := { state with cursor := cursor }
    match cursor.rest with
    | [] => state.finish
    | c :: _ =>
      match state.step c with
      | .ok next => run steps next
      | .error error => .error error

end ReadState

/-- **The tree of a text**, which must not be too deep. -/
def Expression.read (text : List Char) : Except PatternError Expression :=
  match ReadState.run text.length (.initial text) with
  | .error error => .error error
  | .ok expression =>
    match expression.tooDeep? maxDepth with
    | some span => refuse (.nestingTooDeep maxDepth) span
    | none => .ok expression

end JsonProjection.Pattern
