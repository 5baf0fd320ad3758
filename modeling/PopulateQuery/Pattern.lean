import PopulateQuery.Text
import PopulateQuery.Text.Alphanumeric

/-!
# Patterns

A directive of a log filter may ask for a field whose value matches a pattern. What matters here is
which texts are patterns that can be used, and what is wrong with the others (`Pattern.fault?`).
-/

namespace PopulateQuery

/-!
## Patterns of text

What a pattern is made of, as far as it decides whether the pattern can be used: a class of
characters is kept without its characters, and a repetition without its bounds. Letters behind a
question mark change the modes of what follows, up to the end of the group that they stand in: `i`
ignores case, `u` works on characters instead of bytes, `x` skips blanks and comments. The letters
behind a hyphen end their modes.
-/

namespace Pattern

/-- A character that stands for itself. -/
structure Literal where
  char : Char
  /-- Whether it is written as a byte with two digits, such as `\x41`. -/
  asByte : Bool := false
  deriving DecidableEq, Repr, Inhabited

/-- A set of characters, or a part of one. -/
inductive CharSet where
  | empty
  | literal (l : Literal)
  | range (low high : Literal)
  /-- A class with a name, such as `[:alpha:]`. -/
  | named (negated : Bool)
  /-- Digits, blanks or the characters of words, such as `\d`. -/
  | shorthand (negated : Bool)
  | union (items : List CharSet)
  /-- An intersection or a difference. -/
  | combined (left right : CharSet)
  | bracketed (negated : Bool) (content : CharSet)
  deriving Inhabited

/-- The union of items; a single one stands for itself. -/
def CharSet.ofItems : List CharSet → CharSet
  | [] => .empty
  | [item] => item
  | items => .union items

/-- The modes that decide what a piece of a pattern means. -/
structure Modes where
  caseless : Bool := false
  unicode : Bool := true
  deriving DecidableEq, Repr, Inhabited

/-- Whether the mode of a letter holds after a change, given whether it held before. -/
def modeAfter (change : List Char) (letter : Char) (before : Bool) : Bool :=
  let (started, ended) := change.span (· != '-')
  started.contains letter || (before && !ended.contains letter)

def Modes.after (change : List Char) (m : Modes) : Modes :=
  ⟨modeAfter change 'i' m.caseless, modeAfter change 'u' m.unicode⟩

end Pattern

/-- A pattern of text, or a part of one. -/
inductive Pattern where
  | empty
  | literal (l : Pattern.Literal)
  | anyChar
  /-- An end of the text or of a line. -/
  | position
  /-- A place with a word on one side, such as `\b`. -/
  | wordBoundary
  /-- Digits, blanks or the characters of words, such as `\d`. -/
  | shorthand (negated : Bool)
  | set (s : Pattern.CharSet)
  /-- A change of modes from here on. -/
  | modes (change : List Char)
  | repeated (p : Pattern)
  /-- A group, whose modes may differ. -/
  | group (name : Option String) (change : List Char) (p : Pattern)
  | sequence (items : List Pattern)
  | choice (branches : List Pattern)
  deriving Inhabited

namespace Pattern

/-- Items one after another; a single one stands for itself. -/
def ofItems : List Pattern → Pattern
  | [] => .empty
  | [item] => item
  | items => .sequence items

/-- A choice between branches; a single one stands for itself. -/
def ofBranches : List Pattern → Pattern
  | [branch] => branch
  | branches => .choice branches

def isRepeatable : Pattern → Bool
  | .empty | .modes _ => false
  | _ => true

/-!
## Reading patterns

`Pattern.read?` reads a text as a pattern, or refuses it: groups and sets have to be closed, a
repetition needs something to repeat, and an escape a meaning. Braces do not delimit anything, so
there are no counted repetitions and no properties of characters. Where a mode says so, blanks
between pieces are skipped, and so are comments from a hash to the end of its line.
-/

open Text Text.Reader

def nestingLimit : Nat := 250

def isAmong (choices : String) (c : Char) : Bool :=
  choices.toList.contains c

/-! ### Gaps -/

def comment : Reader Unit := do
  char '#'
  discard (takeWhile (· != '\n'))
  discard (optional? (char '\n'))

/-- What is skipped between pieces, if anything is. -/
def gap (spaced : Bool) : Reader Unit := do
  if spaced then discard (many (discard (satisfy isBlank) <|> comment))

/-- The next character that is not a blank, where blanks are skipped. Of a comment the hash alone is
skipped. -/
def glance (spaced : Bool) (cs : List Char) : Option Char :=
  if spaced then
    match cs.dropWhile isBlank with
    | '#' :: rest => (rest.dropWhile isBlank).head?
    | rest => rest.head?
  else cs.head?

/-! ### Escapes -/

/-- Whether a character that follows a backslash stands for itself. -/
def isEscapable (c : Char) : Bool :=
  c.toNat < 0x80 && !c.isAlphanum && c != '<' && c != '>'

/-- A character by its code point; there may be gaps in front of the digits. -/
def codePointPiece (spaced : Bool) (count : Nat) (asByte : Bool) : Reader Pattern := do
  let c ← codePoint (do gap spaced; hexDigit) count
  pure (.literal { char := c, asByte })

/-- What a backslash and the character behind it stand for. -/
def escape (spaced : Bool) : Reader Pattern := do
  char '\\'
  match ← satisfy fun _ => true with
  | 'd' | 's' | 'w' => pure (.shorthand false)
  | 'D' | 'S' | 'W' => pure (.shorthand true)
  | 'A' | 'z' => pure .position
  | 'b' | 'B' | '<' | '>' => pure .wordBoundary
  | 'a' => pure (.literal { char := '\x07' })
  | 'f' => pure (.literal { char := '\x0c' })
  | 'n' => pure (.literal { char := '\n' })
  | 'r' => pure (.literal { char := '\r' })
  | 't' => pure (.literal { char := '\t' })
  | 'v' => pure (.literal { char := '\x0b' })
  | 'x' => codePointPiece spaced 2 true
  | 'u' => codePointPiece spaced 4 false
  | 'U' => codePointPiece spaced 8 false
  | c => guard (isEscapable c); pure (.literal { char := c })

/-! ### Sets of characters -/

def classNames : List String :=
  ["alnum", "alpha", "ascii", "blank", "cntrl", "digit", "graph", "lower", "print", "punct",
    "space", "upper", "word", "xdigit"]

def namedClass : Reader CharSet := do
  text "[:"
  let negation ← optional? (char '^')
  let name ← takeSome Char.isAlpha
  guard (classNames.contains (String.ofList name))
  text ":]"
  pure (.named negation.isSome)

def setLeaf (spaced : Bool) : Reader CharSet :=
  (do
    match ← escape spaced with
    | .literal l => pure (.literal l)
    | .shorthand negated => pure (.shorthand negated)
    | _ => failure)
  <|> (do pure (.literal { char := ← satisfy (· != '\\') }))

/-- Whether a hyphen follows that makes a range of what is around it. -/
def rangeFollows (spaced : Bool) : Reader Bool := fun cs =>
  match cs with
  | '-' :: rest => some (!(glance spaced rest).any (isAmong "]-"), cs)
  | _ => some (false, cs)

def leafOrRange (spaced : Bool) : Reader CharSet := do
  let low ← setLeaf spaced
  gap spaced
  if ← rangeFollows spaced then
    char '-'
    gap spaced
    match low, ← setLeaf spaced with
    | .literal low, .literal high => guard (low.char ≤ high.char); pure (.range low high)
    | _, _ => failure
  else pure low

def setOperator : Reader Unit :=
  text "&&" <|> text "--" <|> text "~~"

/-- An item of a set, with a reader for the sets inside it. It starts neither like the end of the
set nor like an operator. -/
def setItem (spaced : Bool) (inner : Reader CharSet) : Reader CharSet := do
  gap spaced
  if (← optional? setOperator).isSome then failure
  match ← peek with
  | some ']' => failure
  | some '[' => namedClass <|> (do char '['; inner)
  | _ => leafOrRange spaced

/-- A closing bracket in front of all else in a set stands for itself, and so do hyphens. -/
def leadingItems (spaced : Bool) : Reader (List CharSet) := do
  let hyphens ← many (do char '-'; gap spaced; pure (.literal { char := '-' }))
  if hyphens.isEmpty then
    pure (← optional? (do char ']'; gap spaced; pure (.literal { char := ']' }))).toList
  else pure hyphens

/-- A set behind its opening bracket, with at most `depth` brackets open. -/
def setWithin (spaced : Bool) : (depth : Nat) → Reader CharSet
  | 0 => failure
  | depth + 1 => do
    let items := many (setItem spaced (setWithin spaced depth))
    gap spaced
    let negation ← optional? (do char '^'; gap spaced)
    let first := .ofItems ((← leadingItems spaced) ++ (← items))
    let others ← many (do gap spaced; setOperator; pure (.ofItems (← items)))
    gap spaced
    char ']'
    pure (.bracketed negation.isSome (others.foldl .combined first))

/-! ### Groups -/

def groupName : Reader String := do
  let first ← satisfy fun c => c == '_' || isAlphabetic c
  let rest ← takeWhile fun c => isAmong "_.[]" c || isAlphanumeric c
  char '>'
  pure (String.ofList (first :: rest))

/-- The letters of a change of modes, each at most once, with at most one hyphen among them that
does not come last. -/
def modeLetters : Reader (List Char) := do
  let change ← takeWhile (isAmong "imsURux-")
  guard (change.Nodup ∧ change.getLast? ≠ some '-')
  pure change

/-! ### Pieces -/

/-- The pieces of a branch, the last one first, and whether gaps are skipped behind them. -/
structure Branch where
  pieces : List Pattern := []
  spaced : Bool
  deriving Inhabited

def Branch.push (b : Branch) (p : Pattern) : Branch :=
  { b with pieces := p :: b.pieces }

/-- What a repetition makes of the last piece. -/
def repetition (b : Branch) : Reader Branch := do
  discard (satisfy (isAmong "*+?"))
  discard (optional? (char '?'))
  match b.pieces with
  | p :: rest => guard p.isRepeatable; pure { b with pieces := .repeated p :: rest }
  | [] => failure

/-- A group or a change of modes, with a reader for what stands in a group. -/
def grouping (inner : Bool → Reader Pattern) (b : Branch) : Reader Branch := do
  char '('
  gap b.spaced
  (do
    text "?P<" <|> text "?<"
    let name ← groupName
    let p ← inner b.spaced
    char ')'
    pure (b.push (.group (some name) [] p)))
  <|> (do
    char '?'
    let change ← modeLetters
    let spaced := modeAfter change 'x' b.spaced
    (do
      char ':'
      let p ← inner spaced
      char ')'
      pure (b.push (.group none change p)))
    <|> (do
      char ')'
      guard (!change.isEmpty)
      pure { b.push (.modes change) with spaced }))
  <|> (do
    let p ← inner b.spaced
    char ')'
    pure (b.push (.group none [] p)))

def charPiece : Reader Pattern := do
  match ← satisfy (!isAmong "*+?|()[\x7b\\" ·) with
  | '.' => pure .anyChar
  | '^' | '$' => pure .position
  | c => pure (.literal { char := c })

/-- One more piece of a branch, or a repetition of the last. -/
def piece (inner : Bool → Reader Pattern) (b : Branch) : Reader Branch := do
  gap b.spaced
  repetition b
  <|> grouping inner b
  <|> (do char '['; pure (b.push (.set (← setWithin b.spaced nestingLimit))))
  <|> (do pure (b.push (← escape b.spaced)))
  <|> (do pure (b.push (← charPiece)))

/-! ### Patterns -/

/-- A branch, and whether gaps are skipped behind it. -/
def branch (inner : Bool → Reader Pattern) (spaced : Bool) : Reader (Pattern × Bool) := do
  let b ← iterate (piece inner) { spaced }
  gap b.spaced
  pure (.ofItems b.pieces.reverse, b.spaced)

/-- A pattern in which less than `depth` groups are open at a time. -/
def patternWithin : (depth : Nat) → (spaced : Bool) → Reader Pattern
  | 0, _ => failure
  | depth + 1, spaced => do
    let next := branch (patternWithin depth)
    let (first, spaced) ← next spaced
    let (branches, _) ← iterate
      (fun (branches, spaced) => do
        char '|'
        let (p, spaced) ← next spaced
        pure (p :: branches, spaced))
      ([first], spaced)
    pure (.ofBranches branches.reverse)

def read? (cs : List Char) : Option Pattern :=
  match patternWithin (nestingLimit + 1) false cs with
  | some (p, []) => some p
  | _ => none

end Pattern

/-!
## Which patterns can be used

A pattern may nest at most 250 deep, and has to match whole characters. In a mode that works on
bytes it may therefore not ask for bytes that are no character of their own. In a mode that works on
characters nothing can be asked that needs a table of Unicode: digits, blanks and the characters of
words are known on bytes only, and so are the two cases of a letter. What fails on these grounds is
as good as unreadable. A boundary of words in Unicode is a fault of its own, which shows only if all
else is in order.
-/

namespace Pattern

/-! ### Nesting -/

mutual

/-- How deep a set nests: brackets, unions and combinations count. -/
def CharSet.height : CharSet → Nat
  | .union items => CharSet.tallest items + 1
  | .combined left right => max left.height right.height + 1
  | .bracketed _ content => content.height + 1
  | _ => 0

def CharSet.tallest : List CharSet → Nat
  | [] => 0
  | s :: rest => max s.height (CharSet.tallest rest)

end

mutual

/-- How deep a pattern nests: groups, repetitions, sequences, choices and sets count. -/
def height : Pattern → Nat
  | .set s => s.height
  | .repeated p => p.height + 1
  | .group _ _ p => p.height + 1
  | .sequence items => tallest items + 1
  | .choice branches => tallest branches + 1
  | _ => 0

def tallest : List Pattern → Nat
  | [] => 0
  | p :: rest => max p.height (tallest rest)

end

/-! ### Support -/

/-- Whether a character is supported outside sets: one that ignores case needs a table, and a byte
by itself has to be a character. -/
def Literal.supported (m : Modes) (l : Literal) : Bool :=
  if m.unicode then !m.caseless else !(l.asByte && 0x80 ≤ l.char.toNat)

/-- Whether a character is supported in a set, which on bytes holds nothing but ASCII. -/
def Literal.supportedInSet (m : Modes) (l : Literal) : Bool :=
  if m.unicode then !m.caseless else l.char.toNat < 0x80

mutual

/-- Whether a set is supported: on bytes nothing may be negated. -/
def CharSet.supported (m : Modes) : CharSet → Bool
  | .empty => true
  | .literal l => l.supportedInSet m
  | .range low high => low.supportedInSet m && high.supportedInSet m
  | .named negated => if m.unicode then !m.caseless else !negated
  | .shorthand negated => !m.unicode && !negated
  | .union items => CharSet.allSupported m items
  | .combined left right => left.supported m && right.supported m
  | .bracketed negated content => content.supported m && (m.unicode || !negated)

def CharSet.allSupported (m : Modes) : List CharSet → Bool
  | [] => true
  | s :: rest => s.supported m && CharSet.allSupported m rest

end

/-- What is known in front of a part of a pattern. -/
structure Survey where
  modes : Modes := {}
  /-- The names of the groups so far. -/
  names : List String := []
  /-- Whether there was a boundary of words in Unicode. -/
  wordBoundary : Bool := false
  deriving DecidableEq, Repr, Inhabited

def Survey.require (s : Survey) (condition : Bool) : Option Survey :=
  if condition then some s else none

mutual

/-- What is known after a part of a pattern, if the part is supported and gives no name that was
given before. -/
def survey : Pattern → Survey → Option Survey
  | .empty, s | .position, s => some s
  | .literal l, s => s.require (l.supported s.modes)
  | .anyChar, s => s.require s.modes.unicode
  | .wordBoundary, s => some { s with wordBoundary := s.wordBoundary || s.modes.unicode }
  | .shorthand negated, s => s.require (!s.modes.unicode && !negated)
  | .set chars, s => s.require (chars.supported s.modes)
  | .modes change, s => some { s with modes := s.modes.after change }
  | .repeated p, s => survey p s
  | .group name change p, s =>
    let outer := s.modes
    let inner := { s with modes := outer.after change, names := name.toList ++ s.names }
    if name.all (!s.names.contains ·) then
      (survey p inner).map fun after => { after with modes := outer }
    else none
  | .sequence items, s => surveyAll items s
  | .choice branches, s => surveyAll branches s

def surveyAll : List Pattern → Survey → Option Survey
  | [], s => some s
  | p :: rest, s => (survey p s).bind (surveyAll rest)

end

/-! ### Faults -/

/-- Why a pattern cannot be used. -/
inductive Fault where
  | unusable
  | wordBoundary
  deriving DecidableEq, Repr, Inhabited

def Fault.message : Fault → String
  | .unusable => "error building NFA"
  | .wordBoundary => "unsupported regex feature for DFAs: cannot build DFAs for regexes with "
    ++ "Unicode word boundaries; switch to ASCII word boundaries, or heuristically enable Unicode "
    ++ "word boundaries or use a different regex engine"

/-- Why a text cannot be used as a pattern, if it cannot. -/
def fault? (text : List Char) : Option Fault :=
  match read? text with
  | none => some .unusable
  | some p =>
    if nestingLimit < p.height then some .unusable
    else
      match survey p {} with
      | none => some .unusable
      | some s => if s.wordBoundary then some .wordBoundary else none

end Pattern

end PopulateQuery
