/-!
# Texts

Characters, byte offsets, and readers of texts: what the readers of expressions, of TOML and of log
filters are made of.
-/

namespace PopulateQuery

/-!
## Blank characters

A populate value may be padded with blanks around every delimiter. A character is blank when it has
the Unicode property `White_Space`: 25 code points in ten ranges (`blankRanges`). Characters that
only look empty, such as the zero-width space U+200B or the byte-order mark U+FEFF, are not blank.
-/

namespace Text

/-- The ranges of code points with the property `White_Space`, both ends included, in increasing
order. -/
def blankRanges : List (Nat × Nat) :=
  [(0x09, 0x0D), (0x20, 0x20), (0x85, 0x85), (0xA0, 0xA0), (0x1680, 0x1680), (0x2000, 0x200A),
    (0x2028, 0x2029), (0x202F, 0x202F), (0x205F, 0x205F), (0x3000, 0x3000)]

def isBlank (c : Char) : Bool :=
  blankRanges.any fun (low, high) => low ≤ c.toNat && c.toNat ≤ high

/-- `cs` without the blanks at its end. -/
def trimEnd (cs : List Char) : List Char :=
  (cs.reverse.dropWhile isBlank).reverse

/-- `cs` without the blanks at its two ends; blanks inside stay. -/
def trim (cs : List Char) : List Char :=
  trimEnd (cs.dropWhile isBlank)

def hasBlank (s : String) : Bool :=
  s.toList.any isBlank

@[simp] theorem trim_nil : trim [] = [] := rfl

/-!
## Byte offsets

Offsets into a text count the bytes of its characters in UTF-8. A part between two offsets exists
only where both stand between characters (`slice?`).
-/

def byteLength : List Char → Nat
  | [] => 0
  | c :: cs => c.utf8Size + byteLength cs

/-- The first `n` bytes of a text and what follows them, if no character has bytes on both sides. -/
def splitBytes? : Nat → List Char → Option (List Char × List Char)
  | 0, cs => some ([], cs)
  | _ + 1, [] => none
  | n + 1, c :: cs =>
    if c.utf8Size ≤ n + 1 then
      (splitBytes? (n + 1 - c.utf8Size) cs).map fun (front, rest) => (c :: front, rest)
    else none

/-- The part of a text from one byte offset up to another. -/
def slice? (cs : List Char) (start stop : Nat) : Option (List Char) := do
  let (_, rest) ← splitBytes? start cs
  let (part, _) ← splitBytes? (stop - start) rest
  pure part

/-!
## Readers

A reader takes what it can from the front of a text, or refuses. Alternatives start again where the
first one started. Repetition (`many`, `iterate`) goes on while its step takes something, so it ends
on every text.
-/

/-- Takes a value from the front of a text and leaves the rest. -/
abbrev Reader := StateT (List Char) Option

namespace Reader

variable {α : Type}

def satisfy (p : Char → Bool) : Reader Char := fun
  | c :: rest => if p c then some (c, rest) else none
  | [] => none

def char (c : Char) : Reader Unit := do
  discard (satisfy (· == c))

def text (s : String) : Reader Unit :=
  s.toList.forM char

/-- The longest run, perhaps empty, of characters that satisfy `p`. -/
def takeWhile (p : Char → Bool) : Reader (List Char) := fun cs => some (cs.span p)

/-- The longest run of characters that satisfy `p`, at least one. -/
def takeSome (p : Char → Bool) : Reader (List Char) := do
  let first ← satisfy p
  let rest ← takeWhile p
  pure (first :: rest)

def atEnd : Reader Unit := fun
  | [] => some ((), [])
  | _ :: _ => none

def peek : Reader (Option Char) := fun cs => some (cs.head?, cs)

/-- What `r` reads, if it does not refuse. -/
def optional? (r : Reader α) : Reader (Option α) :=
  (some <$> r) <|> pure none

/-- Runs `step` as long as it takes something, and returns what is left over. -/
def manyFrom (step : Reader α) (cs : List Char) : List α × List Char :=
  match step cs with
  | none => ([], cs)
  | some (a, rest) =>
    if _h : rest.length < cs.length then
      let (as, rest) := manyFrom step rest
      (a :: as, rest)
    else ([], cs)
termination_by cs.length

/-- As many as there are of what `step` reads, perhaps none. -/
def many (step : Reader α) : Reader (List α) := fun cs => some (manyFrom step cs)

/-- Where `step` leads from a state when it is repeated as long as it takes something, and what is
left over. -/
def iterateFrom {σ : Type} (step : σ → Reader σ) (s : σ) (cs : List Char) : σ × List Char :=
  match step s cs with
  | none => (s, cs)
  | some (next, rest) =>
    if _h : rest.length < cs.length then iterateFrom step next rest else (s, cs)
termination_by cs.length

/-- Repeats a step from state to state, perhaps not once. -/
def iterate {σ : Type} (step : σ → Reader σ) (s : σ) : Reader σ := fun cs =>
  some (iterateFrom step s cs)

/-- One or more of what `item` reads, with `separator` between neighbours. -/
def separated (separator : Reader Unit) (item : Reader α) : Reader (List α) := do
  let first ← item
  let rest ← many (do separator; item)
  pure (first :: rest)

def require (a : Option α) : Reader α := fun cs => a.map (·, cs)

end Reader

/-!
## Digits

The worth of digits in the bases up to sixteen, and the characters that are written by the digits of
their code points.
-/

open Reader

def digitValue (c : Char) : Nat :=
  if c.isDigit then c.toNat - '0'.toNat else c.toLower.toNat - 'a'.toNat + 10

def digitsValue (base : Nat) (digits : List Char) : Nat :=
  digits.foldl (fun n c => n * base + digitValue c) 0

def isHexDigit (c : Char) : Bool :=
  c.isDigit || ('a' ≤ c && c ≤ 'f') || ('A' ≤ c && c ≤ 'F')

def isOctalDigit (c : Char) : Bool :=
  '0' ≤ c && c ≤ '7'

def isBinaryDigit (c : Char) : Bool :=
  c == '0' || c == '1'

def hexDigit : Reader Char := satisfy isHexDigit

/-- The character of a code point written with `count` digits in base sixteen, each read by `digit`;
surrogates have none. -/
def codePoint (digit : Reader Char) (count : Nat) : Reader Char := do
  let digits ← (List.replicate count ()).mapM fun _ => digit
  let n := digitsValue 16 digits
  guard n.isValidChar
  pure (Char.ofNat n)

end Text

end PopulateQuery
