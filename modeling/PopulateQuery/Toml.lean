import PopulateQuery.Text

/-!
# TOML

What reads an options file as a document: values and tables, the plain values, texts between
quotes, and the lines of a document.
-/

namespace PopulateQuery

/-!
## TOML values and tables

A TOML document is a table, built up line by line. Whether a later line may add to a table depends
on how the table came to be (`Origin`), so every table remembers that while it is built. The one
operation on tables is `within`: it goes down a path of keys, makes the tables that are missing,
and changes the table at the end.
-/

namespace Toml

/-- How a table came to be. -/
inductive Origin where
  /-- A header of its own, or the document itself. -/
  | header
  /-- A longer header went through it. -/
  | implied
  /-- A dotted key went through it. -/
  | dotted
  /-- It was written between braces, which closes it for good. -/
  | inline
  deriving DecidableEq, Repr, Inhabited

/-- A TOML value. Floats and dates are told from other values, but their worth is not kept. -/
inductive Value where
  | string (text : String)
  | integer (value : Int)
  | float
  | boolean (value : Bool)
  | moment
  | array (items : List Value)
  | table (origin : Origin) (entries : List (String × Value))
  /-- The tables under one repeated header, in order. -/
  | tables (rows : List (List (String × Value)))
  deriving Repr, Inhabited

/-- The entries of a table, in the order of their keys' first appearance. -/
abbrev Entries := List (String × Value)

namespace Entries

def get? (entries : Entries) (key : String) : Option Value :=
  entries.lookup key

/-- Replaces the value of a key by what `change` makes of it, or adds one at the end; refuses if
`change` does. -/
def alter (key : String) (change : Option Value → Option Value) : Entries → Option Entries
  | [] => (change none).map fun v => [(key, v)]
  | (k, v) :: rest =>
    if k = key then (change (some v)).map fun v => (k, v) :: rest
    else (alter key change rest).map ((k, v) :: ·)

def add (key : String) (value : Value) : Entries → Option Entries :=
  alter key fun
    | none => some value
    | some _ => none

end Entries

def changeLast (change : Entries → Option Entries) : List Entries → Option (List Entries)
  | [] => none
  | [row] => (change row).map fun row => [row]
  | row :: next :: rest => (changeLast change (next :: rest)).map (row :: ·)

/-- Changes the table that a path of keys leads to. Missing tables are made as `made`, a table on
the way may be entered if `enter` allows its origin, and a repeated table at its last row. -/
def within (made : Origin) (enter : Origin → Bool)
    (change : Origin → Entries → Option Entries) :
    List String → Origin → Entries → Option Entries
  | [], origin, entries => change origin entries
  | key :: path, _, entries =>
    entries.alter key fun
      | none => (within made enter change path made []).map (.table made)
      | some (.table origin inner) =>
        if enter origin then (within made enter change path origin inner).map (.table origin)
        else none
      | some (.tables rows) =>
        (changeLast (within made enter change path .header) rows).map .tables
      | some _ => none

/-- Gives a value to a dotted key, as seen from the table that the line stands in. All keys but the
last name tables that only dotted keys may have made. -/
def assign (key : List String) (value : Value) (origin : Origin) (entries : Entries) :
    Option Entries := do
  let name ← key.getLast?
  let path := key.dropLast
  let put : Origin → Entries → Option Entries := fun origin entries =>
    if path.isEmpty || origin == .dotted then entries.add name value else none
  within .dotted (fun origin => origin == .implied || origin == .dotted) put path origin entries

def inlineTable (pairs : List (List String × Value)) : Option Value := do
  let entries ← pairs.foldlM (fun entries (key, value) => assign key value .inline entries) []
  some (.table .inline entries)

/-! ### Documents -/

/-- One line of a document that says something. -/
inductive Line where
  | pair (key : List String) (value : Value)
  | header (path : List String)
  | repeatedHeader (path : List String)
  deriving Repr, Inhabited

/-- A document as far as it has been read: its entries, and the table that lines now add to. -/
structure Draft where
  entries : Entries := []
  place : List String := []

namespace Draft

def change (d : Draft) (path : List String) (f : Origin → Entries → Option Entries) :
    Option Entries :=
  within .implied (· != .inline) f path .header d.entries

/-- Opens the table of a header: a new one, or one that only longer headers went through. -/
def openTable (name : String) : Entries → Option Entries :=
  Entries.alter name fun
    | none => some (.table .header [])
    | some (.table .implied inner) => some (.table .header inner)
    | some _ => none

def openRow (name : String) : Entries → Option Entries :=
  Entries.alter name fun
    | none => some (.tables [[]])
    | some (.tables rows) => some (.tables (rows ++ [[]]))
    | some _ => none

def addLine (d : Draft) : Line → Option Draft
  | .pair key value => do
    let entries ← d.change d.place (assign key value)
    some { d with entries }
  | .header path => do
    let name ← path.getLast?
    let entries ← d.change path.dropLast fun _ => openTable name
    some ⟨entries, path⟩
  | .repeatedHeader path => do
    let name ← path.getLast?
    let entries ← d.change path.dropLast fun _ => openRow name
    some ⟨entries, path⟩

end Draft

/-- The document that lines make up, unless a line contradicts the ones before it. -/
def ofLines (lines : List Line) : Option Entries :=
  (lines.foldlM Draft.addLine {}).map Draft.entries

/-!
## Numbers, dates and truth values

The plain values of TOML. Integers fit 64 bits with a sign, may have single underscores between
digits and, in base ten, no leading zero. A float may be as small as it likes, but a positive one
may not round to infinity. A date is a day of the calendar.
-/

open Text Text.Reader

/-! ### Numbers -/

/-- Digits, with at most one underscore between neighbours. -/
def digitRun (isDigit : Char → Bool) : Reader (List Char) := do
  let first ← satisfy isDigit
  let rest ← many (satisfy isDigit <|> (do char '_'; satisfy isDigit))
  pure (first :: rest)

/-- Decimal digits of a whole number: a zero stands alone. -/
def wholeDigits : Reader (List Char) :=
  (do char '0'; pure ['0']) <|> digitRun Char.isDigit

/-- A sign that may be missing; whether it is a minus. -/
def sign : Reader Bool :=
  (do char '-'; pure true) <|> (do char '+'; pure false) <|> pure false

/-- A whole number after a mark for its base, which takes no sign. -/
def markedInteger (mark : String) (base : Nat) (isDigit : Char → Bool) : Reader Int := do
  text mark
  let digits ← digitRun isDigit
  pure (digitsValue base digits)

def decimalInteger : Reader Int := do
  let negative ← sign
  let digits ← wholeDigits
  let n : Int := digitsValue 10 digits
  pure (if negative then -n else n)

def integer : Reader Value := do
  let n ← markedInteger "0x" 16 isHexDigit <|> markedInteger "0o" 8 isOctalDigit
    <|> markedInteger "0b" 2 isBinaryDigit <|> decimalInteger
  guard (-0x8000000000000000 ≤ n && n ≤ 0x7FFFFFFFFFFFFFFF)
  pure (.integer n)

/-- The least number that rounds to infinity among floats of 64 bits: half a unit above the
greatest finite one. -/
def infiniteFrom : Nat :=
  Nat.pow 2 1024 - Nat.pow 2 970

/-- Whether `digits * 10 ^ exponent` rounds to infinity. Numbers far from the bound are settled by
their count of digits alone. -/
def roundsToInfinity (digits : Nat) (exponent : Int) : Bool :=
  let magnitude : Int := exponent + (toString digits).length
  if digits = 0 || magnitude < 309 then false
  else if 310 < magnitude then true
  else infiniteFrom * Nat.pow 10 (-exponent).toNat ≤ digits * Nat.pow 10 exponent.toNat

def fraction : Reader (List Char) := do
  char '.'
  digitRun Char.isDigit

def exponent : Reader Int := do
  char 'e' <|> char 'E'
  let negative ← sign
  let digits ← digitRun Char.isDigit
  let n : Int := digitsValue 10 digits
  pure (if negative then -n else n)

/-- A float with a fraction, a power of ten, or both. -/
def float : Reader Value := do
  let negative ← sign
  let whole ← wholeDigits
  let fraction ← optional? fraction
  let power ← optional? exponent
  guard (fraction.isSome || power.isSome)
  let fractionDigits := fraction.getD []
  let digits := digitsValue 10 (whole ++ fractionDigits)
  guard (negative || !roundsToInfinity digits (power.getD 0 - fractionDigits.length))
  pure .float

def specialFloat : Reader Value := do
  discard sign
  text "inf" <|> text "nan"
  pure .float

/-! ### Dates and times -/

/-- A number of exactly `count` digits, from `low` to `high`. -/
def fixedNumber (count low high : Nat) : Reader Nat := do
  let digits ← (List.replicate count ()).mapM fun _ => satisfy Char.isDigit
  let n := digitsValue 10 digits
  guard (low ≤ n && n ≤ high)
  pure n

def daysInMonth (year month : Nat) : Nat :=
  if month = 2 then
    if year % 4 = 0 && (year % 100 != 0 || year % 400 = 0) then 29 else 28
  else if [4, 6, 9, 11].contains month then 30
  else 31

def date : Reader Unit := do
  let year ← fixedNumber 4 0 9999
  char '-'
  let month ← fixedNumber 2 1 12
  char '-'
  discard (fixedNumber 2 1 (daysInMonth year month))

/-- A time of day, with a leap second and any fraction of a second. -/
def time : Reader Unit := do
  discard (fixedNumber 2 0 23)
  char ':'
  discard (fixedNumber 2 0 59)
  char ':'
  discard (fixedNumber 2 0 60)
  discard (optional? (do char '.'; takeSome Char.isDigit))

def offset : Reader Unit :=
  char 'Z' <|> char 'z' <|> do
    char '+' <|> char '-'
    discard (fixedNumber 2 0 23)
    char ':'
    discard (fixedNumber 2 0 59)

/-- A date, a time, or a date with a time and perhaps an offset. -/
def moment : Reader Value := do
  (do date
      discard (optional? (do
        char 'T' <|> char 't' <|> char ' '
        time
        discard (optional? offset)))) <|> time
  pure .moment

/-! ### All of them -/

def boolean : Reader Value :=
  (do text "true"; pure (.boolean true)) <|> (do text "false"; pure (.boolean false))

def plainValue : Reader Value :=
  moment <|> float <|> integer <|> specialFloat <|> boolean

end Toml

/-!
## Quoted texts

TOML writes texts between quotes, where a backslash starts an escape, or between apostrophes,
where nothing is escaped; three of either enclose a text of several lines. No form holds a control
character other than the tab, and line ends are kept as line feeds.
-/

namespace Toml

open Text Text.Reader

/-- Whether a character is a tab, or no control character of ASCII. -/
def isPrintable (c : Char) : Bool :=
  c == '\t' || (0x20 ≤ c.toNat && c.toNat != 0x7F)

/-- The end of a line: a line feed, perhaps with a carriage return before it. -/
def newline : Reader Unit :=
  char '\n' <|> text "\r\n"

def isSpace (c : Char) : Bool :=
  c == ' ' || c == '\t'

def spaces : Reader Unit := do
  discard (takeWhile isSpace)

/-! ### Escapes -/

def escaped : Reader Char := do
  char '\\'
  match ← satisfy fun _ => true with
  | 'b' => pure '\x08'
  | 'f' => pure '\x0c'
  | 'n' => pure '\n'
  | 'r' => pure '\r'
  | 't' => pure '\t'
  | 'u' => codePoint hexDigit 4
  | 'U' => codePoint hexDigit 8
  | '\\' => pure '\\'
  | '"' => pure '"'
  | _ => failure

/-! ### Texts on one line -/

def isQuotedChar (c : Char) : Bool :=
  isPrintable c && c != '"' && c != '\\'

def isLiteralChar (c : Char) : Bool :=
  isPrintable c && c != '\''

def quotedText : Reader String := do
  char '"'
  let parts ← many (takeSome isQuotedChar <|> (do pure [← escaped]))
  char '"'
  pure (String.ofList parts.flatten)

def literalText : Reader String := do
  char '\''
  let body ← takeWhile isLiteralChar
  char '\''
  pure (String.ofList body)

/-! ### Texts of several lines -/

/-- One or two marks that do not close the text. -/
def innerMarks (mark : Char) : Reader (List Char) := do
  let marks ← takeSome (· == mark)
  guard (marks.length < 3)
  pure marks

/-- The three marks that close a text, after at most two that belong to it. -/
def closingMarks (mark : Char) : Reader (List Char) := do
  let marks ← takeSome (· == mark)
  guard (3 ≤ marks.length && marks.length ≤ 5)
  pure (marks.drop 3)

def innerNewline : Reader (List Char) := do
  newline
  pure ['\n']

/-- A backslash at the end of a line, which joins it to the next one that is not blank. -/
def joinedLines : Reader (List Char) := do
  char '\\'
  spaces
  newline
  discard (many (newline <|> (do discard (takeSome isSpace))))
  pure []

/-- A text of several lines between `mark`s, made of `part`s. A line end right at its start does not
belong to it. -/
def longText (mark : Char) (part : Reader (List Char)) : Reader String := do
  char mark
  char mark
  char mark
  discard (optional? newline)
  let parts ← many (part <|> innerNewline <|> innerMarks mark)
  let last ← closingMarks mark
  pure (String.ofList (parts.flatten ++ last))

def longQuotedText : Reader String :=
  longText '"' (takeSome isQuotedChar <|> joinedLines <|> (do pure [← escaped]))

def longLiteralText : Reader String :=
  longText '\'' (takeSome isLiteralChar)

def anyText : Reader Value := do
  let text ← longQuotedText <|> quotedText <|> longLiteralText <|> literalText
  pure (.string text)

end Toml

/-!
## Reading documents

`Toml.read?` reads a whole text as the entries of its top-level table, or refuses it. Arrays and
inline tables nest less than eighty deep, and a dotted key has less than eighty parts.
-/

namespace Toml

open Text Text.Reader

/-- How deep values may not nest, and how many parts a key may not have. -/
def nestingLimit : Nat := 80

def comment : Reader Unit := do
  char '#'
  discard (takeWhile isPrintable)

/-! ### Keys -/

def isBareKeyChar (c : Char) : Bool :=
  c.isAlphanum || c == '-' || c == '_'

def keyPart : Reader String :=
  quotedText <|> literalText <|> (do pure (String.ofList (← takeSome isBareKeyChar)))

/-- A key: parts with dots between them. -/
def key : Reader (List String) := do
  let parts ← separated (char '.') do
    spaces
    let part ← keyPart
    spaces
    pure part
  guard (parts.length < nestingLimit)
  pure parts

def pair (value : Reader Value) : Reader (List String × Value) := do
  let key ← key
  char '='
  spaces
  let value ← value
  spaces
  pure (key, value)

/-! ### Values -/

/-- What may stand between the items of an array: blanks, line ends and remarks. -/
def gap : Reader Unit := do
  discard (many ((do discard (takeSome isSpace)) <|> newline <|> comment))

/-- An array of what `item` reads; a comma may follow the last item. -/
def array (item : Reader Value) : Reader Value := do
  char '['
  let items ← optional? do
    let items ← separated (char ',') do
      gap
      let value ← item
      gap
      pure value
    discard (optional? (char ','))
    pure items
  gap
  char ']'
  pure (.array (items.getD []))

def bracedTable (value : Reader Value) : Reader Value := do
  char '\x7b'
  let pairs ← optional? (separated (char ',') (pair value))
  spaces
  char '\x7d'
  require (inlineTable (pairs.getD []))

/-- A value that nests at most `depth` deep. -/
def value : Nat → Reader Value
  | 0 => anyText <|> plainValue
  | depth + 1 => anyText <|> plainValue <|> array (value depth) <|> bracedTable (value depth)

/-! ### Lines -/

def lineEnd : Reader Unit := do
  spaces
  discard (optional? comment)
  newline <|> atEnd

def repeatedHeader : Reader Line := do
  text "[["
  let path ← key
  text "]]"
  pure (.repeatedHeader path)

def header : Reader Line := do
  char '['
  let path ← key
  char ']'
  pure (.header path)

def pairLine : Reader Line := do
  let (key, value) ← pair (value (nestingLimit - 1))
  pure (.pair key value)

/-- A line, with the blanks in front of the next one; a blank line says nothing. -/
def line : Reader (Option Line) := do
  let line ← (do comment; newline <|> atEnd; pure none) <|> (do newline; pure none)
    <|> (do let line ← repeatedHeader <|> header <|> pairLine; lineEnd; pure (some line))
  spaces
  pure line

/-- A whole document. A byte-order mark in front of it does not count. -/
def document : Reader (List Line) := do
  discard (optional? (char '\ufeff'))
  spaces
  let lines ← many line
  atEnd
  pure (lines.filterMap id)

/-- The entries of a document, unless the text is none. -/
def read? (text : String) : Option Entries := do
  let (lines, _) ← document text.toList
  ofLines lines

end Toml

end PopulateQuery
