/-!
# JSON

The values that descriptors are written as and read from, and the two texts that a value is
written as.
-/

namespace PopulateQuery

/-!
## JSON values

The values that descriptors are written as and read from. The members of an object keep the order in
which they are listed, and a number is a whole number of decimal units.
-/

inductive Json where
  | null
  | bool (value : Bool)
  /-- The number `mantissa * 10 ^ (-decimals)`. -/
  | number (mantissa : Int) (decimals : Nat)
  | string (text : String)
  | array (items : List Json)
  | object (members : List (String × Json))
  deriving Repr, Inhabited

/-!
## JSON texts

Two ways to write a JSON value: `Json.compact` without any blank, and `Json.pretty` with one item
or member a line, indented by two spaces a level. Only the quote, the backslash and the characters
below U+0020 are escaped; all others stand for themselves. Both writers append to a text that they
are given, so a value of any depth is written in one pass.
-/

namespace Json

/-- The lower-case hexadecimal digit of a number below 16. -/
def hexDigit (n : Nat) : Char :=
  "0123456789abcdef".toList.getD n '0'

/-- The characters that stand for `c` inside a quoted text. -/
def escape (c : Char) : List Char :=
  match c with
  | '"' => ['\\', '"']
  | '\\' => ['\\', '\\']
  | '\x08' => ['\\', 'b']
  | '\t' => ['\\', 't']
  | '\n' => ['\\', 'n']
  | '\x0c' => ['\\', 'f']
  | '\r' => ['\\', 'r']
  | c =>
    if c.toNat < 0x20 then ['\\', 'u', '0', '0', hexDigit (c.toNat / 16), hexDigit (c.toNat % 16)]
    else [c]

def quote (text : String) : String :=
  "\"" ++ String.ofList (text.toList.flatMap escape) ++ "\""

/-- A number in positional notation. -/
def numberText (mantissa : Int) (decimals : Nat) : String :=
  if decimals = 0 then toString mantissa
  else
    let unit := Nat.pow 10 decimals
    let fraction := toString (mantissa.natAbs % unit)
    (if mantissa < 0 then "-" else "") ++ toString (mantissa.natAbs / unit) ++ "."
      ++ "".pushn '0' (decimals - fraction.length) ++ fraction

mutual

/-- Appends the compact text of a value to `out`. -/
def appendCompact (out : String) : Json → String
  | null => out ++ "null"
  | bool value => out ++ (if value then "true" else "false")
  | number mantissa decimals => out ++ numberText mantissa decimals
  | string text => out ++ quote text
  | array items => appendItems (out ++ "[") items ++ "]"
  | object members => appendMembers (out ++ "\x7b") members ++ "\x7d"

def appendItems (out : String) : List Json → String
  | [] => out
  | [item] => appendCompact out item
  | item :: rest => appendItems (appendCompact out item ++ ",") rest

def appendMembers (out : String) : List (String × Json) → String
  | [] => out
  | [(key, value)] => appendCompact (out ++ quote key ++ ":") value
  | (key, value) :: rest =>
    appendMembers (appendCompact (out ++ quote key ++ ":") value ++ ",") rest

end

def compact (value : Json) : String :=
  appendCompact "" value

/-- The start of a line at a level of indentation. -/
def newLine (level : Nat) : String :=
  "\n".pushn ' ' (2 * level)

mutual

/-- Appends the indented text of a value that stands at a level. -/
def appendPretty (level : Nat) (out : String) : Json → String
  | array (item :: rest) =>
    appendPrettyItems (level + 1) (out ++ "[") (item :: rest) ++ newLine level ++ "]"
  | object (member :: rest) =>
    appendPrettyMembers (level + 1) (out ++ "\x7b") (member :: rest) ++ newLine level ++ "\x7d"
  | array [] => out ++ "[]"
  | object [] => out ++ "\x7b\x7d"
  | null => out ++ "null"
  | bool value => out ++ (if value then "true" else "false")
  | number mantissa decimals => out ++ numberText mantissa decimals
  | string text => out ++ quote text

def appendPrettyItems (level : Nat) (out : String) : List Json → String
  | [] => out
  | [item] => appendPretty level (out ++ newLine level) item
  | item :: rest =>
    appendPrettyItems level (appendPretty level (out ++ newLine level) item ++ ",") rest

def appendPrettyMembers (level : Nat) (out : String) : List (String × Json) → String
  | [] => out
  | [(key, value)] => appendPretty level (out ++ newLine level ++ quote key ++ ": ") value
  | (key, value) :: rest =>
    appendPrettyMembers level
      (appendPretty level (out ++ newLine level ++ quote key ++ ": ") value ++ ",") rest

end

def pretty (value : Json) : String :=
  appendPretty 0 "" value

end Json

end PopulateQuery
