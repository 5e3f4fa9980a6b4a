import FiniteDomain.Json.Basic
import FiniteDomain.Text.Decimal

/-!
# Writing JSON

JSON text in two layouts: compact, without any layout, and indented by two spaces per level with one
item or member a line. Characters outside ASCII stand for themselves; quotes, backslashes and
control characters are escaped.
-/

namespace FiniteDomain.Json

/-- The hexadecimal digit of a number below 16. -/
def hexDigit (n : Nat) : Char :=
  Nat.digitChar n

/-- A character as it stands in a string literal. -/
def escapeChar (c : Char) : List Char :=
  match c with
  | '"' => ['\\', '"']
  | '\\' => ['\\', '\\']
  | '\x08' => ['\\', 'b']
  | '\x0c' => ['\\', 'f']
  | '\n' => ['\\', 'n']
  | '\r' => ['\\', 'r']
  | '\t' => ['\\', 't']
  | c =>
    if c.toNat < 0x20 then
      ['\\', 'u', '0', '0', hexDigit (c.toNat / 16), hexDigit (c.toNat % 16)]
    else [c]

/-- A string literal. -/
def quote (s : String) : String :=
  "\"" ++ String.ofList (s.toList.flatMap escapeChar) ++ "\""

mutual

/-- A value without layout. -/
def compact : Json → String
  | null => "null"
  | bool value => if value then "true" else "false"
  | integer value => Decimal.ofInt value
  | real literal => literal
  | string value => quote value
  | garbled literal => literal
  | array items => "[" ++ ",".intercalate (compactItems items) ++ "]"
  | object members => "\x7b" ++ ",".intercalate (compactMembers members) ++ "\x7d"

/-- The items of an array without layout. -/
def compactItems : List Json → List String
  | [] => []
  | item :: items => compact item :: compactItems items

/-- The members of an object without layout. -/
def compactMembers : List (String × Json) → List String
  | [] => []
  | (key, value) :: members => (quote key ++ ":" ++ compact value) :: compactMembers members

end

/-- The line break before text at the given depth. -/
def lineBreak (depth : Nat) : String :=
  String.ofList ('\n' :: List.replicate (2 * depth) ' ')

/-- Parts on lines of their own between two brackets; no line breaks when there are none. -/
def bracketed (opening closing : String) (depth : Nat) (parts : List String) : String :=
  if parts.isEmpty then opening ++ closing
  else
    opening ++ lineBreak (depth + 1) ++ ("," ++ lineBreak (depth + 1)).intercalate parts ++
      lineBreak depth ++ closing

mutual

/-- A value with its parts indented below the given depth. -/
def indented (depth : Nat) : Json → String
  | null => "null"
  | bool value => if value then "true" else "false"
  | integer value => Decimal.ofInt value
  | real literal => literal
  | string value => quote value
  | garbled literal => literal
  | array items => bracketed "[" "]" depth (indentedItems depth items)
  | object members => bracketed "\x7b" "\x7d" depth (indentedMembers depth members)

/-- The items of an array, indented. -/
def indentedItems (depth : Nat) : List Json → List String
  | [] => []
  | item :: items => indented (depth + 1) item :: indentedItems depth items

/-- The members of an object, indented. -/
def indentedMembers (depth : Nat) : List (String × Json) → List String
  | [] => []
  | (key, value) :: members =>
    (quote key ++ ": " ++ indented (depth + 1) value) :: indentedMembers depth members

end

/-- A value indented by two spaces per level. -/
def pretty (value : Json) : String :=
  indented 0 value

end FiniteDomain.Json
