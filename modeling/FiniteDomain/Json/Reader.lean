import FiniteDomain.Expression.Lexeme
import FiniteDomain.Json.Basic

/-!
# Reading JSON

Reads JSON text as RFC 8259 defines it: no comments, no trailing commas, no leading zeros, no
control characters inside strings. Nesting is bounded by the length of the text, which gives the
reader its fuel: every second call reads at least one character.

* `Json.parse`: reads a whole text.
-/

namespace FiniteDomain.Json

/-- The value of a hexadecimal digit. -/
def hexValue? (c : Char) : Option Nat :=
  if c.isDigit then some (c.toNat - '0'.toNat)
  else if 'a' ≤ c ∧ c ≤ 'f' then some (c.toNat - 'a'.toNat + 10)
  else if 'A' ≤ c ∧ c ≤ 'F' then some (c.toNat - 'A'.toNat + 10)
  else none

/-- The value of four hexadecimal digits. -/
def hexValue4? (a b c d : Char) : Option Nat := do
  let a ← hexValue? a
  let b ← hexValue? b
  let c ← hexValue? c
  let d ← hexValue? d
  return ((a * 16 + b) * 16 + c) * 16 + d

/-- The character that a short escape stands for. -/
def shortEscape? : Char → Option Char
  | '"' => some '"'
  | '\\' => some '\\'
  | '/' => some '/'
  | 'b' => some '\x08'
  | 'f' => some '\x0c'
  | 'n' => some '\n'
  | 'r' => some '\r'
  | 't' => some '\t'
  | _ => none

/-- A part of a string literal: a character, or a 16-bit unit given by an escape. -/
inductive Piece where
  /-- A character that stands for itself or has a short escape. -/
  | char (c : Char)
  /-- A 16-bit unit in hexadecimal. -/
  | unit (n : Nat)

/-- The parts of a string literal after its opening quote, and the text after its closing quote. -/
def readPieces : List Char → Option (List Piece × List Char)
  | [] => none
  | '"' :: rest => some ([], rest)
  | '\\' :: 'u' :: a :: b :: c :: d :: rest => do
    let n ← hexValue4? a b c d
    let (pieces, rest) ← readPieces rest
    return (.unit n :: pieces, rest)
  | '\\' :: e :: rest => do
    let c ← shortEscape? e
    let (pieces, rest) ← readPieces rest
    return (.char c :: pieces, rest)
  | c :: rest =>
    if c.toNat < 0x20 then none
    else do
      let (pieces, rest) ← readPieces rest
      return (.char c :: pieces, rest)

/-- A unit that starts a pair of units for one character. -/
def isHighSurrogate (n : Nat) : Bool :=
  0xD800 ≤ n && n < 0xDC00

/-- A unit that ends a pair of units for one character. -/
def isLowSurrogate (n : Nat) : Bool :=
  0xDC00 ≤ n && n < 0xE000

/-- The text that the parts spell. A pair of surrogates in that order is one character; any other
surrogate spells none. `pending` is a leading surrogate that waits for its partner. -/
def assemble : Option Nat → List Piece → Option (List Char)
  | none, [] => some []
  | some _, [] => none
  | none, .char c :: pieces => (assemble none pieces).map (c :: ·)
  | some _, .char _ :: _ => none
  | none, .unit n :: pieces =>
    if isHighSurrogate n then assemble (some n) pieces
    else if isLowSurrogate n then none
    else (assemble none pieces).map (Char.ofNat n :: ·)
  | some high, .unit n :: pieces =>
    if isLowSurrogate n then
      (assemble none pieces).map
        (Char.ofNat (0x10000 + (high - 0xD800) * 0x400 + (n - 0xDC00)) :: ·)
    else none

/-- A string literal, opening quote included: its text, or `none` when its escapes spell none. -/
def readText : Reader (Option String)
  | '"' :: cs => do
    let (pieces, rest) ← readPieces cs
    return ((assemble none pieces).map String.ofList, rest)
  | _ => none

/-- The part of `cs` that was read when `rest` is left. -/
def consumed (cs rest : List Char) : String :=
  String.ofList (cs.take (cs.length - rest.length))

/-- A string. -/
def readString : Reader Json := fun cs => do
  match ← readText cs with
  | (some text, rest) => return (.string text, rest)
  | (none, rest) => return (.garbled (consumed cs rest), rest)

/-- The longest run of digits, which may not be empty. -/
def readDigitChars : Reader (List Char) := fun cs =>
  let ds := cs.takeWhile Char.isDigit
  if ds.isEmpty then none else some (ds, cs.dropWhile Char.isDigit)

/-- The digits before the point: a single zero, or no leading zero. -/
def readWhole : Reader (List Char)
  | '0' :: rest => some (['0'], rest)
  | cs => readDigitChars cs

/-- The point and the digits after it, if there are any. -/
def readFraction : Reader (List Char)
  | '.' :: rest => do
    let (ds, rest) ← readDigitChars rest
    return ('.' :: ds, rest)
  | cs => some ([], cs)

/-- The sign of an exponent, if there is one. -/
def readExponentSign : List Char → List Char × List Char
  | '+' :: rest => (['+'], rest)
  | '-' :: rest => (['-'], rest)
  | cs => ([], cs)

/-- The exponent, if there is one. -/
def readExponent : Reader (List Char)
  | [] => some ([], [])
  | e :: rest =>
    if e = 'e' ∨ e = 'E' then do
      let (sign, rest) := readExponentSign rest
      let (ds, rest) ← readDigitChars rest
      return (e :: sign ++ ds, rest)
    else some ([], e :: rest)

/-- A number without its sign. -/
def readUnsigned (negative : Bool) : Reader Json := fun cs => do
  let (whole, rest) ← readWhole cs
  let (fraction, rest) ← readFraction rest
  let (exponent, rest) ← readExponent rest
  let magnitude : Int := Decimal.value whole
  if fraction.isEmpty && exponent.isEmpty && !(negative && magnitude == 0) then
    return (.integer (if negative then -magnitude else magnitude), rest)
  else
    let sign := if negative then ['-'] else []
    return (.real (String.ofList (sign ++ whole ++ fraction ++ exponent)), rest)

/-- A number. -/
def readNumber : Reader Json
  | '-' :: rest => readUnsigned true rest
  | cs => readUnsigned false cs

/-- One of the three named values. -/
def readNamed : Reader Json :=
  .orElse (.map (fun _ => .null) (.token ['n', 'u', 'l', 'l'])) <|
    .orElse (.map (fun _ => .bool true) (.token ['t', 'r', 'u', 'e']))
      (.map (fun _ => .bool false) (.token ['f', 'a', 'l', 's', 'e']))

/-- The name of a member with the colon after it. -/
def readKey : Reader (Option String) := fun cs => do
  let (key, rest) ← readText cs
  let (_, rest) ← Reader.padded (Reader.symbol ':') rest
  return (key, rest)

/-- The object with the given members, if all their names spell a text. -/
def objectOf? (members : List (Option String × Json)) : Option Json := do
  return object (← members.mapM fun (key, value) => return (← key, value))

mutual

/-- A value, with nested values read on the fuel given. -/
def readValue : Nat → Reader Json
  | 0, _ => none
  | fuel + 1, cs =>
    match cs with
    | '[' :: rest =>
      match Text.skipLayout rest with
      | ']' :: rest => some (.array [], rest)
      | rest => (readItems fuel rest).map fun (items, rest) => (.array items, rest)
    | '{' :: rest =>
      match Text.skipLayout rest with
      | '}' :: rest => some (.object [], rest)
      | inner => do
        let (members, rest) ← readMembers fuel inner
        return ((objectOf? members).getD (.garbled (consumed cs rest)), rest)
    | '"' :: _ => readString cs
    | _ => Reader.orElse readNamed readNumber cs

/-- The items of an array that has some, with the closing bracket. -/
def readItems : Nat → Reader (List Json)
  | 0, _ => none
  | fuel + 1, cs => do
    let (item, rest) ← readValue fuel cs
    match Text.skipLayout rest with
    | ']' :: rest => return ([item], rest)
    | ',' :: rest =>
      let (items, rest) ← readItems fuel (Text.skipLayout rest)
      return (item :: items, rest)
    | _ => none

/-- The members of an object that has some, with the closing brace. -/
def readMembers : Nat → Reader (List (Option String × Json))
  | 0, _ => none
  | fuel + 1, cs => do
    let (key, rest) ← readKey cs
    let (value, rest) ← readValue fuel rest
    match Text.skipLayout rest with
    | '}' :: rest => return ([(key, value)], rest)
    | ',' :: rest =>
      let (members, rest) ← readMembers fuel (Text.skipLayout rest)
      return ((key, value) :: members, rest)
    | _ => none

end

/-- Reads a text that is one JSON value with layout around it. -/
def parse (text : String) : Option Json := do
  let cs := text.toList
  let (value, rest) ← readValue (2 * cs.length + 2) (Text.skipLayout cs)
  if (Text.skipLayout rest).isEmpty then some value else none

end FiniteDomain.Json
