import FiniteDomain.Text.Blank
import FiniteDomain.Text.Decimal
import FiniteDomain.Word

/-!
# Lexemes

Readers for the words, numbers and quoted texts that domain and constraint expressions share. A
reader takes the text that is left and either fails or returns what it read with the text after it.

* `padded`: allows layout on both sides.
* `separated`: a non-empty list; a separator that no item follows is left unread.
-/

namespace FiniteDomain

/-- Reads a value from the start of a text; `none` when the text does not start with one. -/
abbrev Reader (α : Type) : Type :=
  List Char → Option (α × List Char)

/-- A name starts with an ASCII letter or an underscore. -/
def isNameStart (c : Char) : Bool :=
  c == '_' || c.isAlpha

/-- A name goes on with ASCII letters, digits and underscores. -/
def isNameChar (c : Char) : Bool :=
  c == '_' || c.isAlphanum

namespace Reader

/-- Changes the value read. -/
def map {α β : Type} (f : α → β) (p : Reader α) : Reader β := fun cs =>
  (p cs).map fun (a, rest) => (f a, rest)

/-- The first reader, or the second one where the first fails. -/
def orElse {α : Type} (p q : Reader α) : Reader α := fun cs =>
  (p cs).or (q cs)

/-- The value if there is one; otherwise nothing is read. -/
def optional {α : Type} (p : Reader α) : Reader (Option α) := fun cs =>
  match p cs with
  | some (a, rest) => some (some a, rest)
  | none => some (none, cs)

/-- Allows layout before and after. -/
def padded {α : Type} (p : Reader α) : Reader α := fun cs =>
  (p (Text.skipLayout cs)).map fun (a, rest) => (a, Text.skipLayout rest)

/-- A fixed text. -/
def token (word : List Char) : Reader Unit := fun cs =>
  if word.isPrefixOf cs then some ((), cs.drop word.length) else none

/-- A fixed word in small letters, read in letters of either case. -/
def keyword (word : List Char) : Reader Unit := fun cs =>
  if (cs.take word.length).map Char.toLower = word then some ((), cs.drop word.length) else none

/-- A fixed character. -/
def symbol (c : Char) : Reader Unit
  | [] => none
  | d :: rest => if d = c then some ((), rest) else none

/-- The longest name at the start of the text. -/
def name : Reader String
  | [] => none
  | c :: rest =>
    if isNameStart c then
      some (String.ofList (c :: rest.takeWhile isNameChar), rest.dropWhile isNameChar)
    else none

/-- An integer: digits with an optional minus sign directly before them, of a value that fits the
signed word. -/
def integer : Reader Int64
  | '-' :: rest => do
    let (n, rest) ← Decimal.readDigits rest
    let value ← Word.ofInt? (-n)
    return (value, rest)
  | cs => do
    let (n, rest) ← Decimal.readDigits cs
    let value ← Word.ofInt? n
    return (value, rest)

/-- A natural number: digits of a value that fits the unsigned word. -/
def natural : Reader UInt64 := fun cs => do
  let (n, rest) ← Decimal.readDigits cs
  let value ← Word.ofNat? n
  return (value, rest)

/-- A character in single quotes: any but the quote itself. -/
def character : Reader Char
  | '\'' :: c :: '\'' :: rest => if c = '\'' then none else some (c, rest)
  | _ => none

/-- An item in double quotes: any characters but the quote itself. -/
def item : Reader String
  | '"' :: cs =>
    match cs.dropWhile (· != '"') with
    | _ :: rest => some (String.ofList (cs.takeWhile (· != '"')), rest)
    | [] => none
  | _ => none

/-- What stands between the ends of a range: two dots or the word `range`. -/
def rangeSign : Reader Unit :=
  orElse (token ['.', '.']) (keyword ['r', 'a', 'n', 'g', 'e'])

/-- The items after the first one of a list, as far as each is announced by a separator. -/
def further {α : Type} (separator : Reader Unit) (p : Reader α) (cs : List Char) :
    List α × List Char :=
  match (separator cs).bind fun (_, rest) => p rest with
  | none => ([], cs)
  | some (a, rest) =>
    if rest.length < cs.length then
      let (more, rest) := further separator p rest
      (a :: more, rest)
    else ([], cs)
termination_by cs.length

/-- A non-empty list of items with separators between them. -/
def separated {α : Type} (separator : Reader Unit) (p : Reader α) : Reader (List α) := fun cs => do
  let (a, rest) ← p cs
  let (more, rest) := further separator p rest
  return (a :: more, rest)

/-- A non-empty list of items with commas between them. -/
def commaSeparated {α : Type} (p : Reader α) : Reader (List α) :=
  separated (padded (symbol ',')) p

end Reader

end FiniteDomain
