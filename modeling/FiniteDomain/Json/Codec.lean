import FiniteDomain.Json.Basic
import FiniteDomain.Word

/-!
# JSON forms of records and variants

Conventions shared by the JSON forms of models, reports and snapshots.

* A *record* is written as an object. It is also read from an array of all its fields in order.
  Members with other names are ignored; a repeated field is refused.
* A *variant* is written as an object with one member, named for the variant; a variant without
  payload is written as its name.
* Numbers are read as words and must fit them. A character is a string of one character.
-/

namespace FiniteDomain.Json

/-- A signed word. -/
def ofInt64 (n : Int64) : Json :=
  integer n.toInt

/-- An unsigned word. -/
def ofUInt64 (n : UInt64) : Json :=
  integer n.toNat

/-- A character. -/
def ofChar (c : Char) : Json :=
  string (String.ofList [c])

/-- A list. -/
def ofList {α : Type} (encode : α → Json) (items : List α) : Json :=
  array (items.map encode)

/-- An optional string. -/
def ofString? : Option String → Json
  | some s => string s
  | none => null

/-- The signed word that a value is. -/
def int64? : Json → Option Int64
  | integer n => Word.ofInt? n
  | _ => none

/-- The unsigned word that a value is. -/
def uint64? : Json → Option UInt64
  | integer (.ofNat n) => Word.ofNat? n
  | _ => none

/-- The character that a value is. -/
def char? : Json → Option Char
  | string s =>
    match s.toList with
    | [c] => some c
    | _ => none
  | _ => none

/-- The list that a value is. -/
def list? {α : Type} (decode : Json → Option α) : Json → Option (List α)
  | array items => items.mapM decode
  | _ => none

/-- The optional string that a value is. -/
def optionalString? : Json → Option (Option String)
  | null => some none
  | value => value.string?.map some

/-- The members of a name. -/
def membersNamed (name : String) (members : List (String × Json)) : List Json :=
  (members.filter fun m => m.1 == name).map Prod.snd

/-- The member of a name: `some none` when there is none, refused when it is repeated. -/
def member? (members : List (String × Json)) (name : String) : Option (Option Json) :=
  match membersNamed name members with
  | [] => some none
  | [value] => some (some value)
  | _ => none

/-- The fields of a record in order, absent ones as `none`. Of an array, the items are the fields;
it must be as long as the record has fields. -/
def fields? (names : List String) : Json → Option (List (Option Json))
  | object members => names.mapM (member? members)
  | array items => if items.length = names.length then some (items.map some) else none
  | _ => none

/-- A variant with its payload, if it has one. -/
def variant? : Json → Option (String × Option Json)
  | object [(name, payload)] => some (name, some payload)
  | string name => some (name, none)
  | _ => none

/-- A variant with a payload. -/
def ofVariant (name : String) (payload : Json) : Json :=
  object [(name, payload)]

end FiniteDomain.Json
