/-!
# JSON values

Models, snapshots and reports are exchanged as JSON. Objects keep their members in order, repeated
names included, so that a reader can refuse repetitions and a writer can fix the order.

Numbers are integers without fraction or exponent; every other number, and negative zero, is kept as
written, since no field of a model takes one. A string literal whose escapes name no Unicode text is
kept as written as well, and so is an object with such a member name: it is legal JSON text, but no
string or object.
-/

namespace FiniteDomain

/-- A JSON value. -/
inductive Json where
  /-- The value `null`. -/
  | null
  /-- A truth value. -/
  | bool (value : Bool)
  /-- An integer without fraction or exponent. -/
  | integer (value : Int)
  /-- Any other number, as written. -/
  | real (literal : String)
  /-- A string. -/
  | string (value : String)
  /-- A string or an object with a name in which an escape stands for no character, as written. -/
  | garbled (literal : String)
  /-- A list of values. -/
  | array (items : List Json)
  /-- Named values in order. -/
  | object (members : List (String × Json))

namespace Json

/-- The members of an object. -/
def members? : Json → Option (List (String × Json))
  | object members => some members
  | _ => none

/-- The items of an array. -/
def items? : Json → Option (List Json)
  | array items => some items
  | _ => none

/-- The value of a string. -/
def string? : Json → Option String
  | string value => some value
  | _ => none

/-- The value of a truth value. -/
def bool? : Json → Option Bool
  | bool value => some value
  | _ => none

end Json

end FiniteDomain
