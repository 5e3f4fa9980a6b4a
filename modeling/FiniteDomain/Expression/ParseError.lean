import FiniteDomain.Text.Decimal

/-!
# Reading errors

A text that cannot be read is rejected with a message and the byte offset, in the UTF-8 form of the
text, at which the fault was found. An error carries no partial tree.

* `ParseError.expected`, `ParseError.leftOver`: the two kinds of syntax error.
* `ParseError.text`: the error as it is shown.
-/

namespace FiniteDomain

/-- The number of bytes that a list of characters takes in UTF-8. -/
def byteLength (cs : List Char) : Nat :=
  cs.foldr (fun c length => c.utf8Size + length) 0

/-- The byte offset in `whole` at which its ending `rest` starts. -/
def byteOffset (whole rest : List Char) : UInt64 :=
  UInt64.ofNat (byteLength whole - byteLength rest)

/-- Why and where a text could not be read. -/
structure ParseError where
  /-- What is wrong. -/
  message : String
  /-- The byte offset at which the fault was found. -/
  offset : UInt64
  deriving DecidableEq

namespace ParseError

/-- Nothing that starts at `rest` can be read as `what`. -/
def expected (what : String) (whole rest : List Char) : ParseError :=
  ⟨"syntax error: expected " ++ what, byteOffset whole rest⟩

/-- The expression ends at `rest`, but the text does not. -/
def leftOver (whole rest : List Char) : ParseError :=
  ⟨"syntax error near Eof", byteOffset whole rest⟩

/-- The error as it is shown. -/
def text (e : ParseError) : String :=
  e.message ++ " at offset " ++ Decimal.ofUInt64 e.offset

end ParseError

end FiniteDomain
