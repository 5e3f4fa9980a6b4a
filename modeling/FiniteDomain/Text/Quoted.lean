import FiniteDomain.Text.Invisible

/-!
# Quoted text in diagnostics

Texts in diagnostics stand in double quotes. Quotes and backslashes, control characters and other
characters without a visible form are escaped.
-/

namespace FiniteDomain.Quoted

/-- The hexadecimal digits of a number. -/
def hexDigits (n : Nat) : List Char :=
  Nat.toDigits 16 n

/-- A character as it stands between quotes. -/
def escapeChar (c : Char) : List Char :=
  match c with
  | '"' => ['\\', '"']
  | '\\' => ['\\', '\\']
  | '\n' => ['\\', 'n']
  | '\r' => ['\\', 'r']
  | '\t' => ['\\', 't']
  | '\x00' => ['\\', '0']
  | c => if Text.isInvisible c then ['\\', 'u', '{'] ++ hexDigits c.toNat ++ ['}'] else [c]

/-- A text in quotes. -/
def quote (s : String) : String :=
  String.ofList ('"' :: s.toList.flatMap escapeChar ++ ['"'])

end FiniteDomain.Quoted
