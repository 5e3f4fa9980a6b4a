/-!
# Blank characters

Two classes of blank characters are in use. *Layout* is what the grammars skip between tokens:
space, tab, carriage return and line feed. *White space* is the Unicode property `White_Space`,
which is trimmed from names, table cells and expressions before they are looked at.

* `skipLayout`: drops leading layout.
* `trimStart`, `trimEnd`, `trim`: drop white space at one end or both.
* `isLayout_isBlank`: layout is white space.
-/

namespace FiniteDomain.Text

/-- Layout between tokens: space, tab, carriage return, line feed. -/
def isLayout (c : Char) : Bool :=
  c == ' ' || c == '\t' || c == '\r' || c == '\n'

/-- The characters with the Unicode property `White_Space`. -/
def isBlank (c : Char) : Bool :=
  let n := c.toNat
  (0x9 ≤ n && n ≤ 0xD) || n == 0x20 || n == 0x85 || n == 0xA0 || n == 0x1680 ||
    (0x2000 ≤ n && n ≤ 0x200A) || n == 0x2028 || n == 0x2029 || n == 0x202F || n == 0x205F ||
    n == 0x3000

/-- Layout is white space. -/
theorem isLayout_isBlank {c : Char} (h : isLayout c = true) : isBlank c = true := by
  simp only [isLayout, Bool.or_eq_true, beq_iff_eq] at h
  rcases h with ((h | h) | h) | h <;> subst h <;> decide

/-- Drops leading layout. -/
def skipLayout (cs : List Char) : List Char :=
  cs.dropWhile isLayout

/-- Drops leading white space. -/
def trimStart (cs : List Char) : List Char :=
  cs.dropWhile isBlank

/-- Drops trailing white space. -/
def trimEnd (cs : List Char) : List Char :=
  (cs.reverse.dropWhile isBlank).reverse

/-- Drops white space at both ends. -/
def trim (s : String) : String :=
  String.ofList (trimEnd (trimStart s.toList))

/-- The text holds nothing but white space. -/
def isBlankText (s : String) : Bool :=
  s.toList.all isBlank

/-- Skipping layout never lengthens a text. -/
theorem length_skipLayout_le (cs : List Char) : (skipLayout cs).length ≤ cs.length :=
  (List.dropWhile_sublist _).length_le

end FiniteDomain.Text
