import FiniteDomain.Expression.DomainReader
import FiniteDomain.Proofs.Expression.ClauseWord
import FiniteDomain.Proofs.Expression.Tracer

/-!
# Reading with a trace

The grammars of domain and constraint expressions with all their labels, read by tracers. Labels
stand inside alternatives and optional parts as well: `upper band` in a range, `']'` in a subscript.
None of those is ever shown, since a later alternative replaces their traces and an optional part
drops them. What is shown is what the parsers say at once where they give up.

## Main results

* `Tracer.traces_domainExpr`, `Tracer.traces_term`, `Tracer.traces_repeaterLists`: the tracers read
  what the readers read.
* `DomainExpr.parseTraced_eq`, `ConstraintExpr.parseTraced_eq`: the errors picked from the traces
  are the errors of the parsers.
-/

namespace FiniteDomain

namespace Tracer

/-! ### Lexemes -/

/-- A fixed character. -/
def symbol (c : Char) : Tracer Unit :=
  ofReader (.symbol c) (Reader.symbol c)

/-- A fixed text. -/
def token (word : List Char) : Tracer Unit :=
  ofReader (.rule .token) (Reader.token word)

/-- A fixed word, read in letters of either case. -/
def keyword (word : List Char) : Tracer Unit :=
  ofReader (.rule .token) (Reader.keyword word)

/-- A name. -/
def name : Tracer String :=
  ofReader (.rule .letters) Reader.name

/-- Digits. -/
def digits : Tracer Nat :=
  ofReader (.rule .digits) Decimal.readDigits

/-- An integer. One that does not fit the word is refused at its start. -/
def integer : Tracer Int64 := fun cs => do
  let (minus, rest) ← optional (symbol '-') cs
  let (n, rest) ← digits rest
  let value ← orComplain (.rule .unfit) cs (Word.ofInt? (if minus.isSome then -n else n))
  return (value, rest)

/-- A natural number. -/
def natural : Tracer UInt64 := fun cs => do
  let (n, rest) ← digits cs
  let value ← orComplain (.rule .unfit) cs (Word.ofNat? n)
  return (value, rest)

/-- Any character but the given one. -/
def otherThan (quote : Char) : Reader Char
  | [] => none
  | c :: rest => if c = quote then none else some (c, rest)

/-- A character in single quotes. -/
def character : Tracer Char := fun cs => do
  let (_, rest) ← symbol '\'' cs
  let (c, rest) ← ofReader (.rule .noneOf) (otherThan '\'') rest
  let (_, rest) ← symbol '\'' rest
  return (c, rest)

/-- An item in double quotes. -/
def item : Tracer String := fun cs => do
  let (_, rest) ← symbol '"' cs
  let (_, after) ← symbol '"' (rest.dropWhile (· != '"'))
  return (String.ofList (rest.takeWhile (· != '"')), after)

/-- What stands between the ends of a range. -/
def rangeSign : Tracer Unit :=
  firstOf [token ['.', '.'], keyword ['r', 'a', 'n', 'g', 'e']]

/-- A non-empty list of items with commas between them. -/
def commaSeparated {α : Type} (t : Tracer α) : Tracer (List α) :=
  separated (padded (symbol ',')) t

/-- A fixed character is complained about where it was to stand. -/
theorem traces_symbol (c : Char) : Traces (symbol c) (Reader.symbol c) :=
  .ofReader _ _

theorem traces_token (word : List Char) : Traces (token word) (Reader.token word) :=
  .ofReader _ _

theorem traces_name : Traces name Reader.name :=
  .ofReader _ _

theorem traces_digits : Traces digits Decimal.readDigits :=
  .ofReader _ _

/-- A fixed character is not read where something else stands. -/
theorem symbol_eq_none {c : Char} {cs : List Char} (h : cs.head? ≠ some c) :
    Reader.symbol c cs = none := by
  cases cs with
  | nil => rfl
  | cons d cs => exact if_neg fun hd => h (congrArg some hd)

/-- The tracer takes a minus sign as an optional part, the reader by a look at the first character.
-/
theorem traces_integer : Traces integer Reader.integer := by
  intro cs
  by_cases hminus : cs.head? = some '-'
  · obtain ⟨rest, rfl⟩ := List.head?_eq_some_iff.1 hminus
    refine (traces_digits rest).bind fun (n, rest) => ?_
    exact (SameReading.orComplain _ _ _).bind fun value => .read (value, rest)
  · -- without a sign the digits are looked for where the number starts
    have hsign : optional (symbol '-') cs = .ok (none, cs) := by
      rw [optional, symbol, ofReader, symbol_eq_none hminus]
      rfl
    rw [integer_of_head?_ne hminus, integer, hsign]
    refine (traces_digits cs).bind fun (n, rest) => ?_
    exact (SameReading.orComplain _ _ _).bind fun value => .read (value, rest)

/-- A number that does not fit the word is refused by both. -/
theorem traces_natural : Traces natural Reader.natural := fun cs =>
  (traces_digits cs).bind fun (_, rest) => (SameReading.orComplain _ _ _).bind fun value =>
    .read (value, rest)

/-- The reader of a character as three steps: a quote, what is not a quote, and a quote. -/
theorem character_eq (cs : List Char) :
    Reader.character cs = (Reader.symbol '\'' cs).bind fun quote =>
      (otherThan '\'' quote.2).bind fun c =>
        (Reader.symbol '\'' c.2).bind fun quote' => some (c.1, quote'.2) := by
  unfold Reader.character
  split
  · next c rest => by_cases hc : c = '\'' <;> simp [Reader.symbol, otherThan, hc]
  · next hno =>
    -- three characters that were read one by one are of the form that was looked for
    symm
    simp only [Option.bind_eq_none_iff, Prod.forall]
    intro _ mid hopen c mid' hc _ rest hclose
    obtain rfl := symbol_of_read hopen
    obtain rfl := symbol_of_read hclose
    cases mid with
    | nil => cases hc
    | cons d mid =>
      rw [otherThan, Option.ite_none_left_eq_some] at hc
      obtain ⟨-, ⟨⟩⟩ := hc
      exact (hno c rest rfl).elim

/-- Each of the three steps complains for itself. -/
theorem traces_character : Traces character Reader.character := by
  intro cs
  rw [character_eq]
  refine (traces_symbol '\'' cs).bind fun (_, rest) => ?_
  refine (Traces.ofReader _ _ rest).bind fun (c, rest) => ?_
  exact (traces_symbol '\'' rest).bind fun (_, rest) => .read (c, rest)

/-- The reader of an item as steps: a quote, everything up to the next one, and that quote. -/
theorem item_eq (cs : List Char) :
    Reader.item cs = (Reader.symbol '"' cs).bind fun quote =>
      (Reader.symbol '"' (quote.2.dropWhile (· != '"'))).bind fun quote' =>
        some (String.ofList (quote.2.takeWhile (· != '"')), quote'.2) := by
  unfold Reader.item
  split
  · next cs =>
    -- what is taken up to a quote ends at one or at the end of the text
    have hstop := List.head?_dropWhile_not (· != '"') cs
    rw [Reader.symbol, if_pos rfl, Option.bind_some]
    cases hrest : cs.dropWhile (· != '"') with
    | nil => rfl
    | cons c rest =>
      obtain rfl : c = '"' := by simpa [hrest] using hstop
      rw [Reader.symbol, if_pos rfl, Option.bind_some]
  · next hno =>
    rw [symbol_eq_none, Option.bind_none]
    intro hhead
    obtain ⟨rest, hcs⟩ := List.head?_eq_some_iff.1 hhead
    exact hno rest hcs

/-- Only the two quotes can be missing, since an item may be empty. -/
theorem traces_item : Traces item Reader.item := by
  intro cs
  rw [item_eq]
  refine (traces_symbol '"' cs).bind fun (_, rest) => ?_
  exact (traces_symbol '"' _).bind fun (_, after) => .read (_, after)

/-- Both try the dots before the word. -/
theorem traces_rangeSign : Traces rangeSign Reader.rangeSign :=
  (Alternatives.cons (.ofReader _ _) (.last (.ofReader _ _))).traces

/-- Lists with commas between the items are read alike if their items are. -/
theorem traces_commaSeparated {α : Type} {t : Tracer α} {p : Reader α} (h : Traces t p) :
    Traces (commaSeparated t) (Reader.commaSeparated p) :=
  .separated (traces_symbol ',').padded h

/-! ### Domain expressions -/

/-- An argument of a function call. -/
def argument : Tracer Argument :=
  firstOf [map .integer integer, map .name name]

/-- A function call with at least one argument. -/
def call : Tracer Call := fun cs => do
  let (function, rest) ← name cs
  let (_, rest) ← padded (symbol '(') rest
  let (arguments, rest) ← commaSeparated (padded argument) rest
  let (_, rest) ← labelled "')'" (padded (symbol ')')) rest
  return (⟨function, arguments⟩, rest)

/-- One end of a range. -/
def band : Tracer Band :=
  firstOf [map .integer integer, map .character character, map .call call]

/-- Two bands with the range sign between them. -/
def range : Tracer DomainExpr := fun cs => do
  let (low, rest) ← band cs
  let (_, rest) ← padded rangeSign rest
  let (high, rest) ← labelled "upper band" band rest
  return (.range low high, rest)

/-- A table slice. -/
def slice : Tracer Slice := fun cs => do
  let (table, rest) ← name cs
  let (_, rest) ← padded (symbol '!') rest
  let (column, rest) ← labelled "column index" (padded natural) rest
  let (_, rest) ← padded (symbol ':') rest
  let (row, rest) ← labelled "row index" (padded natural) rest
  return (⟨table, column, row⟩, rest)

/-- The name of a shared domain, with its dollar sign. -/
def sharedName : Tracer String := fun cs => do
  let (_, rest) ← symbol '$' cs
  labelled "domain name" name rest

/-- A list of items. -/
def itemList : Tracer (List String) :=
  labelled "domain expression" (commaSeparated (padded item))

/-- A domain expression. -/
def domainExpr : Tracer DomainExpr :=
  firstOf [range, map .table slice, map .shared sharedName, map .list itemList]

/-- Both try a number before a name. -/
theorem traces_argument : Traces argument Reader.argument :=
  (Alternatives.cons (traces_integer.map _) (.last (traces_name.map _))).traces

/-- A call is read alike part by part. The label is on the closing bracket only. -/
theorem traces_call : Traces call Reader.call := fun cs =>
  (traces_name cs).bind fun (_, rest) => ((traces_symbol '(').padded rest).bind fun (_, rest) =>
    (traces_commaSeparated traces_argument.padded rest).bind fun (_, rest) =>
      ((traces_symbol ')').padded.labelled _ rest).bind fun _ => .read _

/-- Both try a number, then a character, then a call. -/
theorem traces_band : Traces band Reader.band :=
  (Alternatives.cons (traces_integer.map _) (.cons (traces_character.map _)
    (.last (traces_call.map _)))).traces

/-- A range is read alike part by part. The label is on its upper end only. -/
theorem traces_range : Traces range Reader.range := fun cs =>
  (traces_band cs).bind fun (_, rest) => (traces_rangeSign.padded rest).bind fun (_, rest) =>
    (traces_band.labelled _ rest).bind fun _ => .read _

/-- A table slice is read alike part by part, with labels on both indices. -/
theorem traces_slice : Traces slice Reader.slice := fun cs =>
  (traces_name cs).bind fun (_, rest) => ((traces_symbol '!').padded rest).bind fun (_, rest) =>
    (traces_natural.padded.labelled _ rest).bind fun (_, rest) =>
      ((traces_symbol ':').padded rest).bind fun (_, rest) =>
        (traces_natural.padded.labelled _ rest).bind fun _ => .read _

/-- The label asks for a name, once a dollar sign is there. -/
theorem traces_sharedName : Traces sharedName Reader.sharedName := fun cs =>
  (traces_symbol '$' cs).bind fun (_, rest) => traces_name.labelled _ rest

/-- The label of a list of items asks for a domain expression, since the list is the last form of
one that is tried. -/
theorem traces_itemList : Traces itemList (Reader.commaSeparated (Reader.padded Reader.item)) :=
  (traces_commaSeparated traces_item.padded).labelled _

/-- Both try a range, a slice, a shared domain and a list of items, in this order. -/
theorem traces_domainExpr : Traces domainExpr Reader.domainExpr :=
  (Alternatives.cons traces_range (.cons (traces_slice.map _) (.cons (traces_sharedName.map _)
    (.last (traces_itemList.map _))))).traces

/-! ### Constraint expressions -/

/-- A number or a counter. -/
def index : Tracer Index :=
  firstOf [map .literal integer, map .counter name]

/-- A constant. -/
def literal : Tracer Literal :=
  firstOf [map .integer integer, map .character character, map .item item]

/-- An index in brackets. -/
def subscript : Tracer Index := fun cs => do
  let (_, rest) ← padded (symbol '[') cs
  let (i, rest) ← padded index rest
  let (_, rest) ← labelled "']'" (padded (symbol ']')) rest
  return (i, rest)

/-- A dot and the name of a field. -/
def fieldName : Tracer String := fun cs => do
  let (_, rest) ← symbol '.' cs
  name rest

/-- A reference to a variable. -/
def reference : Tracer Reference := fun cs => do
  let (_, rest) ← optional (symbol '$') cs
  let (n, rest) ← name rest
  let (i, rest) ← optional subscript rest
  match i with
  | none => return (.singleton n, rest)
  | some i =>
    let (f, rest) ← optional fieldName rest
    match f with
    | none => return (.element n i, rest)
    | some f => return (.field n i f, rest)

/-- An operand. -/
def operand : Tracer Operand :=
  firstOf [map .literal literal, map .reference reference]

/-- A plus or minus sign. -/
def sign : Tracer Sign :=
  ofReader (.rule .oneOf) Reader.sign

/-- A signed amount. -/
def adjustment : Tracer Adjustment := fun cs => do
  let (s, rest) ← padded sign cs
  let (amount, rest) ← labelled "infix value" (padded index) rest
  return (⟨s, amount⟩, rest)

/-- One side of a comparison. -/
def term : Tracer Term := fun cs => do
  let (o, rest) ← operand cs
  let (a, rest) ← optional adjustment rest
  return (⟨o, a⟩, rest)

/-- One spelling of a comparison. -/
def spelling (word : List Char) (c : Comparison) : Tracer Comparison :=
  map (fun _ => c) (token word)

/-- A comparison. -/
def comparison : Tracer Comparison :=
  firstOf (Reader.comparisonSpellings.map fun (word, c) => spelling word c)

/-- The offset of a bound. An amount whose negation does not fit the word is refused
where the offset starts. -/
def boundOffset : Tracer Int64 := fun cs => do
  let (s, rest) ← padded sign cs
  let (amount, rest) ← padded integer rest
  let offset ← orComplain (.rule .refused) cs <|
    match s with
    | .plus => some amount
    | .minus => Word.negExact? amount
  return (offset, rest)

/-- One end of a counter's range. -/
def bound : Tracer Bound := fun cs => do
  let (value, rest) ← padded index cs
  let (offset, rest) ← optional boundOffset rest
  return (⟨value, offset.getD 0⟩, rest)

/-- The upper end of a range that has two ends. -/
def upperBound : Tracer Bound := fun cs => do
  let (_, rest) ← padded rangeSign cs
  bound rest

/-- A counter's range. -/
def counterRange : Tracer (Option Bound × Bound) := fun cs => do
  let (first, rest) ← bound cs
  let (second, rest) ← optional upperBound rest
  match second with
  | some high => return ((some first, high), rest)
  | none => return ((none, first), rest)

/-- The counters and the ranges of a repeater clause. -/
def repeaterLists : Tracer (List String × List (Option Bound × Bound)) := fun cs => do
  let (_, rest) ← padded (symbol '|') cs
  let (names, rest) ← labelled "counter declaration" (commaSeparated (padded name)) rest
  let (_, rest) ← labelled "'in'" (padded (keyword ['i', 'n'])) rest
  let (ranges, rest) ← labelled "counter range" (commaSeparated counterRange) rest
  return ((names, ranges), rest)

/-- A repeater clause. That a counter has no range, or a range no counter, is a final failure. -/
def repeater : Tracer (List Counter) := fun cs => do
  let ((names, ranges), rest) ← repeaterLists cs
  if names.length = ranges.length then return (declareCounters names ranges, rest)
  else .error (.final [⟨.label "one range per counter", rest⟩])

/-- A constraint expression. -/
def constraintExpr : Tracer ConstraintExpr := fun cs => do
  let (left, rest) ← labelled "expression" term cs
  let (comparison, rest) ← labelled "relational operator" (padded comparison) rest
  let (right, rest) ← labelled "expression" term rest
  let (repeater, rest) ← optional repeater rest
  return (⟨left, comparison, right, repeater⟩, rest)

/-- Both try a number before a counter. -/
theorem traces_index : Traces index Reader.index :=
  (Alternatives.cons (traces_integer.map _) (.last (traces_name.map _))).traces

/-- Both try a number, then a character, then an item. -/
theorem traces_literal : Traces literal Reader.literal :=
  (Alternatives.cons (traces_integer.map _) (.cons (traces_character.map _)
    (.last (traces_item.map _)))).traces

/-- A subscript is read alike part by part. The label is on the closing bracket only. -/
theorem traces_subscript : Traces subscript Reader.subscript := fun cs =>
  ((traces_symbol '[').padded cs).bind fun (_, rest) => (traces_index.padded rest).bind
    fun (i, rest) => ((traces_symbol ']').padded.labelled _ rest).bind fun (_, rest) =>
      .read (i, rest)

theorem traces_fieldName : Traces fieldName Reader.fieldName := fun cs =>
  (traces_symbol '.' cs).bind fun (_, rest) => traces_name rest

/-- The parts after the name are optional. -/
theorem reference_eq (cs : List Char) :
    Reader.reference cs = (Reader.optional (Reader.symbol '$') cs).bind fun dollar =>
      (Reader.name dollar.2).bind fun n =>
        (Reader.optional Reader.subscript n.2).bind fun i =>
          i.1.elim (some (.singleton n.1, i.2)) fun index =>
            (Reader.optional Reader.fieldName i.2).bind fun f =>
              some (f.1.elim (.element n.1 index) (.field n.1 index), f.2) := by
  refine Option.bind_congr fun dollar _ => Option.bind_congr fun (n, rest) _ => ?_
  simp only [Reader.optional]
  cases Reader.subscript rest with
  | none => rfl
  | some r =>
    simp only [Option.bind_some, Option.elim_some]
    cases Reader.fieldName r.2 <;> rfl

/-- The tracer reads optional parts one after the other and then looks at which of them were there.
-/
theorem traces_reference : Traces reference Reader.reference := by
  intro cs
  rw [reference_eq]
  refine ((traces_symbol '$').optional cs).bind fun (_, rest) => ?_
  refine (traces_name rest).bind fun (n, rest) => ?_
  refine (traces_subscript.optional rest).bind fun (i, rest) => ?_
  -- a field is looked for only after a subscript
  cases i with
  | none => exact .read _
  | some i =>
    refine (traces_fieldName.optional rest).bind fun (f, rest) => ?_
    cases f with
    | none => exact .read _
    | some f => exact .read _

/-- Both try a constant before a reference. -/
theorem traces_operand : Traces operand Reader.operand :=
  (Alternatives.cons (traces_literal.map _) (.last (traces_reference.map _))).traces

theorem traces_sign : Traces sign Reader.sign :=
  .ofReader _ _

/-- An adjustment is read alike part by part. The label is on its amount. -/
theorem traces_adjustment : Traces adjustment Reader.adjustment := fun cs =>
  (traces_sign.padded cs).bind fun (_, rest) =>
    (traces_index.padded.labelled _ rest).bind fun _ => .read _

/-- The adjustment after an operand is optional for both. -/
theorem traces_term : Traces term Reader.term := fun cs =>
  (traces_operand cs).bind fun (_, rest) => (traces_adjustment.optional rest).bind fun _ => .read _

/-- Tracing one spelling after the other reads the first one that the text starts with. -/
theorem alternatives_spelling (table : List (List Char × Comparison)) :
    Alternatives (table.map fun (word, c) => spelling word c) fun cs =>
      table.findSome? fun (word, c) => Reader.map (fun _ => c) (Reader.token word) cs := by
  -- along the table: the first spelling reads, or the others are tried
  induction table with
  | nil => exact .nil
  | cons entry table ih =>
    obtain ⟨word, c⟩ := entry
    intro cs trace
    have hcons := Alternatives.cons ((traces_token word).map fun _ => c) ih cs trace
    rw [Reader.orElse] at hcons
    simp only [List.findSome?_cons]
    cases hword : Reader.map (fun _ => c) (Reader.token word) cs with
    | none => rwa [hword, Option.none_or] at hcons
    | some r => rwa [hword, Option.some_or] at hcons

/-- Both try the spellings of comparisons in the order of one table. -/
theorem traces_comparison : Traces comparison Reader.comparison :=
  (alternatives_spelling Reader.comparisonSpellings).traces

/-- A subtracted amount is negated by both, and refused by both where that does not fit the word. -/
theorem traces_boundOffset : Traces boundOffset Reader.boundOffset := by
  intro cs
  refine (traces_sign.padded cs).bind fun (s, rest) => ?_
  refine (traces_integer.padded rest).bind fun (amount, rest) => ?_
  cases s with
  | plus => exact .read _
  | minus => exact (SameReading.orComplain _ _ _).bind fun _ => .read _

theorem traces_bound : Traces bound Reader.bound := fun cs =>
  (traces_index.padded cs).bind fun (_, rest) => (traces_boundOffset.optional rest).bind
    fun _ => .read _

theorem traces_upperBound : Traces upperBound Reader.upperBound := fun cs =>
  (traces_rangeSign.padded cs).bind fun (_, rest) => traces_bound rest

/-- A range with one end is its upper end for both. -/
theorem traces_counterRange : Traces counterRange Reader.counterRange := by
  intro cs
  refine (traces_bound cs).bind fun (first, rest) => ?_
  refine (traces_upperBound.optional rest).bind fun (second, rest) => ?_
  cases second with
  | none => exact .read _
  | some high => exact .read _

/-- The two lists of a clause are read alike. Whether they go together is not asked here. -/
theorem traces_repeaterLists : Traces repeaterLists Reader.repeaterLists := fun cs =>
  ((traces_symbol '|').padded cs).bind fun (_, rest) =>
    ((traces_commaSeparated traces_name.padded).labelled _ rest).bind fun (_, rest) =>
      (((Traces.ofReader _ _).padded).labelled _ rest).bind fun (_, rest) =>
        ((traces_commaSeparated traces_counterRange).labelled _ rest).bind fun _ => .read _

/-! ### Labels that are shown -/

variable (cs : List Char)

/-- A missing character is complained about by a remark that is no label. -/
theorem blames_symbol (c : Char) : Blames none (symbol c cs) :=
  .orComplain rfl _

theorem blames_name : Blames none (name cs) :=
  .orComplain rfl _

/-- An item that was not read has no label in its trace: one of its quotes is missing. -/
theorem blames_item : Blames none (item cs) :=
  (blames_symbol cs '"').bind fun (_, _) => (blames_symbol _ '"').bind fun _ => .ok _ _

/-- The list of items is the last alternative of a domain expression, and its first item is what
fails. -/
theorem blames_domainExpr :
    Blames (some ⟨.label "domain expression", cs⟩) (domainExpr cs) := by
  have hlist : Blames none (commaSeparated (padded item) cs) := by
    refine ((blames_item (Text.skipLayout cs)).map _).bind fun (a, rest) => ?_
    -- the items after the first one end the list, they do not fail
    show Blames none (further _ _ rest >>= _)
    rw [(traces_symbol ',').padded.further traces_item.padded]
    exact .ok _ _
  exact Blames.firstOf traces_domainExpr rfl ((hlist.labelled _).map _)

/-- The reference is the last alternative of an operand, and only its name can be missing. -/
theorem blames_reference : Blames none (reference cs) := by
  refine (Blames.optional (traces_symbol '$') none cs).bind fun (_, rest) => ?_
  refine (blames_name rest).bind fun (n, rest) => ?_
  refine (Blames.optional traces_subscript none rest).bind fun (i, rest) => ?_
  cases i with
  | none => exact .ok _ _
  | some i =>
    refine (Blames.optional traces_fieldName none rest).bind fun (f, rest) => ?_
    cases f <;> exact .ok _ _

/-- The reference is what fails last in a term, and no label is in its trace. The adjustment is
optional. -/
theorem blames_term : Blames none (term cs) := by
  have hoperand : Blames none (operand cs) :=
    Blames.firstOf traces_operand rfl ((blames_reference cs).map _)
  exact hoperand.bind fun (_, rest) => (Blames.optional traces_adjustment none rest).bind
    fun _ => .ok _ _

/-- The last spelling of a comparison is what fails last, by its rule. -/
theorem blames_comparison : Blames none (comparison cs) :=
  Blames.firstOf traces_comparison rfl ((Blames.orComplain rfl _).map _)

/-- Only that the counters and the ranges do not go together is shown of a repeater clause. -/
theorem mapError_repeater (whole : List Char) :
    (optional repeater cs).mapError (.ofFailure whole) = readRepeater whole cs := by
  rw [optional, repeater, readRepeater]
  -- the lists fail with labels of their own, which the optional part drops
  rcases (traces_repeaterLists cs).elim with ⟨⟨⟨names, ranges⟩, rest⟩, ht, hp⟩ | ⟨trace, ht, hp⟩
  · rw [ht, hp]
    by_cases hlength : names.length = ranges.length
    · simp only [bind, Except.bind, if_pos hlength]
      rfl
    · simp only [bind, Except.bind, if_neg hlength]
      rfl
  · rw [ht, hp]
    rfl

end Tracer

/-! ### Whole texts -/

/-- Reads a domain expression and picks the error from the trace. -/
def DomainExpr.parseTraced (text : String) : Except ParseError DomainExpr :=
  if Text.isBlankText text then .error ⟨"empty domain expression", 0⟩
  else (Tracer.entire Tracer.domainExpr text.toList).mapError (.ofFailure text.toList)

/-- Reads a constraint expression and picks the error from the trace. -/
def ConstraintExpr.parseTraced (text : String) : Except ParseError ConstraintExpr :=
  if Text.isBlankText text then .error ⟨"empty constraint expression", 0⟩
  else do
    let tree ← (Tracer.entire Tracer.constraintExpr text.toList).mapError (.ofFailure text.toList)
    checkCounters (barOffset text.toList) tree
    return tree

/-- Errors can be changed step by step. -/
theorem mapError_bind {ε ε' α β : Type} (g : ε → ε') (x : Except ε α) (f : α → Except ε β) :
    (x >>= f).mapError g = x.mapError g >>= fun a => (f a).mapError g := by
  cases x <;> rfl

/-- Text that is left over is the only remark of its trace. -/
theorem mapError_ending {α : Type} (whole rest : List Char) (a : α) :
    (Tracer.ending a rest).mapError (ParseError.ofFailure whole) =
      match Text.skipLayout rest with
      | [] => .ok a
      | rest => .error (ParseError.leftOver whole rest) := by
  rw [Tracer.ending]
  cases Text.skipLayout rest <;> rfl

/-- The error picked from the trace is the one that the parser reports. -/
theorem DomainExpr.parseTraced_eq (text : String) :
    DomainExpr.parseTraced text = DomainExpr.parse text := by
  rw [parseTraced, parse]
  split
  · rfl
  · rw [Tracer.entire, mapError_bind]
    rcases (Tracer.traces_domainExpr (Text.skipLayout text.toList)).elim with
      ⟨⟨tree, rest⟩, ht, hp⟩ | ⟨trace, ht, hp⟩
    · rw [ht]
      simp only [hp]
      exact mapError_ending text.toList rest tree
    · simp only [hp]
      rw [ht]
      exact congrArg Except.error
        (ParseError.ofFailure_eq (Tracer.blames_domainExpr _ _ ht) text.toList)

example : Tracer.range "1..".toList = .error (.recoverable
    [⟨.rule .letters, []⟩, ⟨.rule .choice, []⟩, ⟨.label "upper band", []⟩]) := by
  decide

example : DomainExpr.parseTraced "1.." =
    .error ⟨"syntax error: expected domain expression", 0⟩ := by
  decide

/-- The parts of a constraint expression fail with their own labels, one after the other. -/
theorem ConstraintExpr.mapError_entire (whole : List Char) :
    (Tracer.entire Tracer.constraintExpr whole).mapError (.ofFailure whole) =
      ConstraintExpr.readTree whole := by
  have hterm (cs : List Char) := Tracer.traces_term.mapError_labelled (Tracer.blames_term cs)
    "expression" whole
  have hcomparison (cs : List Char) := Tracer.traces_comparison.padded.mapError_labelled
    ((Tracer.blames_comparison (Text.skipLayout cs)).map _) "relational operator" whole
  -- one part after the other, each required with its label
  rw [Tracer.entire, Tracer.constraintExpr, readTree, bind_assoc, mapError_bind, hterm]
  refine bind_congr fun (left, rest) => ?_
  show ((Tracer.labelled _ _ rest >>= _) >>= _).mapError _ = _
  rw [bind_assoc, mapError_bind, hcomparison]
  refine bind_congr fun (comparison, rest) => ?_
  show ((Tracer.labelled _ _ rest >>= _) >>= _).mapError _ = _
  rw [bind_assoc, mapError_bind, hterm]
  refine bind_congr fun (right, rest) => ?_
  show ((Tracer.optional _ rest >>= _) >>= _).mapError _ = _
  rw [bind_assoc, mapError_bind, Tracer.mapError_repeater]
  exact bind_congr fun (repeater, rest) => mapError_ending whole rest _

/-- The error picked from the trace is the one that the parser reports. -/
theorem ConstraintExpr.parseTraced_eq (text : String) :
    ConstraintExpr.parseTraced text = ConstraintExpr.parse text := by
  rw [parseTraced, parse, mapError_entire]

end FiniteDomain
