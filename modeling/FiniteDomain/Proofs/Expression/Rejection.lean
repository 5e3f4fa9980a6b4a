import FiniteDomain.Proofs.Expression.DomainWord
import FiniteDomain.Proofs.Expression.TracedReading
import FiniteDomain.Proofs.Model.Editing
import FiniteDomain.Proofs.Template.Expansion

/-!
# Rejected texts

Why texts are rejected, and where. An error stands at a place of the text, that is, between two of
its characters: its offset is the number of bytes in front of that place.

A domain expression is rejected as a whole, where it would start, or for what is left after it. A
constraint expression is read in stages, and it is rejected at the stage that it does not get past:
what is missing there is what the error says. A repeater clause that cannot be read is no clause, so
it is left over. Only when all of the text is read are the counters looked at.

## Main definitions

* `offsetAfter`: the offset of a place.
* `DomainRejection`, `ConstraintRejection`: the errors that a text is rejected with.
* `Reached`: the stages that reading a constraint expression comes to.
* `ClauseFault`: what is wrong with the declarations of a clause.

## Main results

* `DomainExpr.parse_eq_error_iff`, `ConstraintExpr.parse_eq_error_iff`: a text is rejected exactly
  with the errors listed.
* `ParseError.classification`: the errors are those picked from the traces, and their offsets are
  places of the text.
-/

namespace FiniteDomain

/-! ### Places in a text -/

/-- The number of bytes in front of a place. -/
def offsetAfter (before : List Char) : UInt64 :=
  UInt64.ofNat (String.ofList before).utf8ByteSize

/-- The bytes of a list of characters are those of the string with these characters. -/
theorem byteLength_eq (cs : List Char) : byteLength cs = (String.ofList cs).utf8ByteSize := by
  induction cs with
  | nil => rfl
  | cons c cs ih =>
    rw [String.ofList_cons, String.utf8ByteSize_append, String.utf8ByteSize_singleton, ← ih]
    rfl

/-- The offset of an ending is the length of what stands before it. -/
theorem byteOffset_eq {whole before rest : List Char} (h : whole = before ++ rest) :
    byteOffset whole rest = offsetAfter before := by
  rw [h, byteOffset, byteLength_eq, byteLength_eq, String.ofList_append, String.utf8ByteSize_append,
    Nat.add_sub_cancel, offsetAfter]

/-- A text that is split as a list of characters is split as a string. -/
theorem eq_append_of_toList {text : String} {before rest : List Char}
    (h : text.toList = before ++ rest) : text = String.ofList before ++ String.ofList rest := by
  rw [← String.ofList_append, ← h, String.ofList_toList]

/-- No place of a text lies after its end, also when the number of bytes does not fit the word. -/
theorem offsetAfter_le {text : String} {before rest : List Char}
    (h : text.toList = before ++ rest) : (offsetAfter before).toNat ≤ text.utf8ByteSize := by
  rw [offsetAfter, UInt64.toNat_ofNat', eq_append_of_toList h, String.utf8ByteSize_append]
  -- a number that does not fit the word only gets smaller
  exact Nat.le_trans (Nat.mod_le _ _) (Nat.le_add_right _ _)

/-- The offset of a place does not fall inside a character. -/
theorem isValid_offsetAfter {text : String} {before rest : List Char}
    (h : text.toList = before ++ rest) (hsize : text.utf8ByteSize < UInt64.size) :
    String.Pos.Raw.IsValid text ⟨(offsetAfter before).toNat⟩ := by
  have htext := eq_append_of_toList h
  have hbefore : (String.ofList before).utf8ByteSize < UInt64.size := by
    rw [htext, String.utf8ByteSize_append] at hsize
    exact Nat.lt_of_le_of_lt (Nat.le_add_right _ _) hsize
  rw [String.Pos.Raw.isValid_iff_exists_append]
  refine ⟨String.ofList before, String.ofList rest, htext, ?_⟩
  rw [offsetAfter, UInt64.toNat_ofNat_of_lt' hbefore]
  rfl

/-! ### Domain expressions -/

/-- A blank text is one that trimming leaves nothing of. -/
theorem Text.isBlankText_iff {text : String} :
    Text.isBlankText text = true ↔ Text.trim text = "" := by
  refine ⟨fun h => ?_, Text.isBlankText_of_trim_eq_empty⟩
  have hstart : Text.trimStart text.toList = [] :=
    List.dropWhile_eq_nil_iff.2 (List.all_eq_true.1 h)
  rw [Text.trim, hstart]
  rfl

/-- The errors that a text is rejected with as a domain expression. -/
inductive DomainRejection (text : String) : ParseError → Prop where
  /-- The text is white space. -/
  | blank (hblank : Text.trim text = "") :
    DomainRejection text ⟨"empty domain expression", 0⟩
  /-- No alternative reads a beginning of what stands after the leading layout. -/
  | unreadable {gap start : List Char} (hblank : Text.isBlankText text = false)
    (hstart : start = Text.skipLayout text.toList) (hrange : Reader.range start = none)
    (hslice : Reader.slice start = none) (hshared : Reader.sharedName start = none)
    (hlist : Reader.commaSeparated (Reader.padded Reader.item) start = none)
    (htext : text.toList = gap ++ start) :
    DomainRejection text ⟨"syntax error: expected domain expression", offsetAfter gap⟩
  /-- More than layout is left after an expression. -/
  | leftOver {start before mid rest : List Char} {tree : DomainExpr}
    (hblank : Text.isBlankText text = false) (hstart : start = Text.skipLayout text.toList)
    (hread : Reader.domainExpr start = some (tree, mid)) (hrest : rest = Text.skipLayout mid)
    (hne : rest ≠ []) (htext : text.toList = before ++ rest) :
    DomainRejection text ⟨"syntax error near Eof", offsetAfter before⟩

/-- What is missing is reported at the bytes that were read before it. -/
theorem ParseError.expected_eq {whole before rest : List Char} (h : whole = before ++ rest)
    (what : String) : ParseError.expected what whole rest =
      ⟨"syntax error: expected " ++ what, offsetAfter before⟩ :=
  congrArg (ParseError.mk _) (byteOffset_eq h)

theorem ParseError.leftOver_eq {whole before rest : List Char} (h : whole = before ++ rest) :
    ParseError.leftOver whole rest = ⟨"syntax error near Eof", offsetAfter before⟩ :=
  congrArg (ParseError.mk _) (byteOffset_eq h)

theorem skipLayout_suffix (cs : List Char) : Text.skipLayout cs <:+ cs :=
  List.dropWhile_suffix _

/-- A domain expression is read from the start of a text. -/
theorem suffix_of_domainExpr {cs rest : List Char} {tree : DomainExpr}
    (h : Reader.domainExpr cs = some (tree, rest)) : rest <:+ cs := by
  obtain ⟨gap, w, gap', -, -, -, rfl⟩ := domainWord_of_read h
  exact ⟨gap ++ (w ++ gap'), by simp⟩

/-- No domain expression is read exactly when none of its four forms is. -/
theorem domainExpr_eq_none_iff {cs : List Char} :
    Reader.domainExpr cs = none ↔ Reader.range cs = none ∧ Reader.slice cs = none ∧
      Reader.sharedName cs = none ∧
        Reader.commaSeparated (Reader.padded Reader.item) cs = none := by
  simp [domainExpr_eq]

/-- A text is rejected as a domain expression exactly with these errors. -/
theorem DomainExpr.parse_eq_error_iff {text : String} {e : ParseError} :
    DomainExpr.parse text = .error e ↔ DomainRejection text e := by
  constructor
  · intro h
    rw [parse] at h
    split at h
    case isTrue hblank =>
      cases h
      exact .blank (Text.isBlankText_iff.1 hblank)
    case isFalse hblank =>
      -- both errors stand where an ending of the text starts
      have hvisible := Bool.eq_false_iff.2 hblank
      have hstart := skipLayout_suffix text.toList
      simp only at h
      split at h
      · next hnone =>
        cases h
        obtain ⟨hrange, hslice, hshared, hlist⟩ := domainExpr_eq_none_iff.1 hnone
        obtain ⟨gap, htext⟩ := hstart
        rw [ParseError.expected_eq htext.symm]
        exact .unreadable hvisible rfl hrange hslice hshared hlist htext.symm
      · next tree mid hread =>
        obtain ⟨before, htext⟩ :=
          ((skipLayout_suffix mid).trans (suffix_of_domainExpr hread)).trans hstart
        split at h
        · cases h
        · next hne =>
          cases h
          rw [ParseError.leftOver_eq htext.symm]
          exact .leftOver hvisible rfl hread rfl hne htext.symm
  · intro h
    cases h with
    | blank hblank => rw [parse, if_pos (Text.isBlankText_iff.2 hblank)]
    | unreadable hblank hstart hrange hslice hshared hlist htext =>
      subst hstart
      have hnone := domainExpr_eq_none_iff.2 ⟨hrange, hslice, hshared, hlist⟩
      rw [parse, if_neg (by simp [hblank])]
      simp only [hnone]
      rw [ParseError.expected_eq htext]
      rfl
    | leftOver hblank hstart hread hrest hne htext =>
      subst hstart hrest
      rw [parse, if_neg (by simp [hblank])]
      simp only [hread]
      rw [ParseError.leftOver_eq htext]

/-! ### The stages of a constraint expression -/

/-- How much of a constraint expression has been read. -/
inductive Stage where
  /-- Nothing. -/
  | start
  /-- The left side. -/
  | left (left : Term)
  /-- The left side and the comparison. -/
  | comparison (left : Term) (comparison : Comparison)
  /-- Both sides. -/
  | sides (left : Term) (comparison : Comparison) (right : Term)
  /-- All of it, with the repeater clause if there is one. -/
  | tree (tree : ConstraintExpr)

/-- The number of parts that are still to be read. -/
def Stage.remaining : Stage → Nat
  | start => 4
  | left _ => 3
  | comparison _ _ => 2
  | sides _ _ _ => 1
  | tree _ => 0

/-- Reads the parts that are still to be read. -/
def Stage.resume (whole rest : List Char) (stage : Stage) : Except ParseError ConstraintExpr :=
  match stage with
  | start => do
    let (l, rest) ← Reader.term.require "expression" whole rest
    resume whole rest (left l)
  | left l => do
    let (c, rest) ← (Reader.padded Reader.comparison).require "relational operator" whole rest
    resume whole rest (comparison l c)
  | comparison l c => do
    let (r, rest) ← Reader.term.require "expression" whole rest
    resume whole rest (sides l c r)
  | sides l c r => do
    let (repeater, rest) ← readRepeater whole rest
    resume whole rest (tree ⟨l, c, r, repeater⟩)
  | tree t =>
    match Text.skipLayout rest with
    | [] => .ok t
    | rest => .error (.leftOver whole rest)
termination_by stage.remaining
decreasing_by all_goals exact Nat.lt_succ_self _

/-- Reading a whole text is reading from the first stage on. -/
theorem readTree_eq_resume (whole : List Char) :
    ConstraintExpr.readTree whole = Stage.start.resume whole (Text.skipLayout whole) := by
  simp only [Stage.resume]
  rfl

/-- Reading the text has come to a stage, and `rest` is left of it. -/
inductive Reached (text : String) : Stage → (rest : List Char) → Prop where
  /-- The leading layout is skipped. -/
  | start (hblank : Text.isBlankText text = false) :
    Reached text .start (Text.skipLayout text.toList)
  /-- The left side is read. -/
  | left {cs rest : List Char} {l : Term} (h : Reached text .start cs)
    (hread : Reader.term cs = some (l, rest)) : Reached text (.left l) rest
  /-- The comparison is read, with the layout around it. -/
  | comparison {cs rest : List Char} {l : Term} {c : Comparison} (h : Reached text (.left l) cs)
    (hread : Reader.padded Reader.comparison cs = some (c, rest)) :
    Reached text (.comparison l c) rest
  /-- The right side is read. -/
  | right {cs rest : List Char} {l r : Term} {c : Comparison}
    (h : Reached text (.comparison l c) cs) (hread : Reader.term cs = some (r, rest)) :
    Reached text (.sides l c r) rest
  /-- No clause can be read. -/
  | plain {rest : List Char} {l r : Term} {c : Comparison} (h : Reached text (.sides l c r) rest)
    (hread : Reader.repeaterLists rest = none) : Reached text (.tree ⟨l, c, r, none⟩) rest
  /-- A clause is read that has one range for each counter. -/
  | repeated {cs rest : List Char} {l r : Term} {c : Comparison} {names : List String}
    {ranges : List (Option Bound × Bound)} (h : Reached text (.sides l c r) cs)
    (hread : Reader.repeaterLists cs = some ((names, ranges), rest))
    (hlength : names.length = ranges.length) :
    Reached text (.tree ⟨l, c, r, some (declareCounters names ranges)⟩) rest

variable {text : String}

/-- With the clause, or without one, the tree is read. -/
theorem Reached.tree {whole cs rest : List Char} {l r : Term} {c : Comparison}
    {repeater : Option (List Counter)} (h : Reached text (.sides l c r) cs)
    (hclause : readRepeater whole cs = .ok (repeater, rest)) :
    Reached text (.tree ⟨l, c, r, repeater⟩) rest := by
  rw [readRepeater] at hclause
  split at hclause
  · next hnone =>
    cases hclause
    exact .plain h hnone
  · next hlists =>
    split at hclause
    case isTrue hlength =>
      cases hclause
      exact .repeated h hlists hlength
    case isFalse => cases hclause

/-- A term is read from the start of a text. -/
theorem suffix_of_term {cs rest : List Char} {t : Term} (h : Reader.term cs = some (t, rest)) :
    rest <:+ cs := by
  obtain ⟨-, w, gap, -, -, rfl⟩ := termWord_of_read h
  exact ⟨w ++ gap, by simp⟩

theorem suffix_of_comparison {cs rest : List Char} {c : Comparison}
    (h : Reader.padded Reader.comparison cs = some (c, rest)) : rest <:+ cs := by
  obtain ⟨gap, mid, gap', -, rfl, -, hread⟩ := exists_of_padded h
  obtain ⟨op, -, rfl⟩ := spelling_of_read hread
  exact ⟨gap ++ (op ++ gap'), by simp⟩

/-- A clause starts with a bar. -/
theorem exists_bar {cs rest : List Char} {lists : List String × List (Option Bound × Bound)}
    (h : Reader.repeaterLists cs = some (lists, rest)) :
    ∃ gap mid, cs = gap ++ '|' :: (mid ++ rest) := by
  simp only [repeaterLists_eq, Option.bind_eq_some_iff, Prod.exists, Option.some.injEq,
    Prod.mk.injEq] at h
  obtain ⟨_, rest₁, hbar, names, rest₂, hnames, _, rest₃, hsign, ranges, rest₄, hranges, -, rfl⟩ :=
    h
  -- the pieces in the order of the text, the bar first
  obtain ⟨gap₁, mid₁, gap₂, -, rfl, -, hbar⟩ := exists_of_padded hbar
  obtain rfl := symbol_of_read hbar
  obtain ⟨gap₃, v, gap₄, -, -, -, -, rfl⟩ := separatedWord_of_read spellsPadded_name hnames
  obtain ⟨gap₅, mid₂, gap₆, -, rfl, -, hsign⟩ := exists_of_padded hsign
  obtain ⟨s, -, rfl⟩ := keyword_of_read hsign
  obtain ⟨gap₇, w, gap₈, -, -, -, -, rfl⟩ :=
    separatedWord_of_read spellsPadded_counterRange hranges
  refine ⟨gap₁, gap₂ ++ (gap₃ ++ (v ++ (gap₄ ++ (gap₅ ++ (s ++ (gap₆ ++ (gap₇ ++ (w ++ gap₈)))))))),
    ?_⟩
  simp

/-- The lists of a clause are read from the start of a text. -/
theorem suffix_of_repeaterLists {cs rest : List Char}
    {lists : List String × List (Option Bound × Bound)}
    (h : Reader.repeaterLists cs = some (lists, rest)) : rest <:+ cs := by
  obtain ⟨gap, mid, rfl⟩ := exists_bar h
  exact ⟨gap ++ '|' :: mid, by simp⟩

/-- What is left at a stage is an ending of the text. -/
theorem Reached.suffix {stage : Stage} {rest : List Char} (h : Reached text stage rest) :
    rest <:+ text.toList := by
  induction h with
  | start => exact skipLayout_suffix text.toList
  | left _ hread ih => exact (suffix_of_term hread).trans ih
  | comparison _ hread ih => exact (suffix_of_comparison hread).trans ih
  | right _ hread ih => exact (suffix_of_term hread).trans ih
  | plain _ _ ih => exact ih
  | repeated _ hread _ ih => exact (suffix_of_repeaterLists hread).trans ih

/-- A text with a clause has a bar. -/
theorem Reached.bar_mem {t : ConstraintExpr} {rest : List Char} (h : Reached text (.tree t) rest)
    (hclause : t.repeater ≠ none) : '|' ∈ text.toList := by
  cases h with
  | plain => exact absurd rfl hclause
  | repeated h hread =>
    obtain ⟨gap, mid, rfl⟩ := exists_bar hread
    exact h.suffix.subset (by simp)

/-! ### Declarations -/

/-- Bounds only use counters to their left, and no counter is declared twice. -/
def Declared (counters : List Counter) : Prop :=
  Template.Scoped [] counters ∧ (counters.map Counter.name).Nodup

/-- What is wrong with the first counter of a clause that breaks a rule. -/
inductive ClauseFault (counters : List Counter) : (message : String) → Prop where
  /-- A bound uses a counter that is not declared to its left. -/
  | early {before after : List Counter} {c : Counter} {name : String}
    (hcounters : counters = before ++ c :: after) (hbefore : Declared before)
    (hname : (undeclared (before.map Counter.name) c.bounds).head? = some name) :
    ClauseFault counters ("counter `" ++ name ++ "` is used before it is declared")
  /-- A counter is declared once more. -/
  | twice {before after : List Counter} {c : Counter}
    (hcounters : counters = before ++ c :: after) (hbefore : Declared before)
    (hscope : undeclared (before.map Counter.name) c.bounds = [])
    (hname : c.name ∈ before.map Counter.name) :
    ClauseFault counters ("counter `" ++ c.name ++ "` is declared twice")

/-- Adds one counter to the declared ones. -/
def declareCounter (offset : UInt64) (declared : List String) (c : Counter) :
    Except ParseError (List String) :=
  match undeclared declared c.bounds with
  | name :: _ => .error ⟨"counter `" ++ name ++ "` is used before it is declared", offset⟩
  | [] =>
    if declared.contains c.name then
      .error ⟨"counter `" ++ c.name ++ "` is declared twice", offset⟩
    else .ok (c.name :: declared)

/-- The counters are checked one by one, each against those declared before it. -/
theorem checkDeclarations_eq_foldlM (offset : UInt64) (counters : List Counter)
    (declared : List String) :
    checkDeclarations offset counters declared =
      counters.foldlM (declareCounter offset) declared := by
  induction counters generalizing declared with
  | nil => rfl
  | cons c counters ih =>
    rw [checkDeclarations, List.foldlM_cons, declareCounter]
    cases undeclared declared c.bounds with
    | cons name names => rfl
    | nil =>
      show (if _ then _ else _) = (if _ then _ else _) >>= _
      split
      · rfl
      · exact ih (c.name :: declared)

/-- The order of the counters declared so far does not matter. -/
theorem undeclared_reverse (declared : List String) (bounds : List Bound) :
    undeclared declared.reverse bounds = undeclared declared bounds := by
  simp [undeclared]

/-- A counter is refused for the first undeclared one in its range, and only then for its name. -/
theorem declareCounter_eq_error_iff {offset : UInt64} {declared : List String} {c : Counter}
    {e : ParseError} :
    declareCounter offset declared c = .error e ↔
      (∃ name, (undeclared declared c.bounds).head? = some name ∧
        e = ⟨"counter `" ++ name ++ "` is used before it is declared", offset⟩) ∨
      undeclared declared c.bounds = [] ∧ c.name ∈ declared ∧
        e = ⟨"counter `" ++ c.name ++ "` is declared twice", offset⟩ := by
  rw [declareCounter]
  cases undeclared declared c.bounds with
  | cons name names => simp [eq_comm]
  | nil => by_cases hname : c.name ∈ declared <;> simp [hname, eq_comm]

/-- The declarations are refused exactly with what is wrong with the first bad one. -/
theorem checkDeclarations_eq_error_iff {offset : UInt64} {counters : List Counter}
    {e : ParseError} :
    checkDeclarations offset counters [] = .error e ↔
      ∃ message, ClauseFault counters message ∧ e = ⟨message, offset⟩ := by
  -- the counters before the first bad one were declared without a fault
  have hok (before : List Counter) (declared : List String) :
      before.foldlM (declareCounter offset) [] = .ok declared ↔
        Declared before ∧ declared = (before.map Counter.name).reverse := by
    rw [← checkDeclarations_eq_foldlM, Template.checkDeclarations_eq_ok_iff, Declared, and_assoc]
    simp
  simp only [checkDeclarations_eq_foldlM, foldlM_eq_error_iff, hok, declareCounter_eq_error_iff]
  constructor
  · rintro ⟨before, c, after, -, hcounters, ⟨hbefore, rfl⟩, h⟩
    rw [undeclared_reverse] at h
    rcases h with ⟨name, hname, rfl⟩ | ⟨hscope, hname, rfl⟩
    · exact ⟨_, .early hcounters hbefore hname, rfl⟩
    · exact ⟨_, .twice hcounters hbefore hscope (List.mem_reverse.1 hname), rfl⟩
  · rintro ⟨message, hfault, rfl⟩
    cases hfault with
    | @early before after c name hcounters hbefore hname =>
      refine ⟨before, c, after, _, hcounters, ⟨hbefore, rfl⟩, .inl ⟨name, ?_, rfl⟩⟩
      rwa [undeclared_reverse]
    | @twice before after c hcounters hbefore hscope hname =>
      refine ⟨before, c, after, _, hcounters, ⟨hbefore, rfl⟩, .inr ⟨?_, ?_, rfl⟩⟩
      · rwa [undeclared_reverse]
      · exact List.mem_reverse.2 hname

/-! ### Constraint expressions -/

/-- The errors that a text is rejected with as a constraint expression. -/
inductive ConstraintRejection (text : String) : ParseError → Prop where
  /-- The text is white space. -/
  | blank (hblank : Text.trim text = "") :
    ConstraintRejection text ⟨"empty constraint expression", 0⟩
  /-- There is no left side after the leading layout. -/
  | left {before rest : List Char} (h : Reached text .start rest)
    (hread : Reader.term rest = none) (htext : text.toList = before ++ rest) :
    ConstraintRejection text ⟨"syntax error: expected expression", offsetAfter before⟩
  /-- There is no comparison where the left side has ended. -/
  | comparison {before rest : List Char} {l : Term} (h : Reached text (.left l) rest)
    (hread : Reader.padded Reader.comparison rest = none) (htext : text.toList = before ++ rest) :
    ConstraintRejection text ⟨"syntax error: expected relational operator", offsetAfter before⟩
  /-- There is no right side after the comparison. -/
  | right {before rest : List Char} {l : Term} {c : Comparison}
    (h : Reached text (.comparison l c) rest) (hread : Reader.term rest = none)
    (htext : text.toList = before ++ rest) :
    ConstraintRejection text ⟨"syntax error: expected expression", offsetAfter before⟩
  /-- The clause ends with too few ranges or too many. -/
  | rangeCount {before cs rest : List Char} {l r : Term} {c : Comparison} {names : List String}
    {ranges : List (Option Bound × Bound)} (h : Reached text (.sides l c r) cs)
    (hread : Reader.repeaterLists cs = some ((names, ranges), rest))
    (hlength : names.length ≠ ranges.length) (htext : text.toList = before ++ rest) :
    ConstraintRejection text ⟨"syntax error: expected one range per counter", offsetAfter before⟩
  /-- More than layout is left after an expression. -/
  | leftOver {before mid rest : List Char} {t : ConstraintExpr} (h : Reached text (.tree t) mid)
    (hrest : rest = Text.skipLayout mid) (hne : rest ≠ []) (htext : text.toList = before ++ rest) :
    ConstraintRejection text ⟨"syntax error near Eof", offsetAfter before⟩
  /-- A declaration of the clause breaks a rule. The error is at the first bar of the text, which
  need not be the one that the clause starts with. -/
  | clause {before after gap : List Char} {t : ConstraintExpr} {message : String}
    (h : Reached text (.tree t) gap) (hgap : IsGap gap)
    (hfault : ClauseFault (t.repeater.getD []) message)
    (htext : text.toList = before ++ '|' :: after) (hfirst : '|' ∉ before) :
    ConstraintRejection text ⟨message, offsetAfter before⟩
  /-- A side uses a counter that is not declared. -/
  | undeclared {gap : List Char} {t : ConstraintExpr} {name : String}
    (h : Reached text (.tree t) gap) (hgap : IsGap gap) (hclause : Declared (t.repeater.getD []))
    (hname : t.counterUses.find? (· ∉ (t.repeater.getD []).map Counter.name) = some name) :
    ConstraintRejection text ⟨"`" ++ name ++ "` is not a declared counter", 0⟩

/-- A clause that was read is refused only if it has not one range for each counter. -/
theorem readRepeater_eq_error_iff {whole cs : List Char} {e : ParseError} :
    readRepeater whole cs = .error e ↔ ∃ names ranges rest,
      Reader.repeaterLists cs = some ((names, ranges), rest) ∧ names.length ≠ ranges.length ∧
        e = .expected "one range per counter" whole rest := by
  rw [readRepeater]
  cases hlists : Reader.repeaterLists cs with
  | none => simp
  | some r =>
    obtain ⟨⟨names, ranges⟩, rest⟩ := r
    by_cases hlength : names.length = ranges.length <;> simp [hlength, eq_comm]

/-- Faults of a clause are reported at the first bar of the text. -/
theorem barOffset_eq {whole before after : List Char} (h : whole = before ++ '|' :: after)
    (hfirst : '|' ∉ before) : barOffset whole = offsetAfter before := by
  have hbefore : ∀ c ∈ before, (c != '|') = true := by
    rintro c hc
    rw [bne_iff_ne]
    rintro rfl
    exact hfirst hc
  have hdrop : whole.dropWhile (· != '|') = '|' :: after := by
    rw [h, List.dropWhile_append_of_pos hbefore]
    rfl
  rw [barOffset, hdrop]
  exact byteOffset_eq h

/-- The clause is checked before the counters that the terms use. -/
theorem checkCounters_eq_error_iff {offset : UInt64} {t : ConstraintExpr} {e : ParseError} :
    checkCounters offset t = .error e ↔
      (∃ message, ClauseFault (t.repeater.getD []) message ∧ e = ⟨message, offset⟩) ∨
      Declared (t.repeater.getD []) ∧ ∃ name,
        t.counterUses.find? (· ∉ (t.repeater.getD []).map Counter.name) = some name ∧
          e = ⟨"`" ++ name ++ "` is not a declared counter", 0⟩ := by
  -- the check collects the counters in reverse order, which no test of membership sees
  have hmissing (names : List String) : (fun name => !names.reverse.contains name) =
      fun name => decide (name ∉ names) := by
    simp
  rw [checkCounters, bind_eq_error_iff, checkDeclarations_eq_error_iff]
  refine or_congr_right ?_
  constructor
  · rintro ⟨declared, hdeclared, h⟩
    obtain ⟨hscoped, hnodup, -, rfl⟩ := Template.checkDeclarations_eq_ok_iff.1 hdeclared
    rw [List.append_nil, hmissing] at h
    split at h
    · next name hname =>
      cases h
      exact ⟨⟨hscoped, hnodup⟩, name, hname, rfl⟩
    · cases h
  · rintro ⟨⟨hscoped, hnodup⟩, name, hname, rfl⟩
    refine ⟨_, Template.checkDeclarations_eq_ok_iff.2 ⟨hscoped, hnodup, by simp, rfl⟩, ?_⟩
    rw [List.append_nil, hmissing, hname]

/-- Reading goes on from each stage that it comes to. -/
theorem Reached.readTree_eq {stage : Stage} {rest : List Char} (h : Reached text stage rest) :
    ConstraintExpr.readTree text.toList = stage.resume text.toList rest := by
  induction h with
  | start => exact readTree_eq_resume text.toList
  | left _ hread ih | comparison _ hread ih | right _ hread ih =>
    rw [ih, Stage.resume, Reader.require, hread]
    rfl
  | plain _ hread ih =>
    rw [ih, Stage.resume, readRepeater, hread]
    rfl
  | repeated _ hread hlength ih =>
    rw [ih, Stage.resume, readRepeater, hread]
    simp only [if_pos hlength]
    rfl

/-- How reading a text may end: with a tree and a gap after it, or with one of the errors. -/
inductive Settled (text : String) : Except ParseError ConstraintExpr → Prop where
  /-- A tree was read. -/
  | read {t : ConstraintExpr} {gap : List Char} (h : Reached text (.tree t) gap)
    (hgap : IsGap gap) : Settled text (.ok t)
  /-- The text is rejected. -/
  | rejected {e : ParseError} (h : ConstraintRejection text e) : Settled text (.error e)

/-- A required part is either missing or read. -/
theorem Settled.require {α : Type} {p : Reader α} {what : String} {rest : List Char}
    {f : α × List Char → Except ParseError ConstraintExpr} (hsuffix : rest <:+ text.toList)
    (hmissing : ∀ before, text.toList = before ++ rest → p rest = none →
      ConstraintRejection text ⟨"syntax error: expected " ++ what, offsetAfter before⟩)
    (hread : ∀ a rest', p rest = some (a, rest') → Settled text (f (a, rest'))) :
    Settled text (p.require what text.toList rest >>= f) := by
  rw [Reader.require]
  cases hp : p rest with
  | none =>
    obtain ⟨before, htext⟩ := hsuffix
    have hrejected := hmissing before htext.symm hp
    rw [← ParseError.expected_eq htext.symm] at hrejected
    exact .rejected hrejected
  | some r => exact hread r.1 r.2 hp

/-- From each stage on, reading ends with an error for the first part that is missing, or with a
tree. -/
theorem Reached.settled {stage : Stage} {rest : List Char} (h : Reached text stage rest) :
    Settled text (stage.resume text.toList rest) := by
  -- by recursion over the stages that are still to come
  fun_induction Stage.resume text.toList rest stage with
  | case1 rest ih =>
    refine .require h.suffix (fun before htext hnone => ?_) fun l rest' hread => ?_
    · exact .left h hnone htext
    · exact ih l rest' (h.left hread)
  | case2 rest l ih =>
    refine .require h.suffix (fun before htext hnone => ?_) fun c rest' hread => ?_
    · exact .comparison h hnone htext
    · exact ih c rest' (h.comparison hread)
  | case3 rest l c ih =>
    refine .require h.suffix (fun before htext hnone => ?_) fun r rest' hread => ?_
    · exact .right h hnone htext
    · exact ih r rest' (h.right hread)
  | case4 rest l c r ih =>
    cases hclause : readRepeater text.toList rest with
    | error e =>
      obtain ⟨names, ranges, mid, hlists, hlength, rfl⟩ := readRepeater_eq_error_iff.1 hclause
      obtain ⟨before, htext⟩ := (suffix_of_repeaterLists hlists).trans h.suffix
      rw [ParseError.expected_eq htext.symm]
      exact .rejected (.rangeCount h hlists hlength htext.symm)
    | ok result =>
      obtain ⟨repeater, mid⟩ := result
      exact ih repeater mid (h.tree hclause)
  | case5 rest t hend => exact .read h (skipLayout_eq_nil_iff.1 hend)
  | case6 rest t hend =>
    obtain ⟨before, htext⟩ := (skipLayout_suffix rest).trans h.suffix
    rw [ParseError.leftOver_eq htext.symm]
    exact .rejected (.leftOver h rfl hend htext.symm)

/-- Reading has started only if the text is not blank. -/
theorem Reached.not_blank {stage : Stage} {rest : List Char} (h : Reached text stage rest) :
    Text.isBlankText text = false := by
  induction h with
  | start hblank => exact hblank
  | left _ _ ih | comparison _ _ ih | right _ _ ih | plain _ _ ih | repeated _ _ _ ih => exact ih

/-- A text that is not blank is rejected where reading goes on from any stage to an error, or for
its counters. -/
theorem Reached.parse_eq {stage : Stage} {rest : List Char} (h : Reached text stage rest) :
    ConstraintExpr.parse text = do
      let t ← stage.resume text.toList rest
      checkCounters (barOffset text.toList) t
      return t := by
  rw [ConstraintExpr.parse, if_neg (by simp [h.not_blank]), h.readTree_eq]

/-- A text that is read as a tree is rejected for its counters only. -/
theorem Reached.parse_eq_error_iff {t : ConstraintExpr} {gap : List Char}
    (h : Reached text (.tree t) gap) (hgap : IsGap gap) {e : ParseError} :
    ConstraintExpr.parse text = .error e ↔
      checkCounters (barOffset text.toList) t = .error e := by
  rw [h.parse_eq, Stage.resume, skipLayout_eq_nil_iff.2 hgap]
  show (checkCounters _ t >>= fun _ => .ok t) = _ ↔ _
  rw [bind_eq_error_iff]
  simp

/-- A fault of the clause is reported at the first bar of the text. -/
theorem Reached.exists_first_bar {t : ConstraintExpr} {gap : List Char} {message : String}
    (h : Reached text (.tree t) gap) (hfault : ClauseFault (t.repeater.getD []) message) :
    ∃ before after, text.toList = before ++ '|' :: after ∧ '|' ∉ before := by
  refine List.eq_append_cons_of_mem (h.bar_mem ?_)
  -- without a clause there is no counter that could be at fault
  intro hnone
  rw [hnone, Option.getD_none] at hfault
  cases hfault with
  | early hcounters | twice hcounters => simp at hcounters

/-- A text is rejected as a constraint expression exactly with these errors. -/
theorem ConstraintExpr.parse_eq_error_iff {e : ParseError} :
    ConstraintExpr.parse text = .error e ↔ ConstraintRejection text e := by
  constructor
  · intro h
    by_cases hblank : Text.isBlankText text = true
    · rw [parse, if_pos hblank] at h
      cases h
      exact .blank (Text.isBlankText_iff.1 hblank)
    -- reading ends with an error of its own or with a tree whose counters are checked
    have hstart := Reached.start (Bool.eq_false_iff.2 hblank)
    have hparse := hstart.parse_eq
    have hsettled := hstart.settled
    generalize Stage.start.resume text.toList (Text.skipLayout text.toList) = x at hparse hsettled
    cases hsettled with
    | rejected hrejected =>
      rw [hparse] at h
      cases h
      exact hrejected
    | read htree hgap =>
      have hcounters := (htree.parse_eq_error_iff hgap).1 h
      rcases checkCounters_eq_error_iff.1 hcounters with
        ⟨message, hfault, rfl⟩ | ⟨hclause, name, hname, rfl⟩
      · obtain ⟨before, after, htext, hfirst⟩ := htree.exists_first_bar hfault
        rw [barOffset_eq htext hfirst]
        exact .clause htree hgap hfault htext hfirst
      · exact .undeclared htree hgap hclause hname
  · intro h
    cases h with
    | blank hblank => rw [parse, if_pos (Text.isBlankText_iff.2 hblank)]
    | left h hread htext | comparison h hread htext | right h hread htext =>
      rw [h.parse_eq, Stage.resume, Reader.require, hread]
      exact congrArg Except.error (ParseError.expected_eq htext _)
    | rangeCount h hread hlength htext =>
      rw [h.parse_eq, Stage.resume, readRepeater, hread]
      simp only [if_neg hlength]
      exact congrArg Except.error (ParseError.expected_eq htext _)
    | leftOver h hrest hne htext =>
      subst hrest
      rw [h.parse_eq, Stage.resume]
      -- something is left, so the branch for the end of the text is not taken
      simp only
      rw [ParseError.leftOver_eq htext]
      rfl
    | clause h hgap hfault htext hfirst =>
      refine (h.parse_eq_error_iff hgap).2 (checkCounters_eq_error_iff.2 (.inl ⟨_, hfault, ?_⟩))
      rw [barOffset_eq htext hfirst]
    | undeclared h hgap hclause hname =>
      refine (h.parse_eq_error_iff hgap).2 (checkCounters_eq_error_iff.2 (.inr ?_))
      exact ⟨hclause, _, hname, rfl⟩

/-! ### All texts -/

/-- A domain expression is rejected at a place between two characters. -/
theorem DomainRejection.exists_place {e : ParseError} (h : DomainRejection text e) :
    ∃ before rest, text.toList = before ++ rest ∧ e.offset = offsetAfter before := by
  cases h with
  | blank => exact ⟨[], text.toList, rfl, rfl⟩
  | unreadable _ _ _ _ _ _ htext | leftOver _ _ _ _ _ htext => exact ⟨_, _, htext, rfl⟩

/-- A constraint expression is rejected at a place between two characters. -/
theorem ConstraintRejection.exists_place {e : ParseError} (h : ConstraintRejection text e) :
    ∃ before rest, text.toList = before ++ rest ∧ e.offset = offsetAfter before := by
  cases h with
  | blank | undeclared => exact ⟨[], text.toList, rfl, rfl⟩
  | left _ _ htext | comparison _ _ htext | right _ _ htext | rangeCount _ _ _ htext
  | leftOver _ _ _ htext | clause _ _ _ htext => exact ⟨_, _, htext, rfl⟩

/-- **Errors of texts.** A text is rejected exactly with the errors listed, which are the ones
picked from the traces of the failed readings. The offset of an error is in the text and does not
fall inside a character. -/
theorem ParseError.classification (text : String) :
    (∀ e, DomainExpr.parse text = .error e ↔ DomainRejection text e) ∧
      (∀ e, ConstraintExpr.parse text = .error e ↔ ConstraintRejection text e) ∧
      DomainExpr.parseTraced text = DomainExpr.parse text ∧
      ConstraintExpr.parseTraced text = ConstraintExpr.parse text ∧
      ∀ e, DomainExpr.parse text = .error e ∨ ConstraintExpr.parse text = .error e →
        e.offset.toNat ≤ text.utf8ByteSize ∧
          (text.utf8ByteSize < UInt64.size →
            String.Pos.Raw.IsValid text ⟨e.offset.toNat⟩) := by
  refine ⟨fun e => DomainExpr.parse_eq_error_iff, fun e => ConstraintExpr.parse_eq_error_iff,
    DomainExpr.parseTraced_eq text, ConstraintExpr.parseTraced_eq text, ?_⟩
  intro e h
  obtain ⟨before, rest, htext, hoffset⟩ :
      ∃ before rest, text.toList = before ++ rest ∧ e.offset = offsetAfter before := by
    rcases h with h | h
    · exact (DomainExpr.parse_eq_error_iff.1 h).exists_place
    · exact (ConstraintExpr.parse_eq_error_iff.1 h).exists_place
  rw [hoffset]
  exact ⟨offsetAfter_le htext, isValid_offsetAfter htext⟩

/-- The place of an error after a character of two bytes is between characters. -/
theorem ParseError.classification_quoted :
    ConstraintExpr.parse "\"é\" ? x" =
        .error ⟨"syntax error: expected relational operator", 4⟩ ∧
      ConstraintRejection "\"é\" ? x" ⟨"syntax error: expected relational operator", 4⟩ ∧
      String.Pos.Raw.IsValid "\"é\" ? x" ⟨4⟩ := by
  obtain ⟨-, hconstraint, -, -, hplace⟩ := ParseError.classification "\"é\" ? x"
  have hparse : ConstraintExpr.parse "\"é\" ? x" =
      .error ⟨"syntax error: expected relational operator", 4⟩ := by
    decide
  exact ⟨hparse, (hconstraint _).1 hparse, (hplace _ (.inr hparse)).2 (by decide)⟩

end FiniteDomain
