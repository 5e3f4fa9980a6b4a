import FiniteDomain.Proofs.Expression.ClauseWord
import FiniteDomain.Proofs.Outcome
import FiniteDomain.Proofs.Template.Substitution
import FiniteDomain.Template.Expansion

/-!
# Templates as relations

A template is the text of a relation: two terms with a comparison between them. It is what is left
of a text with a repeater clause when the clause is stripped, substitution turns it into the text of
an instance, and such a text is read as the instance.

## Main definitions

* `RelationWord`: the text of a relation, with the dollar signs of its sides.
* `Template.dollars`: which sides of a text are written with a dollar sign.
* `ConstraintExpr.instantiate`: numbers for counters in a relation, without the repeater clause.

## Main results

* `relationWord_of_readTree`: a text with a repeater clause is stripped to a relation.
* `RelationWord.substitute`: substitution gives the text of the instance.
* `RelationWord.readTree`: the text of a relation is read as that relation.
-/

namespace FiniteDomain

open Template

/-! ### Bars and quotes -/

/-- Characters that are neither bars nor quotes. -/
def IsBarless (w : List Char) : Prop :=
  ∀ c ∈ w, c ≠ '|' ∧ isQuote c = false

/-- Texts without a bar outside quotes can be put together. -/
theorem IsBarless.append {w w' : List Char} (h : IsBarless w) (h' : IsBarless w') :
    IsBarless (w ++ w') :=
  List.forall_mem_append.2 ⟨h, h'⟩

/-- One character that is neither a bar nor a quote is barless. -/
theorem isBarless_singleton {c : Char} (hbar : c ≠ '|') (hquote : isQuote c = false) :
    IsBarless [c] :=
  List.forall_mem_singleton.2 ⟨hbar, hquote⟩

/-- Layout has neither bars nor quotes. -/
theorem isBarless_of_isGap {gap : List Char} (h : IsGap gap) : IsBarless gap := by
  intro c hc
  refine ⟨?_, isQuote_of_isLayout (h c hc)⟩
  rintro rfl
  exact absurd (h _ hc) (by decide)

/-- The characters of a name are neither bars nor quotes. -/
theorem isBarless_of_isNameChar {w : List Char} (h : ∀ c ∈ w, isNameChar c = true) :
    IsBarless w := by
  intro c hc
  have hname := h c hc
  rw [isQuote, Bool.or_eq_false_iff, beq_eq_false_iff_ne, beq_eq_false_iff_ne]
  refine ⟨?_, ?_, ?_⟩ <;> rintro rfl <;> exact absurd hname (by decide)

/-- Without bars and quotes nothing is stripped. -/
theorem beforeBar_append {w : List Char} (h : IsBarless w) (tail : List Char) :
    beforeBar none (w ++ tail) = w ++ beforeBar none tail := by
  induction w with
  | nil => rfl
  | cons c w ih =>
    obtain ⟨⟨hbar, hquote⟩, hw⟩ := List.forall_mem_cons.1 h
    rw [List.cons_append, beforeBar, if_neg hbar, if_neg (by simp [hquote]), ih hw]
    rfl

/-- Nothing is stripped inside quotes. -/
theorem beforeBar_quoted {quote : Char} (hquote : isQuote quote = true) {w : List Char}
    (hw : ∀ c ∈ w, c ≠ quote) (tail : List Char) :
    beforeBar none (quote :: (w ++ quote :: tail)) =
      quote :: (w ++ quote :: beforeBar none tail) := by
  -- the induction is inside the quotes, where the reader remembers the opening one
  have hinside : ∀ w : List Char, (∀ c ∈ w, c ≠ quote) →
      beforeBar (some quote) (w ++ quote :: tail) = w ++ quote :: beforeBar none tail := by
    intro w
    induction w with
    | nil =>
      intro _
      rw [List.nil_append, beforeBar, if_pos rfl]
      rfl
    | cons c w ih =>
      intro h
      obtain ⟨hc, hw⟩ := List.forall_mem_cons.1 h
      rw [List.cons_append, beforeBar, if_neg hc, ih hw]
      rfl
  have hbar : quote ≠ '|' := by
    rintro rfl
    exact absurd hquote (by decide)
  rw [beforeBar, if_neg hbar, if_pos hquote, hinside w hw]

theorem IndexWord.isBarless {w : List Char} {i : Index} (h : IndexWord w i) : IsBarless w := by
  cases h with
  | literal h =>
    cases h with
    | nonneg _ hds =>
      exact isBarless_of_isNameChar fun d hd => isNameChar_of_isDigit (hds d hd)
    | neg _ hds =>
      exact (isBarless_singleton (by decide) (by decide)).append
        (isBarless_of_isNameChar fun d hd => isNameChar_of_isDigit (hds d hd))
  | counter h => exact isBarless_of_isNameChar h.forall_isNameChar

/-- Between the brackets stand a number or a counter and layout. -/
theorem SubscriptWord.isBarless {s : List Char} {i : Index} (h : SubscriptWord s i) :
    IsBarless s := by
  obtain ⟨gap₁, gap₂, w, gap₃, hgap₁, hgap₂, hgap₃, hw, rfl⟩ := h
  have hopen := isBarless_singleton (c := '[') (by decide) (by decide)
  have hclose := isBarless_singleton (c := ']') (by decide) (by decide)
  exact (isBarless_of_isGap hgap₁).append (hopen.append ((isBarless_of_isGap hgap₂).append
    (hw.isBarless.append ((isBarless_of_isGap hgap₃).append hclose))))

/-- A reference is made of names, a subscript and a dot. -/
theorem ReferenceWord.isBarless {w : List Char} {r : Reference} (h : ReferenceWord w r) :
    IsBarless w := by
  cases h with
  | singleton hn => exact isBarless_of_isNameChar hn.forall_isNameChar
  | element hn hs => exact (isBarless_of_isNameChar hn.forall_isNameChar).append hs.isBarless
  | field hn hs hgap hf =>
    have hdot := isBarless_singleton (c := '.') (by decide) (by decide)
    exact (isBarless_of_isNameChar hn.forall_isNameChar).append (hs.isBarless.append
      ((isBarless_of_isGap hgap).append
        (hdot.append (isBarless_of_isNameChar hf.forall_isNameChar))))

/-- An operand has no bar outside quotes. -/
theorem OperandWord.beforeBar_append {dollar : Bool} {w : List Char} {o : Operand}
    (h : OperandWord dollar w o) (tail : List Char) :
    beforeBar none (w ++ tail) = w ++ beforeBar none tail := by
  cases h with
  | integer h => exact FiniteDomain.beforeBar_append (IndexWord.literal h).isBarless tail
  | character hc => exact beforeBar_quoted (by decide) (List.forall_mem_singleton.2 hc) tail
  | item hw => simpa using beforeBar_quoted (by decide) hw tail
  | @reference dollar w r h =>
    have hmark : IsBarless (mark dollar) := by
      cases dollar with
      | true => exact isBarless_singleton (by decide) (by decide)
      | false => exact fun c hc => absurd hc List.not_mem_nil
    exact FiniteDomain.beforeBar_append (hmark.append h.isBarless) tail

/-- A term has no bar outside quotes. -/
theorem TermWord.beforeBar_append {dollar : Bool} {w : List Char} {t : Term}
    (h : TermWord dollar w t) (tail : List Char) :
    beforeBar none (w ++ tail) = w ++ beforeBar none tail := by
  cases h with
  | plain h => exact h.beforeBar_append tail
  | @adjusted w gap₁ gap₂ v o s i h hgap₁ hgap₂ hv =>
    have hsign : IsBarless [signChar s] := by
      refine isBarless_singleton ?_ ?_ <;> cases s <;> decide
    have hrest : IsBarless (gap₁ ++ signChar s :: (gap₂ ++ v)) :=
      (isBarless_of_isGap hgap₁).append
        (hsign.append ((isBarless_of_isGap hgap₂).append hv.isBarless))
    rw [List.append_assoc, h.beforeBar_append, FiniteDomain.beforeBar_append hrest]
    simp

/-! ### The ends of a term -/

/-- A subscript ends with its closing bracket. -/
theorem SubscriptWord.endsVisibly {s : List Char} {i : Index} (h : SubscriptWord s i) :
    EndsVisibly s := by
  obtain ⟨gap₁, gap₂, w, gap₃, -, -, -, -, rfl⟩ := h
  have hclose : EndsVisibly (gap₃ ++ [']']) := endsVisibly_concat gap₃ (by decide)
  exact (((hclose.append w).append gap₂).append ['[']).append gap₁

/-- A reference ends with a name or with its subscript. -/
theorem ReferenceWord.endsVisibly {w : List Char} {r : Reference} (h : ReferenceWord w r) :
    EndsVisibly w := by
  cases h with
  | singleton hn => exact hn.endsVisibly
  | element hn hs => exact hs.endsVisibly.append _
  | field hn hs hgap hf => exact (((hf.endsVisibly.append ['.']).append _).append _).append _

/-- A term ends like its operand or like its amount. -/
theorem TermWord.endsVisibly {dollar : Bool} {w : List Char} {t : Term} (h : TermWord dollar w t) :
    EndsVisibly w := by
  cases h with
  | plain h =>
    cases h with
    | integer h => exact h.endsVisibly
    | character => exact endsVisibly_concat ['\'', _] (by decide)
    | item => exact (endsVisibly_concat _ (by decide)).append ['"']
    | reference h => exact h.endsVisibly.append _
  | adjusted _ _ _ hv => exact (((hv.endsVisibly.append _).append [_]).append _).append _

/-- A character that a term starts with: it is not skipped, does not go on with a comparison, and is
a dollar sign if the term has one. -/
def StartsTerm (dollar : Bool) (c : Char) : Prop :=
  Text.isLayout c = false ∧ c ≠ '=' ∧ c ≠ '>' ∧ (c == '$') = dollar

/-- An operand starts like a constant or like a reference. -/
theorem OperandWord.exists_cons {dollar : Bool} {w : List Char} {o : Operand}
    (h : OperandWord dollar w o) : ∃ c rest, w = c :: rest ∧ StartsTerm dollar c := by
  cases h with
  | integer h =>
    obtain ⟨c, rest, rfl, hc⟩ := h.exists_cons
    refine ⟨c, rest, rfl, ?_⟩
    -- a minus sign or a digit
    rcases hc with rfl | hc
    · exact ⟨by decide, by decide, by decide, by decide⟩
    · have hname := isNameChar_of_isDigit hc
      rw [StartsTerm, beq_eq_false_iff_ne]
      refine ⟨isLayout_of_not_isBlank (not_isBlank_of_isNameChar hname), ?_, ?_, ?_⟩ <;>
        rintro rfl <;> exact absurd hname (by decide)
  | character => exact ⟨_, _, rfl, by decide, by decide, by decide, by decide⟩
  | item => exact ⟨_, _, rfl, by decide, by decide, by decide, by decide⟩
  | reference h =>
    cases dollar with
    | true => exact ⟨'$', _, rfl, by decide, by decide, by decide, by decide⟩
    | false =>
      obtain ⟨c, rest, rfl, hc⟩ := h.exists_cons
      have hname := isNameChar_of_isNameStart hc
      refine ⟨c, rest, rfl, isLayout_of_not_isBlank (not_isBlank_of_isNameChar hname), ?_, ?_, ?_⟩
      · exact ne_of_isNameStart hc (by decide)
      · exact ne_of_isNameStart hc (by decide)
      · rw [beq_eq_false_iff_ne]
        exact ne_of_isNameStart hc (by decide)

/-- A term starts with its operand. -/
theorem TermWord.exists_cons {dollar : Bool} {w : List Char} {t : Term} (h : TermWord dollar w t) :
    ∃ c rest, w = c :: rest ∧ StartsTerm dollar c := by
  cases h with
  | plain h => exact h.exists_cons
  | adjusted h =>
    obtain ⟨c, rest, rfl, hc⟩ := h.exists_cons
    exact ⟨c, _, rfl, hc⟩

/-! ### Relations -/

/-- A text that is a relation, with layout before it and around the comparison. -/
def RelationWord (dollars : Bool × Bool) (text : List Char) (e : ConstraintExpr) : Prop :=
  ∃ lead left gap₁ op gap₂ right, text = lead ++ (left ++ (gap₁ ++ (op ++ (gap₂ ++ right)))) ∧
    IsGap lead ∧ IsGap gap₁ ∧ IsGap gap₂ ∧ TermWord dollars.1 left e.left ∧
    (op, e.comparison) ∈ Reader.comparisonSpellings ∧ TermWord dollars.2 right e.right

namespace Template

/-- The text from the right side on, of a text that starts with a left side. -/
def rightSide (cs : List Char) : List Char :=
  match Reader.term cs with
  | none => []
  | some (_, rest) =>
    match Reader.padded Reader.comparison rest with
    | none => []
    | some (_, rest) => rest

/-- Whether the left and the right side of a text are written with a dollar sign. -/
def dollars (text : List Char) : Bool × Bool :=
  let cs := Text.skipLayout text
  (cs.head? == some '$', (rightSide cs).head? == some '$')

end Template

/-- Numbers for counters in a relation, which is repeated no more. -/
def ConstraintExpr.instantiate (b : Bindings) (dollars : Bool × Bool) (e : ConstraintExpr) :
    ConstraintExpr :=
  ⟨e.left.instantiate b dollars.1, e.comparison, e.right.instantiate b dollars.2, none⟩

/-- What the spelling of a comparison consists of. -/
theorem spelling_chars {op : List Char} {c : Comparison}
    (hop : (op, c) ∈ Reader.comparisonSpellings) :
    op ≠ [] ∧ ∀ d ∈ op, Text.isBlank d = false ∧ isNameChar d = false ∧ isQuote d = false ∧
      d ≠ '$' ∧ d ≠ '|' ∧ d ∉ termStops := by
  -- the table is checked as a Boolean, since a quantifier over characters would be enumerated
  have hall : (Reader.comparisonSpellings.all fun r => !r.1.isEmpty && r.1.all fun d =>
      !Text.isBlank d && (!isNameChar d && (!isQuote d && !('$' :: '|' :: termStops).contains d))) =
      true := by
    decide
  simpa using List.all_eq_true.1 hall _ hop

/-- A comparison starts with a character that ends whatever stands before it. -/
theorem spelling_cons {op : List Char} {c : Comparison}
    (hop : (op, c) ∈ Reader.comparisonSpellings) :
    ∃ d rest, op = d :: rest ∧ Text.isBlank d = false ∧ isNameChar d = false ∧ d ∉ termStops := by
  obtain ⟨hne, hchars⟩ := spelling_chars hop
  obtain ⟨d, rest, rfl⟩ := List.exists_cons_of_ne_nil hne
  obtain ⟨hblank, hname, -, -, -, hstops⟩ := hchars d List.mem_cons_self
  exact ⟨d, rest, rfl, hblank, hname, hstops⟩

theorem isBarless_spelling {op : List Char} {c : Comparison}
    (hop : (op, c) ∈ Reader.comparisonSpellings) : IsBarless op := by
  intro d hd
  obtain ⟨-, -, hquote, -, hbar, -⟩ := (spelling_chars hop).2 d hd
  exact ⟨hbar, hquote⟩

/-- No spelling of a comparison has a character that the substitution looks at. -/
theorem isPlain_spelling {op : List Char} {c : Comparison}
    (hop : (op, c) ∈ Reader.comparisonSpellings) : IsPlain op := by
  intro d hd
  obtain ⟨-, hname, hquote, -⟩ := (spelling_chars hop).2 d hd
  exact ⟨hquote, not_isNameStart_of_not_isNameChar hname⟩

/-- After any spelling of a comparison a word may start. -/
theorem opens_spelling {op : List Char} {c : Comparison}
    (hop : (op, c) ∈ Reader.comparisonSpellings) (previous : Option Char) :
    Opens (op.getLast?.or previous) := by
  obtain ⟨hne, hchars⟩ := spelling_chars hop
  obtain ⟨-, hname, -, hdollar, -, hstops⟩ := hchars _ (List.getLast_mem hne)
  rw [List.getLast?_eq_some_getLast hne]
  exact opens_some hname hdollar fun hdot => hstops (by simp [hdot, termStops])

/-- What stands after the left side of a relation. -/
theorem follows_spelling {gap op : List Char} {c : Comparison} (hgap : IsGap gap)
    (hop : (op, c) ∈ Reader.comparisonSpellings) (rest : List Char) :
    Follows termStops (gap ++ (op ++ rest)) := by
  obtain ⟨d, op, rfl, hblank, hname, hstops⟩ := spelling_cons hop
  exact (follows_cons hblank hname hstops (op ++ rest)).gap_append hgap

/-- Substitution gives the text of the instance. -/
theorem RelationWord.substitute {dollars : Bool × Bool} {text : List Char} {e : ConstraintExpr}
    (h : RelationWord dollars text e) (b : Bindings) :
    RelationWord dollars (substitute b none text) (e.instantiate b dollars) := by
  obtain ⟨lead, left, gap₁, op, gap₂, right, rfl, hlead, hgap₁, hgap₂, hleft, hop, hright⟩ := h
  obtain ⟨left', q, hleft', heq⟩ := hleft.exists_substitute (b := b)
    (opens_none.after_gap hlead) (follows_spelling hgap₁ hop (gap₂ ++ right))
  obtain ⟨right', q', hright', heq'⟩ := hright.exists_substitute (b := b)
    ((opens_spelling hop (gap₁.getLast?.or q)).after_gap hgap₂) (follows_nil termStops)
  refine ⟨lead, left', gap₁, op, gap₂, right', ?_, hlead, hgap₁, hgap₂, hleft', hop, hright'⟩
  rw [List.append_nil, substitute_nil, List.append_nil] at heq'
  rw [substitute_plain (isPlain_of_isGap hlead), heq, substitute_plain (isPlain_of_isGap hgap₁),
    substitute_plain (isPlain_spelling hop), substitute_plain (isPlain_of_isGap hgap₂), heq']

/-- A comparison between two terms is read with the gaps around it. -/
theorem padded_comparison_append {gap₁ op gap₂ right tail cs : List Char} {c : Comparison}
    {dollar : Bool} {t : Term} (hgap₁ : IsGap gap₁) (hop : (op, c) ∈ Reader.comparisonSpellings)
    (hgap₂ : IsGap gap₂) (hright : TermWord dollar right t)
    (hcs : Text.skipLayout cs = Text.skipLayout (gap₁ ++ (op ++ (gap₂ ++ (right ++ tail))))) :
    Reader.padded Reader.comparison cs = some (c, right ++ tail) := by
  obtain ⟨a, rest, rfl, hlayout, heq, hgt, -⟩ := hright.exists_cons
  -- neither a gap nor a term completes a longer spelling
  have htail : ∀ d, (gap₂ ++ (a :: rest ++ tail)).head? = some d → d ≠ '=' ∧ d ≠ '>' := by
    intro d hd
    cases gap₂ with
    | nil =>
      obtain rfl : a = d := Option.some.inj hd
      exact ⟨heq, hgt⟩
    | cons g gap₂ =>
      obtain rfl : g = d := Option.some.inj hd
      have hg := hgap₂ g List.mem_cons_self
      constructor <;> rintro rfl <;> exact absurd hg (by decide)
  have hskip : Text.skipLayout (op ++ (gap₂ ++ (a :: rest ++ tail))) =
      op ++ (gap₂ ++ (a :: rest ++ tail)) := by
    obtain ⟨d, op, rfl, hblank, -, -⟩ := spelling_cons hop
    exact skipLayout_cons (isLayout_of_not_isBlank hblank) _
  rw [padded_eq, hcs, skipLayout_append hgap₁, hskip, comparison_append hop htail]
  simp only [Option.map_some, skipLayout_append hgap₂, List.cons_append, skipLayout_cons hlayout]

/-- A relation is read up to its end. If what comes after it is then read as a repeater clause, or
as none, and nothing is left, the text is read as the relation with this clause. -/
theorem RelationWord.readTree_append {dollars : Bool × Bool} {text tail : List Char}
    {e : ConstraintExpr} {repeater : Option (List Counter)} (h : RelationWord dollars text e)
    (htail : Follows termStops tail)
    (hclause : ∀ rest, Text.skipLayout rest = Text.skipLayout tail →
      ∃ rest', readRepeater (text ++ tail) rest = .ok (repeater, rest') ∧
        Text.skipLayout rest' = []) :
    ConstraintExpr.readTree (text ++ tail) = .ok ⟨e.left, e.comparison, e.right, repeater⟩ := by
  obtain ⟨lead, left, gap₁, op, gap₂, right, rfl, hlead, hgap₁, hgap₂, hleft, hop, hright⟩ := h
  -- the text as it is read, each part with everything after it
  have htext : lead ++ (left ++ (gap₁ ++ (op ++ (gap₂ ++ right)))) ++ tail =
      lead ++ (left ++ (gap₁ ++ (op ++ (gap₂ ++ (right ++ tail))))) := by
    simp
  rw [htext] at hclause ⊢
  obtain ⟨rest₁, hread₁, hrest₁⟩ :=
    hleft.read (follows_spelling hgap₁ hop (gap₂ ++ (right ++ tail)))
  obtain ⟨rest₂, hread₂, hrest₂⟩ := hright.read htail
  obtain ⟨rest₃, hread₃, hrest₃⟩ := hclause rest₂ hrest₂
  have hstart : Text.skipLayout (lead ++ (left ++ (gap₁ ++ (op ++ (gap₂ ++ (right ++ tail)))))) =
      left ++ (gap₁ ++ (op ++ (gap₂ ++ (right ++ tail)))) := by
    obtain ⟨c, rest, rfl, hc, -⟩ := hleft.exists_cons
    rw [skipLayout_append hlead]
    exact skipLayout_cons hc _
  have hcomparison := padded_comparison_append hgap₁ hop hgap₂ hright hrest₁
  simp [ConstraintExpr.readTree, Reader.require, hstart, hread₁, hcomparison, hread₂, hread₃,
    hrest₃, bind, Except.bind]

/-- Where no bar comes after the gap there is no repeater clause. -/
theorem readRepeater_eq_none {cs : List Char} (h : (Text.skipLayout cs).head? ≠ some '|')
    (whole : List Char) : readRepeater whole cs = .ok (none, cs) := by
  simp [readRepeater, Reader.repeaterLists, padded_symbol_eq_none h]

/-- The text of a relation, with a gap after it, is read as that relation. -/
theorem RelationWord.readTree {dollars : Bool × Bool} {text gap : List Char} {e : ConstraintExpr}
    (h : RelationWord dollars text e) (hgap : IsGap gap) :
    ConstraintExpr.readTree (text ++ gap) = .ok { e with repeater := none } := by
  have hend : Text.skipLayout gap = [] := skipLayout_eq_nil_iff.2 hgap
  have htail : Follows termStops gap := by
    simpa using (follows_nil termStops).gap_append hgap
  refine h.readTree_append htail fun rest hrest => ⟨rest, ?_, hrest.trans hend⟩
  exact readRepeater_eq_none (by simp [hrest, hend]) _

/-- A required part is read as it is read by itself. -/
theorem require_eq_ok_iff {α : Type} {p : Reader α} {what : String} {whole cs : List Char}
    {r : α × List Char} : p.require what whole cs = .ok r ↔ p cs = some r := by
  rw [Reader.require]
  cases p cs <;> simp

/-- What was read as a tree is a relation. What comes after it was read as the repeater clause, or
as none, and only a gap was left. -/
theorem exists_relationWord {whole : List Char} {tree : ConstraintExpr}
    (h : ConstraintExpr.readTree whole = .ok tree) :
    ∃ text gap rest rest', RelationWord (dollars whole) text tree ∧ IsGap gap ∧
      whole = text ++ (gap ++ rest) ∧ readRepeater whole rest = .ok (tree.repeater, rest') ∧
      IsGap rest' := by
  simp only [ConstraintExpr.readTree, bind_eq_ok_iff, require_eq_ok_iff, Prod.exists] at h
  obtain ⟨l, rest₁, hl, c, rest₂, hc, r, rest₃, hr, repeater, rest₄, hclause, h⟩ := h
  obtain ⟨htree, hend⟩ : tree = ⟨l, c, r, repeater⟩ ∧ IsGap rest₄ := by
    split at h
    · next hnil => exact ⟨(Except.ok.inj h).symm, skipLayout_eq_nil_iff.1 hnil⟩
    · cases h
  subst htree
  -- the pieces of the text, from the clause back to the start, so that each text is known when it
  -- is split
  obtain ⟨d₂, right, gap₄, hright, hgap₄, rfl⟩ := termWord_of_read hr
  obtain ⟨gap₁, mid, gap₂, hgap₁, rfl, hgap₂, hread⟩ := exists_of_padded hc
  obtain ⟨op, hop, rfl⟩ := spelling_of_read hread
  obtain ⟨d₁, left, gap₅, hleft, hgap₅, hstart⟩ := termWord_of_read hl
  obtain ⟨lead, hlead, hwhole⟩ := exists_gap whole
  have hdollars : dollars whole = (d₁, d₂) := by
    obtain ⟨a, as, rfl, -, -, -, ha⟩ := hleft.exists_cons
    obtain ⟨b, bs, rfl, -, -, -, hb⟩ := hright.exists_cons
    have hside : rightSide (Text.skipLayout whole) = b :: bs ++ (gap₄ ++ rest₃) := by
      simp only [rightSide, hl, hc]
    rw [dollars, hside, hstart, ← ha, ← hb]
    rfl
  refine ⟨lead ++ (left ++ ((gap₅ ++ gap₁) ++ (op ++ (gap₂ ++ right)))), gap₄, rest₃, rest₄,
    ⟨lead, left, gap₅ ++ gap₁, op, gap₂, right, rfl, hlead, hgap₅.append hgap₁, hgap₂, ?_, hop, ?_⟩,
    hgap₄, ?_, hclause, hend⟩
  · rwa [hdollars]
  · rwa [hdollars]
  · rw [hwhole, hstart]
    simp

/-- A relation has no bar outside quotes. -/
theorem RelationWord.beforeBar_append {dollars : Bool × Bool} {text : List Char}
    {e : ConstraintExpr} (h : RelationWord dollars text e) (tail : List Char) :
    beforeBar none (text ++ tail) = text ++ beforeBar none tail := by
  obtain ⟨lead, left, gap₁, op, gap₂, right, rfl, hlead, hgap₁, hgap₂, hleft, hop, hright⟩ := h
  have hmiddle : IsBarless (gap₁ ++ (op ++ gap₂)) :=
    (isBarless_of_isGap hgap₁).append ((isBarless_spelling hop).append (isBarless_of_isGap hgap₂))
  have htext : lead ++ (left ++ (gap₁ ++ (op ++ (gap₂ ++ right)))) ++ tail =
      lead ++ (left ++ ((gap₁ ++ (op ++ gap₂)) ++ (right ++ tail))) := by
    simp
  rw [htext, FiniteDomain.beforeBar_append (isBarless_of_isGap hlead), hleft.beforeBar_append,
    FiniteDomain.beforeBar_append hmiddle, hright.beforeBar_append]
  simp

/-- A relation ends with its right side. -/
theorem RelationWord.endsVisibly {dollars : Bool × Bool} {text : List Char}
    {e : ConstraintExpr} (h : RelationWord dollars text e) : EndsVisibly text := by
  obtain ⟨lead, left, gap₁, op, gap₂, right, rfl, -, -, -, -, -, hright⟩ := h
  exact ((((hright.endsVisibly.append gap₂).append op).append gap₁).append left).append lead

/-- A text that starts with a relation is not blank. -/
theorem RelationWord.not_isBlankText {dollars : Bool × Bool} {text : List Char}
    {e : ConstraintExpr} (h : RelationWord dollars text e) (tail : List Char) :
    Text.isBlankText (String.ofList (text ++ tail)) = false := by
  obtain ⟨lead, left, gap₁, op, gap₂, right, rfl, -, -, -, -, hop, -⟩ := h
  obtain ⟨d, rest, rfl, hblank, -, -⟩ := spelling_cons hop
  rw [Text.isBlankText, String.toList_ofList, List.all_eq_false]
  exact ⟨d, by simp, by simp [hblank]⟩

/-- A text with a repeater clause is stripped to the relation that is repeated. -/
theorem relationWord_of_readTree {whole : List Char} {tree : ConstraintExpr}
    {counters : List Counter} (h : ConstraintExpr.readTree whole = .ok tree)
    (hrepeater : tree.repeater = some counters) :
    RelationWord (dollars whole) (strip whole) tree := by
  obtain ⟨text, gap, rest, rest', hword, hgap, hwhole, hclause, -⟩ := exists_relationWord h
  rw [hrepeater] at hclause
  obtain ⟨gap', w, rest'', hgap', hw, -, rfl⟩ := repeaterWord_of_read hclause
  obtain ⟨more, rfl⟩ := hw.exists_cons
  -- no piece before the clause has a bar outside quotes, so the clause's own bar is the first one
  have hstrip : strip whole = text := by
    have hgaps : IsGap (gap ++ gap') := hgap.append hgap'
    rw [strip, hwhole, ← List.append_assoc gap, hword.beforeBar_append,
      beforeBar_append (isBarless_of_isGap hgaps), List.cons_append, beforeBar, if_pos rfl,
      List.append_nil, trimEnd_append hword.endsVisibly hgaps]
  rwa [hstrip]

end FiniteDomain
