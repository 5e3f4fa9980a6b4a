import FiniteDomain.Expression.DomainReader
import FiniteDomain.Proofs.Expression.SeparatedWord

/-!
# Domain expressions as text

How domain expressions are written. The reader tries ranges, slices, shared names and lists in this
order; the first character and what stands after a name tell which of them a text is, so no text is
lost to an alternative that is tried before its own.

A text that is read as it stands is read as the same expression without the white space around it,
since an expression starts and ends visibly.

## Main definitions

* `BandWord`, `DomainWord`: texts of bands and of domain expressions.

## Main results

* `DomainWord.read`: a domain expression is read up to its end.
* `exists_domainWord`: what was read as a domain expression is one.
* `DomainExpr.parse_eq_ok_iff_domainWord`: the accepted texts and their trees.
* `DomainExpr.parse_trim`: a text that is read is read alike without the white space around it.
-/

namespace FiniteDomain

/-! ### Items, arguments and natural numbers -/

/-- A text that is an item in double quotes. -/
def ItemWord (w : List Char) (text : String) : Prop :=
  ∃ v, (∀ c ∈ v, c ≠ '"') ∧ text = String.ofList v ∧ w = '"' :: (v ++ ['"'])

/-- Items are read exactly as they are spelt, whatever follows the closing quote. -/
theorem spells_item : Spells Reader.item ItemWord where
  startsVisibly := by
    rintro w text ⟨v, -, -, rfl⟩
    exact ⟨'"', _, rfl, by decide⟩
  read := by
    rintro w text tail ⟨v, hv, rfl, rfl⟩ -
    simpa using item_append hv tail
  word_of_read := by
    intro cs text rest h
    obtain ⟨v, hv, htext, rfl⟩ := itemWord_of_read h
    exact ⟨_, ⟨v, hv, htext, rfl⟩, by simp⟩

/-- An item ends with its closing quote. -/
theorem ItemWord.endsVisibly {w : List Char} {text : String} (h : ItemWord w text) :
    EndsVisibly w := by
  obtain ⟨v, -, -, rfl⟩ := h
  exact endsVisibly_concat ('"' :: v) (by decide)

/-- The argument that is written like an index. -/
def Index.argument : Index → Argument
  | .literal value => .integer value
  | .counter name => .name name

/-- A text that is an argument. -/
def ArgumentWord (w : List Char) (a : Argument) : Prop :=
  ∃ i, IndexWord w i ∧ a = i.argument

/-- An argument of a call is read like an index. -/
theorem argument_eq (cs : List Char) :
    Reader.argument cs = Reader.map Index.argument Reader.index cs := by
  simp only [Reader.argument, Reader.index, Reader.orElse, Reader.map]
  cases Reader.integer cs <;> cases Reader.name cs <;> rfl

theorem spells_argument : Spells Reader.argument ArgumentWord where
  startsVisibly := by
    rintro w a ⟨i, hi, -⟩
    exact hi.startsVisibly
  read := by
    rintro w a tail ⟨i, hi, rfl⟩ htail
    rw [argument_eq, Reader.map, hi.read htail]
    rfl
  word_of_read := by
    intro cs a rest h
    rw [argument_eq] at h
    simp only [Reader.map, Option.map_eq_some_iff, Prod.exists, Prod.mk.injEq] at h
    obtain ⟨i, rest', hread, rfl, rfl⟩ := h
    obtain ⟨w, hw, rfl⟩ := indexWord_of_read hread
    exact ⟨w, ⟨i, hw, rfl⟩, rfl⟩

/-- A text that is a natural number of the given value. -/
def NaturalWord (ds : List Char) (value : UInt64) : Prop :=
  ds ≠ [] ∧ (∀ d ∈ ds, d.isDigit = true) ∧ Word.ofNat? (Decimal.value ds) = some value

/-- The reader of a natural number as steps. -/
theorem natural_eq (cs : List Char) :
    Reader.natural cs = (Decimal.readDigits cs).bind fun r =>
      (Word.ofNat? r.1).bind fun value => some (value, r.2) :=
  rfl

/-- Natural numbers are read to their last digit. -/
theorem spells_natural : Spells Reader.natural NaturalWord where
  startsVisibly := fun ⟨hne, hds, _⟩ => startsVisibly_of_isDigit hne hds
  read := by
    rintro ds value tail ⟨hne, hds, hvalue⟩ htail
    rw [natural_eq, readDigits_append hne hds fun c hc =>
      not_isDigit_of_not_isNameChar (htail c hc)]
    simp [hvalue]
  word_of_read := by
    intro cs value rest h
    simp only [natural_eq, Option.bind_eq_some_iff, Prod.exists, Option.some.injEq,
      Prod.mk.injEq] at h
    obtain ⟨n, rest', hread, value', hvalue, rfl, rfl⟩ := h
    obtain ⟨ds, hne, hds, rfl, rfl⟩ := digits_of_read hread
    exact ⟨ds, ⟨hne, hds, hvalue⟩, rfl⟩

/-! ### Range signs -/

/-- A text that stands between the ends of a range: two dots, or the word in letters of either case.
-/
def RangeSignWord (s : List Char) : Prop :=
  s = ['.', '.'] ∨ s.map Char.toLower = ['r', 'a', 'n', 'g', 'e']

/-- The sign of a range is a pair of dots or starts with a letter. -/
theorem RangeSignWord.exists_cons {s : List Char} (h : RangeSignWord s) :
    ∃ c rest, s = c :: rest ∧ (c = '.' ∨ isNameStart c = true) := by
  rcases h with rfl | h
  · exact ⟨'.', ['.'], rfl, .inl rfl⟩
  · obtain ⟨c, rest, rfl, hc, -⟩ := List.map_eq_cons_iff.1 h
    exact ⟨c, rest, rfl, .inr (isNameStart_of_toLower hc (by decide))⟩

/-- A range sign starts with a dot or with a letter. -/
theorem RangeSignWord.startsVisibly {s : List Char} (h : RangeSignWord s) : StartsVisibly s := by
  obtain ⟨c, rest, rfl, rfl | hc⟩ := h.exists_cons
  · exact ⟨'.', rest, rfl, by decide⟩
  · exact ⟨c, rest, rfl, not_isBlank_of_isNameChar (isNameChar_of_isNameStart hc)⟩

/-- No digit starts the sign of a range, so that a number ends before it. -/
theorem RangeSignWord.not_isDigit {gap s tail : List Char} (hs : RangeSignWord s)
    (hgap : IsGap gap) {c : Char} (hc : (gap ++ (s ++ tail)).head? = some c) :
    c.isDigit = false := by
  obtain ⟨d, rest, rfl, hd⟩ := hs.exists_cons
  cases gap with
  | nil =>
    obtain rfl : d = c := Option.some.inj hc
    rcases hd with rfl | hd
    · decide
    · exact not_isDigit_of_isNameStart hd
  | cons e gap =>
    obtain rfl : e = c := Option.some.inj hc
    exact not_isDigit_of_not_isNameChar (isNameChar_of_isLayout (hgap e List.mem_cons_self))

/-- The sign of a range is read up to its end, whatever comes next. -/
theorem RangeSignWord.read {s : List Char} (h : RangeSignWord s) (tail : List Char) :
    Reader.rangeSign (s ++ tail) = some ((), tail) := by
  rcases h with rfl | h
  · rfl
  · have hdots : ['.', '.'].isPrefixOf (s ++ tail) = false := by
      obtain ⟨c, rest, rfl, hc, -⟩ := List.map_eq_cons_iff.1 h
      have hdot := ne_of_isNameStart (isNameStart_of_toLower hc (by decide)) (d := '.') (by decide)
      simp [List.isPrefixOf, hdot.symm]
    rw [Reader.rangeSign, Reader.orElse, keyword_append h]
    simp [Reader.token, hdots]

/-- What is read as a range sign is two dots, or the word in letters of either case. -/
theorem rangeSignWord_of_read {cs rest : List Char} {u : Unit}
    (h : Reader.rangeSign cs = some (u, rest)) : ∃ s, RangeSignWord s ∧ cs = s ++ rest := by
  rw [Reader.rangeSign, Reader.orElse, Option.or_eq_some_iff] at h
  rcases h with h | ⟨-, h⟩
  · rw [Reader.token] at h
    split at h
    case isTrue hdots =>
      cases h
      obtain ⟨tail, rfl⟩ := List.isPrefixOf_iff_prefix.1 hdots
      exact ⟨['.', '.'], .inl rfl, by simp⟩
    case isFalse => cases h
  · obtain ⟨s, hs, rfl⟩ := keyword_of_read h
    exact ⟨s, .inr hs, rfl⟩

/-! ### Bands -/

/-- A text that is one end of a range. -/
inductive BandWord : List Char → Band → Prop where
  /-- A number. -/
  | integer {w : List Char} {value : Int64} (h : IntegerWord w value) : BandWord w (.integer value)
  /-- A character in single quotes. -/
  | character {c : Char} (hc : c ≠ '\'') : BandWord ['\'', c, '\''] (.character c)
  /-- A function call. -/
  | call {n gap₁ gap₂ v gap₃ : List Char} {arguments : List Argument} (hn : NameWord n)
    (hgap₁ : IsGap gap₁) (hgap₂ : IsGap gap₂) (hv : SeparatedWord ArgumentWord v arguments)
    (hgap₃ : IsGap gap₃) :
    BandWord (n ++ (gap₁ ++ '(' :: (gap₂ ++ (v ++ (gap₃ ++ [')'])))))
      (.call ⟨String.ofList n, arguments⟩)

/-- The reader of a call as steps. -/
theorem call_eq (cs : List Char) :
    Reader.call cs = (Reader.name cs).bind fun function =>
      (Reader.padded (Reader.symbol '(') function.2).bind fun opened =>
        (Reader.commaSeparated (Reader.padded Reader.argument) opened.2).bind fun arguments =>
          (Reader.padded (Reader.symbol ')') arguments.2).bind fun closed =>
            some (⟨function.1, arguments.1⟩, closed.2) :=
  rfl

/-- The reader of one end of a range as alternatives. -/
theorem band_eq (cs : List Char) :
    Reader.band cs = ((Reader.integer cs).map fun r => (.integer r.1, r.2)).or
      (((Reader.character cs).map fun r => (.character r.1, r.2)).or
        ((Reader.call cs).map fun r => (.call r.1, r.2))) :=
  rfl

/-- A name that no parenthesis follows is not read as a band. -/
theorem NameWord.band_eq_none {n tail : List Char} (h : NameWord n)
    (htail : Follows ['('] tail) : Reader.band (n ++ tail) = none := by
  have hparen : Reader.padded (Reader.symbol '(') tail = none :=
    padded_symbol_eq_none fun hc => htail.head?_skipLayout hc (List.mem_singleton_self _)
  have hcall : Reader.call (n ++ tail) = none := by
    rw [call_eq, h.read htail.stopsName, Option.bind_some, hparen]
    rfl
  have hinteger := h.integer_eq_none tail
  obtain ⟨c, rest, rfl, hc, -⟩ := h
  rw [band_eq, hinteger, hcall, List.cons_append,
    character_cons_eq_none (ne_of_isNameStart hc (by decide))]
  rfl

/-- A text is not read as a band unless it starts with a number, a quote or a name. -/
theorem band_eq_none {c : Char} (hminus : c ≠ '-') (hdigit : c.isDigit = false)
    (hquote : c ≠ '\'') (hname : isNameStart c = false) (rest : List Char) :
    Reader.band (c :: rest) = none := by
  rw [band_eq, integer_cons_eq_none hminus hdigit, character_cons_eq_none hquote, call_eq,
    Reader.name, if_neg (by simp [hname])]
  rfl

/-- A call is read up to its end, with the gap after it. -/
theorem call_read {n gap₁ gap₂ v gap₃ : List Char} {arguments : List Argument} (hn : NameWord n)
    (hgap₁ : IsGap gap₁) (hgap₂ : IsGap gap₂) (hv : SeparatedWord ArgumentWord v arguments)
    (hgap₃ : IsGap gap₃) (tail : List Char) :
    Reader.call (n ++ (gap₁ ++ '(' :: (gap₂ ++ (v ++ (gap₃ ++ ')' :: tail))))) =
      some (⟨String.ofList n, arguments⟩, Text.skipLayout tail) := by
  have hopen : Follows [] (gap₁ ++ '(' :: (gap₂ ++ (v ++ (gap₃ ++ ')' :: tail)))) :=
    (follows_cons (by decide) (by decide) List.not_mem_nil _).gap_append hgap₁
  have hclose : Follows [','] (gap₃ ++ ')' :: tail) :=
    (follows_cons (by decide) (by decide) (by decide) _).gap_append hgap₃
  have harguments : Reader.commaSeparated (Reader.padded Reader.argument)
      (Text.skipLayout (gap₂ ++ (v ++ (gap₃ ++ ')' :: tail)))) = some (arguments, ')' :: tail) := by
    have hread := hv.read spells_argument.padded isGap_nil hclose.stopsName
      fun hc => hclose.head?_skipLayout hc (List.mem_singleton_self _)
    rw [skipLayout_append hgap₃, skipLayout_cons (by decide)] at hread
    have hvisible := hv.startsVisibly fun _ _ => spells_argument.startsVisibly
    rwa [skipLayout_append hgap₂, hvisible.skipLayout_append]
  have hend : Reader.padded (Reader.symbol ')') (')' :: tail) = some ((), Text.skipLayout tail) :=
    padded_symbol_cons (by decide) tail
  rw [call_eq, hn.read hopen.stopsName, Option.bind_some,
    padded_symbol_append (by decide) hgap₁, Option.bind_some, harguments, Option.bind_some, hend]
  rfl

/-- A band is read up to its end, and a call with the gap after it. -/
theorem BandWord.read {w tail : List Char} {b : Band} (h : BandWord w b)
    (htail : ∀ c, tail.head? = some c → c.isDigit = false) :
    ∃ rest, Reader.band (w ++ tail) = some (b, rest) ∧
      Text.skipLayout rest = Text.skipLayout tail := by
  cases h with
  | integer h =>
    refine ⟨tail, ?_, rfl⟩
    rw [band_eq, h.read htail]
    rfl
  | @character c hc =>
    refine ⟨tail, ?_, rfl⟩
    have hinteger : Reader.integer ('\'' :: c :: '\'' :: tail) = none := rfl
    have hcharacter : Reader.character ('\'' :: c :: '\'' :: tail) = some (c, tail) := if_neg hc
    show Reader.band ('\'' :: c :: '\'' :: tail) = _
    rw [band_eq, hinteger, hcharacter]
    rfl
  | @call n gap₁ gap₂ v gap₃ arguments hn hgap₁ hgap₂ hv hgap₃ =>
    refine ⟨Text.skipLayout tail, ?_, skipLayout_skipLayout tail⟩
    have htext : n ++ (gap₁ ++ '(' :: (gap₂ ++ (v ++ (gap₃ ++ [')'])))) ++ tail =
        n ++ (gap₁ ++ '(' :: (gap₂ ++ (v ++ (gap₃ ++ ')' :: tail)))) := by
      simp
    -- the alternatives before calls do not start with a name
    have hinteger := hn.integer_eq_none (gap₁ ++ '(' :: (gap₂ ++ (v ++ (gap₃ ++ ')' :: tail))))
    rw [htext, band_eq, hinteger, call_read hn hgap₁ hgap₂ hv hgap₃]
    obtain ⟨c, rest, rfl, hc, -⟩ := hn
    rw [List.cons_append, character_cons_eq_none (ne_of_isNameStart hc (by decide))]
    rfl

/-- What was read as a band is one. -/
theorem bandWord_of_read {cs rest : List Char} {b : Band} (h : Reader.band cs = some (b, rest)) :
    ∃ w gap, BandWord w b ∧ IsGap gap ∧ cs = w ++ (gap ++ rest) := by
  simp only [band_eq, Option.or_eq_some_iff, Option.map_eq_some_iff, Prod.exists,
    Prod.mk.injEq] at h
  -- an integer, else a character, else a call
  rcases h with ⟨value, rest', h, rfl, rfl⟩ | ⟨-, h⟩
  · obtain ⟨w, hw, rfl⟩ := integerWord_of_read h
    exact ⟨w, [], .integer hw, isGap_nil, rfl⟩
  rcases h with ⟨c, rest', h, rfl, rfl⟩ | ⟨-, call, rest', h, rfl, rfl⟩
  · obtain ⟨hc, rfl⟩ := characterWord_of_read h
    exact ⟨_, [], .character hc, isGap_nil, rfl⟩
  simp only [call_eq, Option.bind_eq_some_iff, Prod.exists, Option.some.injEq,
    Prod.mk.injEq] at h
  obtain ⟨name, rest₁, hname, u, rest₂, hopen, arguments, rest₃, harguments, u', rest₄, hclose, rfl,
    rfl⟩ := h
  obtain ⟨n, hn, rfl, rfl⟩ := nameWord_of_read hname
  obtain ⟨gap₁, mid₁, gap₂, hgap₁, rfl, hgap₂, hsymbol⟩ := exists_of_padded hopen
  obtain rfl := symbol_of_read hsymbol
  obtain ⟨gap₃, v, gap₄, hgap₃, hv, hgap₄, -, rfl⟩ :=
    separatedWord_of_read spells_argument.padded harguments
  obtain ⟨gap₅, mid₂, gap₆, hgap₅, rfl, hgap₆, hsymbol'⟩ := exists_of_padded hclose
  obtain rfl := symbol_of_read hsymbol'
  refine ⟨_, gap₆, .call hn hgap₁ (hgap₂.append hgap₃) hv (hgap₄.append hgap₅), hgap₆, ?_⟩
  simp

/-- An end of a range starts like an integer, with a quote or like a name. -/
theorem BandWord.startsVisibly {w : List Char} {b : Band} (h : BandWord w b) :
    StartsVisibly w := by
  cases h with
  | integer h => exact h.startsVisibly
  | character => exact ⟨'\'', _, rfl, by decide⟩
  | call hn => exact hn.startsVisibly.append _

/-- An end of a range ends with a digit, a quote or a bracket. -/
theorem BandWord.endsVisibly {w : List Char} {b : Band} (h : BandWord w b) : EndsVisibly w := by
  cases h with
  | integer h => exact h.endsVisibly
  | @character c => exact endsVisibly_concat ['\'', c] (by decide)
  | @call n gap₁ gap₂ v gap₃ =>
    have hparen : EndsVisibly [')'] := ⟨')', rfl, by decide⟩
    exact ((((hparen.append gap₃).append v).append gap₂).append ['(']).append gap₁ |>.append n

/-! ### Domain expressions -/

/-- A text that is a domain expression. -/
inductive DomainWord : List Char → DomainExpr → Prop where
  /-- Two bands with the range sign between them. -/
  | range {v gap₁ s gap₂ w : List Char} {low high : Band} (hlow : BandWord v low)
    (hgap₁ : IsGap gap₁) (hs : RangeSignWord s) (hgap₂ : IsGap gap₂) (hhigh : BandWord w high) :
    DomainWord (v ++ (gap₁ ++ (s ++ (gap₂ ++ w)))) (.range low high)
  /-- A name with a column and a row. -/
  | table {n gap₁ gap₂ v gap₃ gap₄ w : List Char} {column row : UInt64} (hn : NameWord n)
    (hgap₁ : IsGap gap₁) (hgap₂ : IsGap gap₂) (hcolumn : NaturalWord v column)
    (hgap₃ : IsGap gap₃) (hgap₄ : IsGap gap₄) (hrow : NaturalWord w row) :
    DomainWord (n ++ (gap₁ ++ '!' :: (gap₂ ++ (v ++ (gap₃ ++ ':' :: (gap₄ ++ w))))))
      (.table ⟨String.ofList n, column, row⟩)
  /-- A name with a dollar sign. -/
  | shared {n : List Char} (hn : NameWord n) : DomainWord ('$' :: n) (.shared (String.ofList n))
  /-- Items. -/
  | list {w : List Char} {items : List String} (h : SeparatedWord ItemWord w items) :
    DomainWord w (.list items)

/-- No form of a domain expression starts with a gap. -/
theorem DomainWord.startsVisibly {w : List Char} {tree : DomainExpr} (h : DomainWord w tree) :
    StartsVisibly w := by
  cases h with
  | range hlow => exact hlow.startsVisibly.append _
  | table hn => exact hn.startsVisibly.append _
  | shared => exact ⟨'$', _, rfl, by decide⟩
  | list h => exact h.startsVisibly fun _ _ => spells_item.startsVisibly

/-- No form of a domain expression ends with a gap. -/
theorem DomainWord.endsVisibly {w : List Char} {tree : DomainExpr} (h : DomainWord w tree) :
    EndsVisibly w := by
  cases h with
  | range _ _ _ _ hhigh => exact (((hhigh.endsVisibly.append _).append _).append _).append _
  | table _ _ _ _ _ _ hrow =>
    have hrow' := endsVisibly_of_isDigit hrow.1 hrow.2.1
    exact (((hrow'.append _).append [':']).append _).append _ |>.append _ |>.append ['!']
      |>.append _ |>.append _
  | shared hn => exact hn.endsVisibly.append ['$']
  | list h => exact h.endsVisibly fun _ _ => ItemWord.endsVisibly

theorem range_eq (cs : List Char) :
    Reader.range cs = (Reader.band cs).bind fun low =>
      (Reader.padded Reader.rangeSign low.2).bind fun sign =>
        (Reader.band sign.2).bind fun high => some (.range low.1 high.1, high.2) :=
  rfl

theorem slice_eq (cs : List Char) :
    Reader.slice cs = (Reader.name cs).bind fun table =>
      (Reader.padded (Reader.symbol '!') table.2).bind fun mark =>
        (Reader.padded Reader.natural mark.2).bind fun column =>
          (Reader.padded (Reader.symbol ':') column.2).bind fun colon =>
            (Reader.padded Reader.natural colon.2).bind fun row =>
              some (⟨table.1, column.1, row.1⟩, row.2) :=
  rfl

theorem sharedName_eq (cs : List Char) :
    Reader.sharedName cs = (Reader.symbol '$' cs).bind fun dollar => Reader.name dollar.2 :=
  rfl

/-- The reader of a domain expression as alternatives. -/
theorem domainExpr_eq (cs : List Char) :
    Reader.domainExpr cs = (Reader.range cs).or
      (((Reader.slice cs).map fun r => (.table r.1, r.2)).or
        (((Reader.sharedName cs).map fun r => (.shared r.1, r.2)).or
          ((Reader.commaSeparated (Reader.padded Reader.item) cs).map fun r =>
            (.list r.1, r.2)))) :=
  rfl

/-- Ranges and slices start with a number, a quote or a name. -/
theorem range_slice_eq_none {c : Char} (hminus : c ≠ '-') (hdigit : c.isDigit = false)
    (hquote : c ≠ '\'') (hname : isNameStart c = false) (rest : List Char) :
    Reader.range (c :: rest) = none ∧ Reader.slice (c :: rest) = none := by
  constructor
  · rw [range_eq, band_eq_none hminus hdigit hquote hname]
    rfl
  · rw [slice_eq, Reader.name, if_neg (by simp [hname])]
    rfl

/-- A range is read up to its end; the gap after it may be read as well. -/
theorem range_read {v gap₁ s gap₂ w tail : List Char} {low high : Band} (hlow : BandWord v low)
    (hgap₁ : IsGap gap₁) (hs : RangeSignWord s) (hgap₂ : IsGap gap₂) (hhigh : BandWord w high)
    (htail : ∀ c, tail.head? = some c → c.isDigit = false) :
    ∃ rest, Reader.range (v ++ (gap₁ ++ (s ++ (gap₂ ++ (w ++ tail))))) =
        some (.range low high, rest) ∧ Text.skipLayout rest = Text.skipLayout tail := by
  -- letters may follow a number directly, so `1range9` is a range
  have hnext : ∀ d, (gap₁ ++ (s ++ (gap₂ ++ (w ++ tail)))).head? = some d →
      d.isDigit = false := fun d => hs.not_isDigit hgap₁
  obtain ⟨rest₁, hread₁, hrest₁⟩ := hlow.read hnext
  have hpadded : Reader.padded Reader.rangeSign rest₁ = some ((), w ++ tail) := by
    rw [padded_eq, hrest₁, skipLayout_append hgap₁, hs.startsVisibly.skipLayout_append, hs.read]
    simp [skipLayout_append hgap₂, hhigh.startsVisibly.skipLayout_append]
  obtain ⟨rest, hread, hrest⟩ := hhigh.read htail
  refine ⟨rest, ?_, hrest⟩
  rw [range_eq, hread₁, Option.bind_some, hpadded, Option.bind_some, hread]
  rfl

/-- A slice is read up to its end, with the gap after it. -/
theorem slice_read {n gap₁ gap₂ v gap₃ gap₄ w tail : List Char} {column row : UInt64}
    (hn : NameWord n) (hgap₁ : IsGap gap₁) (hgap₂ : IsGap gap₂) (hcolumn : NaturalWord v column)
    (hgap₃ : IsGap gap₃) (hgap₄ : IsGap gap₄) (hrow : NaturalWord w row)
    (htail : StopsName tail) :
    Reader.slice (n ++ (gap₁ ++ '!' :: (gap₂ ++ (v ++ (gap₃ ++ ':' :: (gap₄ ++ (w ++ tail))))))) =
      some (⟨String.ofList n, column, row⟩, Text.skipLayout tail) := by
  have hmark : Follows []
      (gap₁ ++ '!' :: (gap₂ ++ (v ++ (gap₃ ++ ':' :: (gap₄ ++ (w ++ tail)))))) :=
    (follows_cons (by decide) (by decide) List.not_mem_nil _).gap_append hgap₁
  have hcolon : Follows [] (gap₃ ++ ':' :: (gap₄ ++ (w ++ tail))) :=
    (follows_cons (by decide) (by decide) List.not_mem_nil _).gap_append hgap₃
  have hcolumn' := spells_natural.padded_read isGap_nil hcolumn hcolon.stopsName
  have hrow' := spells_natural.padded_read isGap_nil hrow htail
  -- the marks are read with the gaps after them, so the numbers are read without
  rw [List.nil_append, ← (spells_natural.startsVisibly hcolumn).skipLayout_append,
    ← skipLayout_append hgap₂] at hcolumn'
  rw [List.nil_append, ← (spells_natural.startsVisibly hrow).skipLayout_append,
    ← skipLayout_append hgap₄] at hrow'
  rw [slice_eq, hn.read hmark.stopsName, Option.bind_some,
    padded_symbol_append (by decide) hgap₁, Option.bind_some, hcolumn', Option.bind_some,
    skipLayout_append hgap₃, skipLayout_cons (by decide),
    padded_symbol_cons (by decide), Option.bind_some, hrow']
  rfl

/-- A domain expression that neither a name nor a comma goes on after is read up to its end; the gap
after it may be read as well. -/
theorem DomainWord.read {w tail : List Char} {tree : DomainExpr} (h : DomainWord w tree)
    (hname : StopsName tail) (hcomma : (Text.skipLayout tail).head? ≠ some ',') :
    ∃ rest, Reader.domainExpr (w ++ tail) = some (tree, rest) ∧
      Text.skipLayout rest = Text.skipLayout tail := by
  cases h with
  | @range v gap₁ s gap₂ w low high hlow hgap₁ hs hgap₂ hhigh =>
    have htext : v ++ (gap₁ ++ (s ++ (gap₂ ++ w))) ++ tail =
        v ++ (gap₁ ++ (s ++ (gap₂ ++ (w ++ tail)))) := by
      simp
    obtain ⟨rest, hread, hrest⟩ := range_read hlow hgap₁ hs hgap₂ hhigh fun c hc =>
      not_isDigit_of_not_isNameChar (hname c hc)
    refine ⟨rest, ?_, hrest⟩
    rw [htext, domainExpr_eq, hread]
    rfl
  | @table n gap₁ gap₂ v gap₃ gap₄ w column row hn hgap₁ hgap₂ hcolumn hgap₃ hgap₄ hrow =>
    refine ⟨Text.skipLayout tail, ?_, skipLayout_skipLayout tail⟩
    have htext : n ++ (gap₁ ++ '!' :: (gap₂ ++ (v ++ (gap₃ ++ ':' :: (gap₄ ++ w))))) ++ tail =
        n ++ (gap₁ ++ '!' :: (gap₂ ++ (v ++ (gap₃ ++ ':' :: (gap₄ ++ (w ++ tail)))))) := by
      simp
    -- the name is not taken for the call of a function, since no parenthesis follows
    have hmark : Follows ['(']
        (gap₁ ++ '!' :: (gap₂ ++ (v ++ (gap₃ ++ ':' :: (gap₄ ++ (w ++ tail)))))) :=
      (follows_cons (by decide) (by decide) (by decide) _).gap_append hgap₁
    have hslice := slice_read hn hgap₁ hgap₂ hcolumn hgap₃ hgap₄ hrow hname
    rw [htext, domainExpr_eq, range_eq, hn.band_eq_none hmark, hslice]
    rfl
  | @shared n hn =>
    refine ⟨tail, ?_, rfl⟩
    obtain ⟨hrange, hslice⟩ := range_slice_eq_none (c := '$') (by decide) (by decide) (by decide)
      (by decide) (n ++ tail)
    have hshared : Reader.sharedName ('$' :: (n ++ tail)) = some (String.ofList n, tail) :=
      hn.read hname
    rw [List.cons_append, domainExpr_eq, hrange, hslice, hshared]
    rfl
  | @list w items h =>
    refine ⟨Text.skipLayout tail, ?_, skipLayout_skipLayout tail⟩
    have hitems := h.read spells_item.padded isGap_nil hname hcomma
    -- a list starts with a quote, which none of the alternatives before it does
    obtain ⟨rest, hrest⟩ : ∃ rest, w ++ tail = '"' :: rest := by
      cases h with
      | single h | cons h =>
        obtain ⟨v, -, -, rfl⟩ := h
        exact ⟨_, rfl⟩
    obtain ⟨hrange, hslice⟩ := range_slice_eq_none (c := '"') (by decide) (by decide) (by decide)
      (by decide) rest
    have hshared : Reader.sharedName ('"' :: rest) = none := rfl
    rw [List.nil_append, hrest] at hitems
    rw [hrest, domainExpr_eq, hrange, hslice, hshared, hitems]
    rfl

/-- What was read as a range is one. -/
theorem domainWord_of_range {cs rest : List Char} {tree : DomainExpr}
    (h : Reader.range cs = some (tree, rest)) :
    ∃ w gap, DomainWord w tree ∧ IsGap gap ∧ cs = w ++ (gap ++ rest) := by
  simp only [range_eq, Option.bind_eq_some_iff, Prod.exists, Option.some.injEq,
    Prod.mk.injEq] at h
  obtain ⟨low, rest₁, hlow, u, rest₂, hsign, high, rest₃, hhigh, rfl, rfl⟩ := h
  obtain ⟨v, gap₁, hv, hgap₁, rfl⟩ := bandWord_of_read hlow
  obtain ⟨gap₂, mid, gap₃, hgap₂, rfl, hgap₃, hread⟩ := exists_of_padded hsign
  obtain ⟨s, hs, rfl⟩ := rangeSignWord_of_read hread
  obtain ⟨w, gap₄, hw, hgap₄, rfl⟩ := bandWord_of_read hhigh
  exact ⟨_, gap₄, .range hv (hgap₁.append hgap₂) hs hgap₃ hw, hgap₄, by simp⟩

/-- What was read as a slice is one. -/
theorem domainWord_of_slice {cs rest : List Char} {slice : Slice}
    (h : Reader.slice cs = some (slice, rest)) :
    ∃ w gap, DomainWord w (.table slice) ∧ IsGap gap ∧ cs = w ++ (gap ++ rest) := by
  simp only [slice_eq, Option.bind_eq_some_iff, Prod.exists, Option.some.injEq,
    Prod.mk.injEq] at h
  obtain ⟨name, rest₁, hname, u, rest₂, hmark, column, rest₃, hcolumn, u', rest₄, hcolon, row,
    rest₅, hrow, rfl, rfl⟩ := h
  obtain ⟨n, hn, rfl, rfl⟩ := nameWord_of_read hname
  -- each piece was read with gaps on both sides; two gaps that meet are one
  obtain ⟨gap₁, mid₁, gap₂, hgap₁, rfl, hgap₂, hsymbol⟩ := exists_of_padded hmark
  obtain rfl := symbol_of_read hsymbol
  obtain ⟨gap₃, mid₂, gap₄, hgap₃, rfl, hgap₄, hread⟩ := exists_of_padded hcolumn
  obtain ⟨v, hv, rfl⟩ := spells_natural.word_of_read hread
  obtain ⟨gap₅, mid₃, gap₆, hgap₅, rfl, hgap₆, hsymbol'⟩ := exists_of_padded hcolon
  obtain rfl := symbol_of_read hsymbol'
  obtain ⟨gap₇, mid₄, gap₈, hgap₇, rfl, hgap₈, hread'⟩ := exists_of_padded hrow
  obtain ⟨w, hw, rfl⟩ := spells_natural.word_of_read hread'
  exact ⟨_, gap₈, .table hn hgap₁ (hgap₂.append hgap₃) hv (hgap₄.append hgap₅)
    (hgap₆.append hgap₇) hw, hgap₈, by simp⟩

/-- What was read as a domain expression is one. A list skips the gap before it. -/
theorem domainWord_of_read {cs rest : List Char} {tree : DomainExpr}
    (h : Reader.domainExpr cs = some (tree, rest)) :
    ∃ gap w gap', IsGap gap ∧ DomainWord w tree ∧ IsGap gap' ∧
      cs = gap ++ (w ++ (gap' ++ rest)) := by
  simp only [domainExpr_eq, Option.or_eq_some_iff, Option.map_eq_some_iff, Prod.exists,
    Prod.mk.injEq] at h
  -- a range, else a slice, else a shared domain, else a list
  rcases h with h | ⟨-, h⟩
  · obtain ⟨w, gap, hw, hgap, rfl⟩ := domainWord_of_range h
    exact ⟨[], w, gap, isGap_nil, hw, hgap, rfl⟩
  rcases h with ⟨slice, rest', h, rfl, rfl⟩ | ⟨-, h⟩
  · obtain ⟨w, gap, hw, hgap, rfl⟩ := domainWord_of_slice h
    exact ⟨[], w, gap, isGap_nil, hw, hgap, rfl⟩
  rcases h with ⟨name, rest', h, rfl, rfl⟩ | ⟨-, items, rest', h, rfl, rfl⟩
  · simp only [sharedName_eq, Option.bind_eq_some_iff, Prod.exists] at h
    obtain ⟨u, mid, hsymbol, hname⟩ := h
    obtain rfl := symbol_of_read hsymbol
    obtain ⟨n, hn, rfl, rfl⟩ := nameWord_of_read hname
    exact ⟨[], _, [], isGap_nil, .shared hn, isGap_nil, rfl⟩
  · obtain ⟨gap, w, gap', hgap, hw, hgap', -, rfl⟩ :=
      separatedWord_of_read spells_item.padded h
    exact ⟨gap, w, gap', hgap, .list hw, hgap', rfl⟩

/-! ### Whole texts -/

/-- What was read as a whole is a domain expression between two gaps. -/
theorem exists_domainWord {text : String} {tree : DomainExpr}
    (h : DomainExpr.parse text = .ok tree) :
    ∃ gap w gap', IsGap gap ∧ DomainWord w tree ∧ IsGap gap' ∧
      text.toList = gap ++ (w ++ gap') := by
  unfold DomainExpr.parse at h
  split at h
  · cases h
  dsimp only at h
  split at h
  · cases h
  next tree' rest hread =>
    split at h
    · next hend =>
      cases h
      -- what the reader left is blank, so the text is read to its end
      obtain ⟨gap₁, hgap₁, hstart⟩ := exists_gap text.toList
      obtain ⟨gap₂, w, gap₃, hgap₂, hw, hgap₃, hcs⟩ := domainWord_of_read hread
      obtain ⟨gap₄, hgap₄, hrest⟩ := exists_gap rest
      rw [hend, List.append_nil] at hrest
      refine ⟨gap₁ ++ gap₂, w, gap₃ ++ gap₄, hgap₁.append hgap₂, hw, hgap₃.append hgap₄, ?_⟩
      rw [hstart, hcs, hrest]
      simp
    · cases h

/-- A domain expression between two gaps is read as a whole. -/
theorem DomainWord.parse {gap w gap' : List Char} {tree : DomainExpr} (h : DomainWord w tree)
    (hgap : IsGap gap) (hgap' : IsGap gap') :
    DomainExpr.parse (String.ofList (gap ++ (w ++ gap'))) = .ok tree := by
  have hfollows : Follows [] gap' := by
    simpa using (follows_nil []).gap_append hgap'
  have hend : Text.skipLayout gap' = [] := skipLayout_eq_nil_iff.2 hgap'
  obtain ⟨rest, hread, hrest⟩ := h.read hfollows.stopsName (by simp [hend])
  have hstart : Text.skipLayout (gap ++ (w ++ gap')) = w ++ gap' := by
    rw [skipLayout_append hgap, h.startsVisibly.skipLayout_append]
  have hblank : Text.isBlankText (String.ofList (gap ++ (w ++ gap'))) = false := by
    obtain ⟨c, w', rfl, hc⟩ := h.startsVisibly
    rw [Bool.eq_false_iff, Text.isBlankText, String.toList_ofList, ne_eq, List.all_eq_true]
    intro hall
    rw [hall c (by simp)] at hc
    cases hc
  rw [DomainExpr.parse, hblank, if_neg Bool.false_ne_true]
  simp only [String.toList_ofList, hstart, hread, hrest, hend]

/-- A text is accepted with a tree exactly when it is, between gaps, a domain expression with this
tree. -/
theorem DomainExpr.parse_eq_ok_iff_domainWord {text : String} {tree : DomainExpr} :
    DomainExpr.parse text = .ok tree ↔
      ∃ gap w gap', IsGap gap ∧ DomainWord w tree ∧ IsGap gap' ∧
        text.toList = gap ++ (w ++ gap') := by
  refine ⟨exists_domainWord, ?_⟩
  rintro ⟨gap, w, gap', hgap, hw, hgap', htext⟩
  rw [← text.ofList_toList, htext]
  exact hw.parse hgap hgap'

/-- The white space around a text that can be read may be left out. -/
theorem DomainExpr.parse_trim {text : String} {tree : DomainExpr}
    (h : DomainExpr.parse text = .ok tree) : DomainExpr.parse (Text.trim text) = .ok tree := by
  obtain ⟨gap, w, gap', hgap, hw, hgap', htext⟩ := exists_domainWord h
  have hstart : Text.trimStart (gap ++ (w ++ gap')) = w ++ gap' :=
    (hw.startsVisibly.append gap').trimStart_append hgap
  have htrim : Text.trim text = String.ofList ([] ++ (w ++ [])) := by
    rw [Text.trim, htext, hstart, trimEnd_append hw.endsVisibly hgap']
    simp
  rw [htrim]
  exact hw.parse isGap_nil isGap_nil

/-- A list that was read has items, and no more than the text has characters. -/
theorem DomainExpr.length_items_of_parse {text : String} {items : List String}
    (h : DomainExpr.parse text = .ok (.list items)) :
    items ≠ [] ∧ items.length ≤ text.length := by
  obtain ⟨gap, w, gap', -, hw, -, htext⟩ := exists_domainWord h
  cases hw with
  | list hitems =>
    refine ⟨hitems.ne_nil, ?_⟩
    have hlength := congrArg List.length htext
    have hle := hitems.length_le fun _ _ => spells_item.startsVisibly
    simp only [String.length_toList, List.length_append] at hlength
    omega

end FiniteDomain
