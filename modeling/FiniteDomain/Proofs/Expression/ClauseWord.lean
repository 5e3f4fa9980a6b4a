import FiniteDomain.Proofs.Expression.DomainWord

/-!
# Repeater clauses as text

How the counters of a repeater clause and their ranges are written. A name goes as far as it can.
This matters in two places, where a name stands before a keyword: `i range 9` has two bounds, while
`irange` is one name. A number ends at a letter, so `1range9` has two bounds again.

## Main definitions

* `BoundWord`, `RangeWord`, `RepeaterWord`: the forms. The first tells whether the text ends with a
  name.

## Main results

* `RangeWord.read`, `RepeaterWord.read`: a range or a clause is read up to its end.
* `rangeWord_of_read`, `repeaterWord_of_read`: what was read as a range or a clause is one.
-/

namespace FiniteDomain

/-! ### Bounds -/

/-- The integer that is added, if the given one is added or subtracted. -/
def Sign.apply : Sign → Int → Int
  | .plus, n => n
  | .minus, n => -n

/-- A text that is a bound; `named` tells whether it ends with a name. -/
inductive BoundWord : (named : Bool) → List Char → Bound → Prop where
  /-- A number. -/
  | literal {w : List Char} {value : Int64} (h : IntegerWord w value) :
    BoundWord false w ⟨.literal value, 0⟩
  /-- The name of a counter. -/
  | counter {w : List Char} (h : NameWord w) : BoundWord true w ⟨.counter (String.ofList w), 0⟩
  /-- An index with an amount added or subtracted; the sum of the signs must fit the word. -/
  | shifted {w gap₁ gap₂ v : List Char} {i : Index} {s : Sign} {amount offset : Int64}
    (h : IndexWord w i) (hgap₁ : IsGap gap₁) (hgap₂ : IsGap gap₂) (hv : IntegerWord v amount)
    (hoffset : offset.toInt = s.apply amount.toInt) :
    BoundWord false (w ++ (gap₁ ++ signChar s :: (gap₂ ++ v))) ⟨i, offset⟩

/-- A bound starts with its number or counter. -/
theorem BoundWord.startsVisibly {named : Bool} {w : List Char} {b : Bound}
    (h : BoundWord named w b) : StartsVisibly w := by
  cases h with
  | literal h => exact h.startsVisibly
  | counter h => exact h.startsVisibly
  | shifted h => exact h.startsVisibly.append _

theorem bound_eq (cs : List Char) :
    Reader.bound cs = (Reader.padded Reader.index cs).bind fun r =>
      (Reader.optional Reader.boundOffset r.2).bind fun r' => some (⟨r.1, r'.1.getD 0⟩, r'.2) :=
  rfl

/-- The reader of an offset as steps: the amount with its sign applied has to fit the word. -/
theorem boundOffset_eq (cs : List Char) :
    Reader.boundOffset cs = (Reader.padded Reader.sign cs).bind fun r =>
      (Reader.padded Reader.integer r.2).bind fun r' =>
        (Word.ofInt? (r.1.apply r'.1.toInt)).bind fun offset => some (offset, r'.2) := by
  refine Option.bind_congr fun ⟨s, rest⟩ _ => Option.bind_congr fun ⟨amount, rest'⟩ _ => ?_
  cases s with
  | plus =>
    -- an amount that was read fits the word as it is
    have hsame : Word.ofInt? (Sign.plus.apply amount.toInt) = some amount :=
      Word.ofInt?_eq_some_iff.2 rfl
    simp [hsame]
  | minus => rfl

/-- A number ends before anything but a digit. -/
theorem IntegerWord.padded_index {gap w tail : List Char} {value : Int64}
    (h : IntegerWord w value) (hgap : IsGap gap)
    (htail : ∀ c, tail.head? = some c → c.isDigit = false) :
    Reader.padded Reader.index (gap ++ (w ++ tail)) =
      some (.literal value, Text.skipLayout tail) := by
  rw [padded_eq, skipLayout_append hgap, h.startsVisibly.skipLayout_append, Reader.index,
    Reader.orElse, Reader.map, h.read htail]
  rfl

/-- No offset is read where no sign comes after the gap. -/
theorem boundOffset_eq_none {tail : List Char}
    (h : ∀ s, (Text.skipLayout tail).head? ≠ some (signChar s)) :
    Reader.boundOffset (Text.skipLayout tail) = none := by
  rw [boundOffset_eq, padded_sign_eq_none (by rwa [skipLayout_skipLayout])]
  rfl

/-- An offset is read with the gap after it. -/
theorem boundOffset_append {gap v tail : List Char} {s : Sign} {amount offset : Int64}
    (hgap : IsGap gap) (hv : IntegerWord v amount) (hoffset : offset.toInt = s.apply amount.toInt)
    (htail : ∀ c, tail.head? = some c → c.isDigit = false) :
    Reader.boundOffset (signChar s :: (gap ++ (v ++ tail))) =
      some (offset, Text.skipLayout tail) := by
  have hsign : Reader.padded Reader.sign (signChar s :: (gap ++ (v ++ tail))) =
      some (s, v ++ tail) := by
    rw [padded_eq, skipLayout_cons (isLayout_signChar s), sign_cons, Option.map_some,
      skipLayout_append hgap, hv.startsVisibly.skipLayout_append]
  have hamount : Reader.padded Reader.integer (v ++ tail) =
      some (amount, Text.skipLayout tail) := by
    rw [padded_eq, hv.startsVisibly.skipLayout_append, hv.read htail]
    rfl
  rw [boundOffset_eq, hsign, Option.bind_some, hamount, Option.bind_some,
    Word.ofInt?_eq_some_iff.2 hoffset]
  rfl

/-- A bound is read up to its end, with the gaps around it. -/
theorem BoundWord.read {named : Bool} {gap w tail : List Char} {b : Bound}
    (h : BoundWord named w b) (hgap : IsGap gap) (hname : named = true → StopsName tail)
    (hdigit : ∀ c, tail.head? = some c → c.isDigit = false)
    (hsign : ∀ s, (Text.skipLayout tail).head? ≠ some (signChar s)) :
    Reader.bound (gap ++ (w ++ tail)) = some (b, Text.skipLayout tail) := by
  cases h with
  | literal h =>
    rw [bound_eq, h.padded_index hgap hdigit, Option.bind_some, Reader.optional,
      boundOffset_eq_none hsign]
    rfl
  | counter h =>
    rw [bound_eq, padded_index_append hgap (.counter h) (hname rfl), Option.bind_some,
      Reader.optional, boundOffset_eq_none hsign]
    rfl
  | @shifted w gap₁ gap₂ v i s amount offset h hgap₁ hgap₂ hv hoffset =>
    have htext : gap ++ (w ++ (gap₁ ++ signChar s :: (gap₂ ++ v)) ++ tail) =
        gap ++ (w ++ (gap₁ ++ signChar s :: (gap₂ ++ (v ++ tail)))) := by
      simp
    -- the index ends before the sign
    have hfollows : Follows [] (gap₁ ++ signChar s :: (gap₂ ++ (v ++ tail))) := by
      refine (follows_cons ?_ ?_ List.not_mem_nil _).gap_append hgap₁ <;> cases s <;> decide
    rw [htext, bound_eq, padded_index_append hgap h hfollows.stopsName, Option.bind_some,
      Reader.optional, skipLayout_append hgap₁, skipLayout_cons (isLayout_signChar s),
      boundOffset_append hgap₂ hv hoffset hdigit]
    rfl

/-- A counter that was read as an index goes as far as it can. -/
theorem stopsName_of_index {cs rest : List Char} {n : String}
    (h : Reader.index cs = some (.counter n, rest)) : StopsName rest := by
  simp only [Reader.index, Reader.orElse, Reader.map, Option.or_eq_some_iff, Option.map_eq_some_iff,
    Prod.exists, Prod.mk.injEq] at h
  rcases h with ⟨value, rest', -, hliteral, -⟩ | ⟨-, n', rest', hname, -, rfl⟩
  · cases hliteral
  · exact stopsName_of_read hname

/-- What was read as a bound is one, between two gaps, and a name at its end goes no further. -/
theorem boundWord_of_read {cs rest : List Char} {b : Bound}
    (h : Reader.bound cs = some (b, rest)) :
    ∃ named gap w gap', IsGap gap ∧ BoundWord named w b ∧ IsGap gap' ∧
      (named = true → StopsName (gap' ++ rest)) ∧ cs = gap ++ (w ++ (gap' ++ rest)) := by
  rw [bound_eq, Option.bind_eq_some_iff] at h
  obtain ⟨⟨i, rest₁⟩, hindex, h⟩ := h
  obtain ⟨gap, mid, gap₁, hgap, rfl, hgap₁, hread⟩ := exists_of_padded hindex
  obtain ⟨w, hw, rfl⟩ := indexWord_of_read hread
  rw [Reader.optional] at h
  split at h
  · next offset rest₂ hoffset =>
    cases h
    simp only [boundOffset_eq, Option.bind_eq_some_iff, Prod.exists, Option.some.injEq,
      Prod.mk.injEq] at hoffset
    obtain ⟨s, rest₃, hsign, amount, rest₄, hamount, offset', hvalue, rfl, rfl⟩ := hoffset
    obtain ⟨gap₂, mid₁, gap₃, hgap₂, rfl, hgap₃, hsign⟩ := exists_of_padded hsign
    obtain ⟨gap₄, mid₂, gap₅, hgap₄, rfl, hgap₅, hamount⟩ := exists_of_padded hamount
    obtain rfl := sign_of_read hsign
    obtain ⟨v, hv, rfl⟩ := integerWord_of_read hamount
    -- the gaps that two padded parts have read next to each other are one gap
    refine ⟨false, gap, _, gap₅, hgap, .shifted hw (hgap₁.append hgap₂) (hgap₃.append hgap₄) hv
      (Word.ofInt?_eq_some_iff.1 hvalue), hgap₅, by simp, ?_⟩
    simp
  · cases h
    cases hw with
    | literal hw => exact ⟨false, gap, w, gap₁, hgap, .literal hw, hgap₁, by simp, rfl⟩
    | counter hw =>
      -- without an offset the bound ends with its counter, which was read to the end of the name
      exact ⟨true, gap, w, gap₁, hgap, .counter hw, hgap₁, fun _ => stopsName_of_index hread, rfl⟩

/-! ### Ranges -/

/-- A text that is the range of a counter. -/
inductive RangeWord : List Char → Option Bound × Bound → Prop where
  /-- The upper end alone. -/
  | upper {named : Bool} {w : List Char} {b : Bound} (h : BoundWord named w b) :
    RangeWord w (none, b)
  /-- Both ends. A name at the end of the lower one does not run into the sign between them. -/
  | both {named named' : Bool} {v gap₁ s gap₂ w : List Char} {low high : Bound}
    (hlow : BoundWord named v low) (hgap₁ : IsGap gap₁) (hs : RangeSignWord s)
    (hend : named = true → StopsName (gap₁ ++ s)) (hgap₂ : IsGap gap₂)
    (hhigh : BoundWord named' w high) :
    RangeWord (v ++ (gap₁ ++ (s ++ (gap₂ ++ w)))) (some low, high)

/-- The characters that would go on with a range. -/
def rangeStops : List Char :=
  ['+', '-', '.']

/-- A range starts with its first bound. -/
theorem RangeWord.startsVisibly {w : List Char} {r : Option Bound × Bound} (h : RangeWord w r) :
    StartsVisibly w := by
  cases h with
  | upper h => exact h.startsVisibly
  | both hlow => exact hlow.startsVisibly.append _

/-- The reader of a range as steps: without a second bound the first one is the upper end. -/
theorem counterRange_eq (cs : List Char) :
    Reader.counterRange cs = (Reader.bound cs).bind fun first =>
      (Reader.optional Reader.upperBound first.2).bind fun second =>
        some (second.1.elim (none, first.1) fun high => (some first.1, high), second.2) := by
  refine Option.bind_congr fun ⟨first, rest⟩ _ => Option.bind_congr fun ⟨second, rest'⟩ _ => ?_
  cases second <;> rfl

theorem upperBound_eq (cs : List Char) :
    Reader.upperBound cs =
      (Reader.padded Reader.rangeSign cs).bind fun sign => Reader.bound sign.2 :=
  rfl

/-- A text that starts with neither a dot nor a letter has no range sign before it. -/
theorem rangeSign_eq_none {cs : List Char} (hname : StopsName cs) (hdot : cs.head? ≠ some '.') :
    Reader.rangeSign cs = none := by
  rw [Option.eq_none_iff_forall_not_mem]
  rintro ⟨u, rest⟩ hread
  obtain ⟨s, hs, rfl⟩ := rangeSignWord_of_read hread
  obtain ⟨c, s, rfl, hc⟩ := hs.exists_cons
  rcases hc with rfl | hc
  · exact hdot rfl
  · have hletter := hname c rfl
    rw [isNameChar_of_isNameStart hc] at hletter
    cases hletter

/-- No upper end is read where a range ends. -/
theorem upperBound_eq_none {tail : List Char} (h : Follows rangeStops tail) :
    Reader.upperBound (Text.skipLayout tail) = none := by
  have hskip := h.skipLayout
  have hnone : Reader.rangeSign (Text.skipLayout tail) = none :=
    rangeSign_eq_none hskip.stopsName fun hc => h.head?_skipLayout hc (by decide)
  rw [upperBound_eq, padded_eq, skipLayout_skipLayout, hnone]
  rfl

/-- A bound at the end of a range is read up to its end. -/
theorem BoundWord.read_last {named : Bool} {gap w tail : List Char} {b : Bound}
    (h : BoundWord named w b) (hgap : IsGap gap) (htail : Follows rangeStops tail) :
    Reader.bound (gap ++ (w ++ tail)) = some (b, Text.skipLayout tail) := by
  refine h.read hgap (fun _ => htail.stopsName) ?_ ?_
  · exact fun c hc => not_isDigit_of_not_isNameChar (htail.stopsName c hc)
  · exact fun s hc => htail.head?_skipLayout hc (by cases s <;> decide)

/-- A range is read up to its end, with the gaps around it. -/
theorem RangeWord.read {gap w tail : List Char} {r : Option Bound × Bound} (h : RangeWord w r)
    (hgap : IsGap gap) (htail : Follows rangeStops tail) :
    Reader.counterRange (gap ++ (w ++ tail)) = some (r, Text.skipLayout tail) := by
  cases h with
  | upper h =>
    rw [counterRange_eq, h.read_last hgap htail, Option.bind_some, Reader.optional,
      upperBound_eq_none htail]
    rfl
  | @both named named' v gap₁ s gap₂ w low high hlow hgap₁ hs hend hgap₂ hhigh =>
    have htext : gap ++ (v ++ (gap₁ ++ (s ++ (gap₂ ++ w))) ++ tail) =
        gap ++ (v ++ (gap₁ ++ (s ++ (gap₂ ++ (w ++ tail))))) := by
      simp
    have hskip : Text.skipLayout (gap₁ ++ (s ++ (gap₂ ++ (w ++ tail)))) =
        s ++ (gap₂ ++ (w ++ tail)) := by
      rw [skipLayout_append hgap₁, hs.startsVisibly.skipLayout_append]
    -- the lower end is followed by the sign, which is neither a digit nor a plus or minus
    have hlowRead : Reader.bound (gap ++ (v ++ (gap₁ ++ (s ++ (gap₂ ++ (w ++ tail)))))) =
        some (low, s ++ (gap₂ ++ (w ++ tail))) := by
      obtain ⟨d, rest, hcons, hd⟩ := hs.exists_cons
      have hname : named = true → StopsName (gap₁ ++ (s ++ (gap₂ ++ (w ++ tail)))) := by
        intro hnamed c hc
        refine hend hnamed c ?_
        rw [hcons] at hc ⊢
        cases gap₁ <;> exact hc
      have hnosign : ∀ sign, (s ++ (gap₂ ++ (w ++ tail))).head? ≠ some (signChar sign) := by
        intro sign hc
        rw [hcons] at hc
        obtain rfl : d = signChar sign := Option.some.inj hc
        rcases hd with hd | hd <;> cases sign <;> exact absurd hd (by decide)
      have hread := hlow.read hgap hname (fun c => hs.not_isDigit hgap₁) (by rwa [hskip])
      rwa [hskip] at hread
    have hsign : Reader.padded Reader.rangeSign (s ++ (gap₂ ++ (w ++ tail))) =
        some ((), w ++ tail) := by
      rw [padded_eq, hs.startsVisibly.skipLayout_append, hs.read, Option.map_some,
        skipLayout_append hgap₂, hhigh.startsVisibly.skipLayout_append]
    have hhighRead : Reader.bound (w ++ tail) = some (high, Text.skipLayout tail) :=
      hhigh.read_last isGap_nil htail
    rw [htext, counterRange_eq, hlowRead, Option.bind_some, Reader.optional, upperBound_eq, hsign,
      Option.bind_some, hhighRead]
    rfl

/-- What was read as a range is one, between two gaps. -/
theorem rangeWord_of_read {cs rest : List Char} {r : Option Bound × Bound}
    (h : Reader.counterRange cs = some (r, rest)) :
    ∃ gap w gap', IsGap gap ∧ RangeWord w r ∧ IsGap gap' ∧ cs = gap ++ (w ++ (gap' ++ rest)) := by
  rw [counterRange_eq, Option.bind_eq_some_iff] at h
  obtain ⟨⟨first, rest₁⟩, hfirst, h⟩ := h
  obtain ⟨named, gap, v, gap₁, hgap, hv, hgap₁, hend, rfl⟩ := boundWord_of_read hfirst
  rw [Reader.optional] at h
  split at h
  · next high rest₂ hupper =>
    cases h
    rw [upperBound_eq, Option.bind_eq_some_iff] at hupper
    obtain ⟨⟨u, rest₃⟩, hsign, hbound⟩ := hupper
    obtain ⟨gap₂, mid, gap₃, hgap₂, rfl, hgap₃, hsign⟩ := exists_of_padded hsign
    obtain ⟨s, hs, rfl⟩ := rangeSignWord_of_read hsign
    obtain ⟨named', gap₄, w, gap₅, hgap₄, hw, hgap₅, -, rfl⟩ := boundWord_of_read hbound
    have hstops : named = true → StopsName ((gap₁ ++ gap₂) ++ s) := by
      intro hnamed c hc
      refine hend hnamed c ?_
      -- the sign has a first character, which is the same with what stands after it
      obtain ⟨d, s, rfl, -⟩ := hs.exists_cons
      cases gap₁ <;> cases gap₂ <;> exact hc
    refine ⟨gap, _, gap₅, hgap, .both hv (hgap₁.append hgap₂) hs hstops (hgap₃.append hgap₄) hw,
      hgap₅, ?_⟩
    simp
  · cases h
    exact ⟨gap, v, gap₁, hgap, .upper hv, hgap₁, rfl⟩

/-- Ranges are read exactly as they are spelt, with the gap after them. -/
theorem spellsPadded_counterRange :
    SpellsPadded Reader.counterRange RangeWord (Follows rangeStops) fun _ => True where
  startsVisibly := RangeWord.startsVisibly
  stops_comma hgap := (follows_cons (by decide) (by decide) (by decide) _).gap_append hgap
  read hgap h htail := h.read hgap htail
  word_of_read := by
    intro cs r rest h
    obtain ⟨gap, w, gap', hgap, hw, hgap', rfl⟩ := rangeWord_of_read h
    exact ⟨gap, w, gap', hgap, hw, hgap', trivial, rfl⟩

/-! ### Clauses -/

/-- A text that is the given name. -/
def NameOf (w : List Char) (name : String) : Prop :=
  NameWord w ∧ name = String.ofList w

/-- Counters are read exactly as they are spelt, with the gaps around them. -/
theorem spellsPadded_name :
    SpellsPadded (Reader.padded Reader.name) NameOf StopsName StopsName where
  startsVisibly h := h.1.startsVisibly
  stops_comma hgap := stopsName_comma hgap _
  read := by
    rintro gap w name tail hgap ⟨hw, rfl⟩ htail
    rw [padded_eq, skipLayout_append hgap, hw.startsVisibly.skipLayout_append, hw.read htail]
    rfl
  word_of_read := by
    intro cs name rest h
    obtain ⟨gap, mid, gap', hgap, rfl, hgap', hread⟩ := exists_of_padded h
    obtain ⟨w, hw, rfl, rfl⟩ := nameWord_of_read hread
    exact ⟨gap, w, gap', hgap, ⟨hw, rfl⟩, hgap', stopsName_of_read hread, rfl⟩

/-- The range of a counter as it is written. -/
def Counter.range (c : Counter) : Option Bound × Bound :=
  (c.low, c.high)

/-- Counters are put together from their names and ranges. -/
theorem declareCounters_map (counters : List Counter) :
    declareCounters (counters.map Counter.name) (counters.map Counter.range) = counters := by
  induction counters with
  | nil => rfl
  | cons c counters ih =>
    rw [declareCounters] at ih
    simp [declareCounters, ih, Counter.range]

/-- Lists of one length are the names and the ranges of the counters that they declare. -/
theorem map_declareCounters {names : List String} {ranges : List (Option Bound × Bound)}
    (h : names.length = ranges.length) :
    (declareCounters names ranges).map Counter.name = names ∧
      (declareCounters names ranges).map Counter.range = ranges := by
  induction names generalizing ranges with
  | nil =>
    obtain rfl : ranges = [] := List.length_eq_zero_iff.1 h.symm
    exact ⟨rfl, rfl⟩
  | cons name names ih =>
    cases ranges with
    | nil => cases h
    | cons range ranges =>
      obtain ⟨hnames, hranges⟩ := ih (Nat.succ.inj h)
      rw [declareCounters] at hnames hranges
      simp [declareCounters, hnames, hranges, Counter.range]

/-- A text that is a repeater clause: the counters, the word `in`, and one range for each counter.
The last name does not run into the word. -/
inductive RepeaterWord : List Char → List Counter → Prop where
  /-- The counters and their ranges. -/
  | clause {gap₁ names gap₂ s gap₃ ranges : List Char} {counters : List Counter}
    (hgap₁ : IsGap gap₁) (hnames : SeparatedWord NameOf names (counters.map Counter.name))
    (hgap₂ : IsGap gap₂) (hs : s.map Char.toLower = ['i', 'n']) (hend : StopsName (gap₂ ++ s))
    (hgap₃ : IsGap gap₃) (hranges : SeparatedWord RangeWord ranges (counters.map Counter.range)) :
    RepeaterWord ('|' :: (gap₁ ++ (names ++ (gap₂ ++ (s ++ (gap₃ ++ ranges)))))) counters

/-- A clause starts with a bar. -/
theorem RepeaterWord.exists_cons {w : List Char} {counters : List Counter}
    (h : RepeaterWord w counters) : ∃ rest, w = '|' :: rest := by
  cases h
  exact ⟨_, rfl⟩

/-- The reader of a clause as steps. -/
theorem repeaterLists_eq (cs : List Char) :
    Reader.repeaterLists cs = (Reader.padded (Reader.symbol '|') cs).bind fun bar =>
      (Reader.commaSeparated (Reader.padded Reader.name) bar.2).bind fun names =>
        (Reader.padded (Reader.keyword ['i', 'n']) names.2).bind fun sign =>
          (Reader.commaSeparated Reader.counterRange sign.2).bind fun ranges =>
            some ((names.1, ranges.1), ranges.2) :=
  rfl

/-- The word `in` starts with a letter. -/
theorem exists_cons_of_keyword {s : List Char} (h : s.map Char.toLower = ['i', 'n']) :
    ∃ c rest, s = c :: rest ∧ isNameStart c = true := by
  obtain ⟨c, rest, rfl, hc, -⟩ := List.map_eq_cons_iff.1 h
  exact ⟨c, rest, rfl, isNameStart_of_toLower hc (by decide)⟩

/-- A clause is read up to its end. -/
theorem RepeaterWord.read {w cs tail : List Char} {counters : List Counter}
    (h : RepeaterWord w counters) (hcs : Text.skipLayout cs = w ++ tail)
    (htail : Follows (',' :: rangeStops) tail) (whole : List Char) :
    readRepeater whole cs = .ok (some counters, Text.skipLayout tail) := by
  obtain @⟨gap₁, names, gap₂, s, gap₃, ranges, counters, hgap₁, hnames, hgap₂, hs, hend, hgap₃,
    hranges⟩ := h
  obtain ⟨c, s', hs', hc⟩ := exists_cons_of_keyword hs
  have hvisible : StartsVisibly s :=
    ⟨c, s', hs', not_isBlank_of_isNameChar (isNameChar_of_isNameStart hc)⟩
  have hrangesVisible : StartsVisibly ranges := hranges.startsVisibly fun _ _ =>
    RangeWord.startsVisibly
  have hskip : Text.skipLayout (gap₂ ++ (s ++ (gap₃ ++ (ranges ++ tail)))) =
      s ++ (gap₃ ++ (ranges ++ tail)) := by
    rw [skipLayout_append hgap₂, hvisible.skipLayout_append]
  have hbar : Reader.padded (Reader.symbol '|') cs =
      some ((), names ++ (gap₂ ++ (s ++ (gap₃ ++ (ranges ++ tail))))) := by
    have hnamesVisible : StartsVisibly names := hnames.startsVisibly fun _ _ h =>
      h.1.startsVisibly
    rw [padded_eq, hcs, List.cons_append, Reader.symbol, if_pos rfl, Option.map_some]
    simp [skipLayout_append hgap₁, hnamesVisible.skipLayout_append]
  have hnamesRead : Reader.commaSeparated (Reader.padded Reader.name)
      (names ++ (gap₂ ++ (s ++ (gap₃ ++ (ranges ++ tail))))) =
        some (counters.map Counter.name, s ++ (gap₃ ++ (ranges ++ tail))) := by
    have hstops : StopsName (gap₂ ++ (s ++ (gap₃ ++ (ranges ++ tail)))) := by
      -- the gap, or else the word, starts with the same character whatever comes after it
      intro d hd
      refine hend d ?_
      rw [hs'] at hd ⊢
      cases gap₂ <;> exact hd
    have hcomma : (s ++ (gap₃ ++ (ranges ++ tail))).head? ≠ some ',' := by
      rw [hs']
      exact fun heq => ne_of_isNameStart hc (by decide) (Option.some.inj heq)
    have hread := hnames.read spellsPadded_name isGap_nil hstops (by rwa [hskip])
    rwa [hskip] at hread
  have hsign : Reader.padded (Reader.keyword ['i', 'n']) (s ++ (gap₃ ++ (ranges ++ tail))) =
      some ((), ranges ++ tail) := by
    rw [padded_eq, hvisible.skipLayout_append, keyword_append hs, Option.map_some,
      skipLayout_append hgap₃, hrangesVisible.skipLayout_append]
  have hrangesRead : Reader.commaSeparated Reader.counterRange (ranges ++ tail) =
      some (counters.map Counter.range, Text.skipLayout tail) :=
    hranges.read spellsPadded_counterRange isGap_nil (htail.mono (by simp [rangeStops]))
      fun hc => htail.head?_skipLayout hc List.mem_cons_self
  have hlists : Reader.repeaterLists cs =
      some ((counters.map Counter.name, counters.map Counter.range), Text.skipLayout tail) := by
    rw [repeaterLists_eq, hbar, Option.bind_some, hnamesRead, Option.bind_some, hsign,
      Option.bind_some, hrangesRead]
    rfl
  simp [readRepeater, hlists, declareCounters_map]

/-- What was read as a clause is one, between two gaps. -/
theorem repeaterWord_of_read {whole cs rest : List Char} {counters : List Counter}
    (h : readRepeater whole cs = .ok (some counters, rest)) :
    ∃ gap w gap', IsGap gap ∧ RepeaterWord w counters ∧ IsGap gap' ∧
      cs = gap ++ (w ++ (gap' ++ rest)) := by
  rw [readRepeater] at h
  split at h
  · cases h
  next names ranges rest' hlists =>
    split at h
    case isFalse => cases h
    case isTrue hlength =>
      cases h
      obtain ⟨hmapNames, hmapRanges⟩ := map_declareCounters hlength
      simp only [repeaterLists_eq, Option.bind_eq_some_iff, Prod.exists, Option.some.injEq,
        Prod.mk.injEq] at hlists
      obtain ⟨u, rest₁, hbar, names', rest₂, hnames, u', rest₃, hsign, ranges', rest₄, hranges,
        ⟨rfl, rfl⟩, rfl⟩ := hlists
      -- the pieces in the order of the text
      obtain ⟨gap₁, mid₁, gap₂, hgap₁, rfl, hgap₂, hbar⟩ := exists_of_padded hbar
      obtain rfl := symbol_of_read hbar
      obtain ⟨gap₃, v, gap₄, hgap₃, hv, hgap₄, hend, rfl⟩ :=
        separatedWord_of_read spellsPadded_name hnames
      obtain ⟨gap₅, mid₂, gap₆, hgap₅, rfl, hgap₆, hsign⟩ := exists_of_padded hsign
      obtain ⟨s, hs, rfl⟩ := keyword_of_read hsign
      obtain ⟨gap₇, w, gap₈, hgap₇, hw, hgap₈, -, rfl⟩ :=
        separatedWord_of_read spellsPadded_counterRange hranges
      have hstops : StopsName ((gap₄ ++ gap₅) ++ s) := by
        intro c hc
        refine hend c ?_
        obtain ⟨d, s, rfl, -⟩ := exists_cons_of_keyword hs
        cases gap₄ <;> cases gap₅ <;> exact hc
      rw [← hmapNames] at hv
      rw [← hmapRanges] at hw
      refine ⟨gap₁, _, gap₈, hgap₁, .clause (hgap₂.append hgap₃) hv (hgap₄.append hgap₅) hs hstops
        (hgap₆.append hgap₇) hw, hgap₈, ?_⟩
      simp

end FiniteDomain
