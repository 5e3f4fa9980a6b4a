import FiniteDomain.Expression.ConstraintReader

/-!
# Words of constraint expressions

How names, numbers and indices are written, and that they are read back whatever stands after them,
as long as it does not go on with them. A reader that succeeds has read such a word.

## Main definitions

* `IsGap`: layout, which may stand between words.
* `Follows`: what may stand after a word.
* `NameWord`, `IntegerWord`, `IndexWord`: the words.
* `StartsVisibly`, `EndsVisibly`: the first or the last character is not white space.

## Main results

* `NameWord.read`, `IntegerWord.read`, `IndexWord.read`: a word is read up to its end.
* `nameWord_of_read`, `integerWord_of_read`, `indexWord_of_read`: what was read is a word.
* `integerWord_ofInt64`: a number in decimal is a word for it.
-/

namespace FiniteDomain

/-! ### Gaps -/

/-- A text that holds layout only. -/
def IsGap (gap : List Char) : Prop :=
  ∀ c ∈ gap, Text.isLayout c = true

instance : DecidablePred IsGap := fun gap =>
  decidable_of_iff (gap.all Text.isLayout = true) List.all_eq_true

theorem isGap_nil : IsGap [] := by
  simp [IsGap]

/-- Two gaps after each other are a gap. -/
theorem IsGap.append {gap gap' : List Char} (h : IsGap gap) (h' : IsGap gap') :
    IsGap (gap ++ gap') :=
  List.forall_mem_append.2 ⟨h, h'⟩

/-- Layout ends a name. -/
theorem isNameChar_of_isLayout {c : Char} (h : Text.isLayout c = true) : isNameChar c = false := by
  simp only [Text.isLayout, Bool.or_eq_true, beq_iff_eq] at h
  rcases h with ((rfl | rfl) | rfl) | rfl <;> decide

/-- Layout is white space. -/
theorem isLayout_of_not_isBlank {c : Char} (h : Text.isBlank c = false) :
    Text.isLayout c = false := by
  rw [Bool.eq_false_iff] at h ⊢
  exact fun hlayout => h (Text.isLayout_isBlank hlayout)

/-- Dropping what satisfies a predicate drops a text that does and stops where the next one does
not. -/
theorem dropWhile_append_stop {p : Char → Bool} {w tail : List Char} (hw : ∀ c ∈ w, p c = true)
    (htail : ∀ c, tail.head? = some c → p c = false) : (w ++ tail).dropWhile p = tail := by
  rw [List.dropWhile_append_of_pos hw]
  cases tail with
  | nil => rfl
  | cons c tail => rw [List.dropWhile_cons_of_neg (by simp [htail c rfl])]

/-- Taking what satisfies a predicate takes such a text and no more. -/
theorem takeWhile_append_stop {p : Char → Bool} {w tail : List Char} (hw : ∀ c ∈ w, p c = true)
    (htail : ∀ c, tail.head? = some c → p c = false) : (w ++ tail).takeWhile p = w := by
  rw [List.takeWhile_append_of_pos hw]
  cases tail with
  | nil => simp
  | cons c tail => rw [List.takeWhile_cons_of_neg (by simp [htail c rfl]), List.append_nil]

/-- What is taken while a property holds has the property. -/
theorem mem_takeWhile_imp {p : Char → Bool} {cs : List Char} {c : Char}
    (h : c ∈ cs.takeWhile p) : p c = true :=
  List.all_eq_true.1 List.all_takeWhile c h

/-- A gap before a text is skipped. -/
theorem skipLayout_append {gap rest : List Char} (hgap : IsGap gap) :
    Text.skipLayout (gap ++ rest) = Text.skipLayout rest :=
  List.dropWhile_append_of_pos hgap

/-- Nothing is skipped before a character that is no layout. -/
theorem skipLayout_cons {c : Char} (h : Text.isLayout c = false) (rest : List Char) :
    Text.skipLayout (c :: rest) = c :: rest :=
  List.dropWhile_cons_of_neg (by simp [h])

/-- What is skipped is a gap. -/
theorem exists_gap (cs : List Char) : ∃ gap, IsGap gap ∧ cs = gap ++ Text.skipLayout cs :=
  ⟨cs.takeWhile Text.isLayout, fun _ => mem_takeWhile_imp, List.takeWhile_append_dropWhile.symm⟩

/-- Layout is skipped once. -/
theorem skipLayout_skipLayout (cs : List Char) :
    Text.skipLayout (Text.skipLayout cs) = Text.skipLayout cs := by
  obtain ⟨gap, hgap, hcs⟩ := exists_gap cs
  exact ((congrArg Text.skipLayout hcs).trans (skipLayout_append hgap)).symm

/-- Nothing is left of a gap, and of nothing else. -/
theorem skipLayout_eq_nil_iff {cs : List Char} : Text.skipLayout cs = [] ↔ IsGap cs := by
  constructor
  · intro h
    obtain ⟨gap, hgap, hcs⟩ := exists_gap cs
    rw [h, List.append_nil] at hcs
    rwa [hcs]
  · intro h
    rw [← List.append_nil cs, skipLayout_append h]
    rfl

/-- A text that is no gap is one up to its first character that is not layout. -/
theorem exists_gap_cons {cs : List Char} (h : ¬ IsGap cs) :
    ∃ gap c rest, IsGap gap ∧ Text.isLayout c = false ∧ cs = gap ++ c :: rest := by
  obtain ⟨gap, hgap, hcs⟩ := exists_gap cs
  cases hskip : Text.skipLayout cs with
  | nil => exact absurd (skipLayout_eq_nil_iff.1 hskip) h
  | cons c rest =>
    have hhead := List.head?_dropWhile_not Text.isLayout cs
    rw [← Text.skipLayout, hskip] at hhead
    rw [hskip] at hcs
    exact ⟨gap, c, rest, hgap, by simpa using hhead, hcs⟩

/-! ### What stands after a word -/

/-- No name goes on into the text. -/
def StopsName (tail : List Char) : Prop :=
  ∀ c, tail.head? = some c → isNameChar c = false

/-- What may stand after a word: a gap, and then the end of the text or a visible character that
neither goes on with a name nor is one of `stops`. -/
def Follows (stops tail : List Char) : Prop :=
  ∃ gap rest, tail = gap ++ rest ∧ IsGap gap ∧ ∀ c, rest.head? = some c →
    -- visible, not only no layout: the substitution skips all white space, the readers only layout
    Text.isBlank c = false ∧ isNameChar c = false ∧ c ∉ stops

/-- The end of a text stops every part. -/
theorem follows_nil (stops : List Char) : Follows stops [] :=
  ⟨[], [], rfl, isGap_nil, by simp⟩

/-- A visible character stops a part unless it goes on with its name or with a stop of it. -/
theorem follows_cons {stops : List Char} {c : Char} (hblank : Text.isBlank c = false)
    (hname : isNameChar c = false) (hstops : c ∉ stops) (rest : List Char) :
    Follows stops (c :: rest) := by
  refine ⟨[], c :: rest, rfl, isGap_nil, ?_⟩
  rintro _ ⟨⟩
  exact ⟨hblank, hname, hstops⟩

namespace Follows

variable {stops tail : List Char}

/-- A gap before what stops a part stops it as well. -/
theorem gap_append {gap : List Char} (hgap : IsGap gap) (h : Follows stops tail) :
    Follows stops (gap ++ tail) := by
  obtain ⟨gap', rest, rfl, hgap', hrest⟩ := h
  exact ⟨gap ++ gap', rest, by rw [List.append_assoc], hgap.append hgap', hrest⟩

/-- Fewer characters are easier to avoid. -/
theorem mono {stops' : List Char} (h : Follows stops tail) (hsub : stops' ⊆ stops) :
    Follows stops' tail := by
  obtain ⟨gap, rest, rfl, hgap, hrest⟩ := h
  refine ⟨gap, rest, rfl, hgap, ?_⟩
  intro c hc
  obtain ⟨hblank, hname, hstops⟩ := hrest c hc
  exact ⟨hblank, hname, fun hmem => hstops (hsub hmem)⟩

/-- What stands after a word does not go on with a name. -/
theorem stopsName (h : Follows stops tail) : StopsName tail := by
  intro c hc
  obtain ⟨gap, rest, rfl, hgap, hrest⟩ := h
  cases gap with
  | nil => exact (hrest c hc).2.1
  | cons d gap =>
    -- the character is the first one of the gap
    obtain rfl : d = c := Option.some.inj hc
    exact isNameChar_of_isLayout (hgap d List.mem_cons_self)

/-- The gap may be left out. -/
theorem skipLayout (h : Follows stops tail) : Follows stops (Text.skipLayout tail) := by
  obtain ⟨gap, rest, rfl, hgap, hrest⟩ := h
  refine ⟨[], rest, ?_, isGap_nil, hrest⟩
  exact dropWhile_append_stop hgap fun d hd => isLayout_of_not_isBlank (hrest d hd).1

/-- After the gap none of the stops comes. -/
theorem head?_skipLayout (h : Follows stops tail) {c : Char}
    (hc : (Text.skipLayout tail).head? = some c) : c ∉ stops := by
  obtain ⟨gap, rest, rfl, hgap, hrest⟩ := h
  have hskip : Text.skipLayout (gap ++ rest) = rest :=
    dropWhile_append_stop hgap fun d hd => isLayout_of_not_isBlank (hrest d hd).1
  rw [hskip] at hc
  exact (hrest c hc).2.2

/-- Nor does one come after any white space. -/
theorem head?_trimStart (h : Follows stops tail) {c : Char}
    (hc : (Text.trimStart tail).head? = some c) : c ∉ stops := by
  obtain ⟨gap, rest, rfl, hgap, hrest⟩ := h
  have htrim : Text.trimStart (gap ++ rest) = rest :=
    dropWhile_append_stop (fun d hd => Text.isLayout_isBlank (hgap d hd))
      fun d hd => (hrest d hd).1
  rw [htrim] at hc
  exact (hrest c hc).2.2

end Follows

/-! ### Names -/

/-- A text that is a name. -/
def NameWord (w : List Char) : Prop :=
  ∃ c rest, w = c :: rest ∧ isNameStart c = true ∧ ∀ d ∈ rest, isNameChar d = true

theorem isNameChar_of_isNameStart {c : Char} (h : isNameStart c = true) : isNameChar c = true := by
  simp only [isNameStart, isNameChar, Char.isAlphanum, Bool.or_eq_true] at h ⊢
  exact h.imp_right .inl

/-- The first character of a name can stand inside one as well. -/
theorem NameWord.forall_isNameChar {w : List Char} (h : NameWord w) :
    ∀ c ∈ w, isNameChar c = true := by
  obtain ⟨c, rest, rfl, hc, hrest⟩ := h
  exact List.forall_mem_cons.2 ⟨isNameChar_of_isNameStart hc, hrest⟩

/-- A name is read up to its end. -/
theorem NameWord.read {w tail : List Char} (h : NameWord w) (htail : StopsName tail) :
    Reader.name (w ++ tail) = some (String.ofList w, tail) := by
  obtain ⟨c, rest, rfl, hc, hrest⟩ := h
  rw [List.cons_append, Reader.name, if_pos hc, takeWhile_append_stop hrest htail,
    dropWhile_append_stop hrest htail]

/-- What was read as a name is one. -/
theorem nameWord_of_read {cs rest : List Char} {n : String} (h : Reader.name cs = some (n, rest)) :
    ∃ w, NameWord w ∧ n = String.ofList w ∧ cs = w ++ rest := by
  cases cs with
  | nil => cases h
  | cons c cs =>
    rw [Reader.name] at h
    split at h
    case isTrue hc =>
      cases h
      have hword : NameWord (c :: cs.takeWhile isNameChar) :=
        ⟨c, _, rfl, hc, fun _ => mem_takeWhile_imp⟩
      refine ⟨_, hword, rfl, ?_⟩
      rw [List.cons_append, List.takeWhile_append_dropWhile]
    case isFalse => cases h

/-- What was read as a name goes as far as it can. -/
theorem stopsName_of_read {cs rest : List Char} {n : String}
    (h : Reader.name cs = some (n, rest)) : StopsName rest := by
  intro c hc
  cases cs with
  | nil => cases h
  | cons d cs =>
    rw [Reader.name] at h
    split at h
    case isTrue =>
      cases h
      have hstop := List.head?_dropWhile_not isNameChar cs
      rw [hc] at hstop
      exact hstop
    case isFalse => cases h

/-! ### Keywords -/

/-- A keyword is read in letters of either case, whatever comes next. -/
theorem keyword_append {word s : List Char} (h : s.map Char.toLower = word) (tail : List Char) :
    Reader.keyword word (s ++ tail) = some ((), tail) := by
  have hlength : word.length = s.length := by rw [← h, List.length_map]
  rw [Reader.keyword, hlength, List.take_left, List.drop_left, if_pos h]

/-- What was read as a keyword is one. -/
theorem keyword_of_read {word cs rest : List Char} {u : Unit}
    (h : Reader.keyword word cs = some (u, rest)) :
    ∃ s, s.map Char.toLower = word ∧ cs = s ++ rest := by
  rw [Reader.keyword] at h
  split at h
  case isTrue hword =>
    cases h
    exact ⟨_, hword, (List.take_append_drop _ _).symm⟩
  case isFalse => cases h

/-- A letter is one in either case. -/
theorem isNameStart_of_toLower {c d : Char} (h : c.toLower = d) (hd : isNameStart d = true) :
    isNameStart c = true := by
  unfold Char.toLower at h
  split at h
  case isTrue hupper =>
    have halpha : c.isAlpha = true := by
      show (c.isUpper || c.isLower) = true
      rw [Bool.or_eq_true]
      exact .inl (decide_eq_true hupper)
    rw [isNameStart, halpha, Bool.or_true]
  case isFalse => rwa [h]

/-! ### Numbers -/

/-- A text that is an integer of the given value. -/
inductive IntegerWord : List Char → Int64 → Prop where
  /-- Digits. -/
  | nonneg {ds : List Char} {value : Int64} (hne : ds ≠ []) (hds : ∀ d ∈ ds, d.isDigit = true)
    (hvalue : Word.ofInt? (Decimal.value ds) = some value) : IntegerWord ds value
  /-- Digits after a minus sign. -/
  | neg {ds : List Char} {value : Int64} (hne : ds ≠ []) (hds : ∀ d ∈ ds, d.isDigit = true)
    (hvalue : Word.ofInt? (-Decimal.value ds) = some value) : IntegerWord ('-' :: ds) value

theorem isNameChar_of_isDigit {c : Char} (h : c.isDigit = true) : isNameChar c = true := by
  simp [isNameChar, Char.isAlphanum, h]

/-- The digits are ten code points in a row. -/
theorem isDigit_iff {c : Char} : c.isDigit = true ↔ 48 ≤ c.toNat ∧ c.toNat ≤ 57 := by
  -- the code points of `'0'` and `'9'`
  show (decide (48 ≤ c.val) && decide (c.val ≤ 57)) = true ↔ _
  simp [UInt32.le_iff_toNat_le]

/-- The letters are two rows of 26 code points. -/
theorem isAlpha_iff {c : Char} :
    c.isAlpha = true ↔ 65 ≤ c.toNat ∧ c.toNat ≤ 90 ∨ 97 ≤ c.toNat ∧ c.toNat ≤ 122 := by
  -- capital letters, then small ones
  show (decide (65 ≤ c.val ∧ c.val ≤ 90) || decide (97 ≤ c.val) && decide (c.val ≤ 122)) = true ↔ _
  simp [UInt32.le_iff_toNat_le]

/-- Digits do not start names. -/
theorem not_isDigit_of_isNameStart {c : Char} (h : isNameStart c = true) : c.isDigit = false := by
  rw [isNameStart, Bool.or_eq_true, beq_iff_eq, isAlpha_iff] at h
  rcases h with rfl | h
  · decide
  · rw [Bool.eq_false_iff, ne_eq, isDigit_iff]
    omega

theorem not_isDigit_of_not_isNameChar {c : Char} (h : isNameChar c = false) :
    c.isDigit = false := by
  rw [Bool.eq_false_iff]
  intro hdigit
  rw [isNameChar_of_isDigit hdigit] at h
  cases h

/-- Digits are read up to their end. -/
theorem readDigits_append {ds tail : List Char} (hne : ds ≠ []) (hds : ∀ d ∈ ds, d.isDigit = true)
    (htail : ∀ c, tail.head? = some c → c.isDigit = false) :
    Decimal.readDigits (ds ++ tail) = some (Decimal.value ds, tail) := by
  rw [Decimal.readDigits, takeWhile_append_stop hds htail, dropWhile_append_stop hds htail]
  simp [hne]

/-- What was read as digits is digits. -/
theorem digits_of_read {cs rest : List Char} {n : Nat}
    (h : Decimal.readDigits cs = some (n, rest)) :
    ∃ ds, ds ≠ [] ∧ (∀ d ∈ ds, d.isDigit = true) ∧ n = Decimal.value ds ∧ cs = ds ++ rest := by
  rw [Decimal.readDigits] at h
  split at h
  case isTrue => cases h
  case isFalse hne =>
    cases h
    refine ⟨cs.takeWhile Char.isDigit, by simpa using hne, fun _ => mem_takeWhile_imp, rfl, ?_⟩
    rw [List.takeWhile_append_dropWhile]

/-- After a minus sign the value is negated before it has to fit the word. -/
theorem integer_minus (cs : List Char) :
    Reader.integer ('-' :: cs) = (Decimal.readDigits cs).bind fun r =>
      (Word.ofInt? (-r.1)).bind fun value => some (value, r.2) :=
  rfl

/-- Without a minus sign the value is that of the digits. -/
theorem integer_of_head?_ne {cs : List Char} (h : cs.head? ≠ some '-') :
    Reader.integer cs = (Decimal.readDigits cs).bind fun r =>
      (Word.ofInt? r.1).bind fun value => some (value, r.2) := by
  unfold Reader.integer
  split
  · simp at h
  · rfl

/-- An integer starts with a minus sign or a digit. -/
theorem IntegerWord.exists_cons {w : List Char} {value : Int64} (h : IntegerWord w value) :
    ∃ c rest, w = c :: rest ∧ (c = '-' ∨ c.isDigit = true) := by
  cases h with
  | nonneg hne hds =>
    obtain ⟨d, ds, rfl⟩ := List.exists_cons_of_ne_nil hne
    exact ⟨d, ds, rfl, .inr (hds d List.mem_cons_self)⟩
  | neg => exact ⟨'-', _, rfl, .inl rfl⟩

/-- A number is read up to its end, which a letter may follow directly. -/
theorem IntegerWord.read {w tail : List Char} {value : Int64} (h : IntegerWord w value)
    (htail : ∀ c, tail.head? = some c → c.isDigit = false) :
    Reader.integer (w ++ tail) = some (value, tail) := by
  cases h with
  | nonneg hne hds hvalue =>
    -- the first digit is not taken for a sign
    have hhead : (w ++ tail).head? ≠ some '-' := by
      obtain ⟨d, ds, rfl⟩ := List.exists_cons_of_ne_nil hne
      intro heq
      obtain rfl : d = '-' := Option.some.inj heq
      exact absurd (hds '-' List.mem_cons_self) (by decide)
    rw [integer_of_head?_ne hhead, readDigits_append hne hds htail]
    simp [hvalue]
  | neg hne hds hvalue =>
    rw [List.cons_append, integer_minus, readDigits_append hne hds htail]
    simp [hvalue]

/-- What was read as a number is one. -/
theorem integerWord_of_read {cs rest : List Char} {value : Int64}
    (h : Reader.integer cs = some (value, rest)) :
    ∃ w, IntegerWord w value ∧ cs = w ++ rest := by
  by_cases hhead : cs.head? = some '-'
  · obtain ⟨cs, rfl⟩ := List.head?_eq_some_iff.1 hhead
    rw [integer_minus] at h
    simp only [Option.bind_eq_some_iff, Prod.exists, Option.some.injEq, Prod.mk.injEq] at h
    obtain ⟨n, rest', hread, value', hvalue, rfl, rfl⟩ := h
    obtain ⟨ds, hne, hds, rfl, rfl⟩ := digits_of_read hread
    exact ⟨_, .neg hne hds hvalue, rfl⟩
  · rw [integer_of_head?_ne hhead] at h
    simp only [Option.bind_eq_some_iff, Prod.exists, Option.some.injEq, Prod.mk.injEq] at h
    obtain ⟨n, rest', hread, value', hvalue, rfl, rfl⟩ := h
    obtain ⟨ds, hne, hds, rfl, rfl⟩ := digits_of_read hread
    exact ⟨_, .nonneg hne hds hvalue, rfl⟩

/-- A number in decimal is a word for it. -/
theorem integerWord_ofInt64 (n : Int64) : IntegerWord (Decimal.ofInt64 n).toList n := by
  have hdigits : ∀ d ∈ Decimal.digits n.toInt.natAbs, d.isDigit = true :=
    fun _ => Nat.isDigit_of_mem_toDigits (by decide) (by decide)
  rw [Decimal.ofInt64, Decimal.ofInt]
  split
  case isTrue hneg =>
    have htext : ("-" ++ Decimal.ofNat n.toInt.natAbs).toList =
        '-' :: Decimal.digits n.toInt.natAbs := by
      simp [Decimal.ofNat]
    rw [htext]
    refine .neg Nat.toDigits_ne_nil hdigits ?_
    rw [Word.ofInt?_eq_some_iff, Decimal.value_digits]
    omega
  case isFalse hnonneg =>
    rw [Decimal.ofNat, String.toList_ofList]
    refine .nonneg Nat.toDigits_ne_nil hdigits ?_
    rw [Word.ofInt?_eq_some_iff, Decimal.value_digits]
    omega

/-! ### Indices -/

/-- A text that is an index. -/
inductive IndexWord : List Char → Index → Prop where
  /-- A number. -/
  | literal {w : List Char} {value : Int64} (h : IntegerWord w value) :
    IndexWord w (.literal value)
  /-- The name of a counter. -/
  | counter {w : List Char} (h : NameWord w) : IndexWord w (.counter (String.ofList w))

/-- What starts with neither a minus sign nor a digit is no integer. -/
theorem integer_cons_eq_none {c : Char} (hminus : c ≠ '-') (hdigit : c.isDigit = false)
    (rest : List Char) : Reader.integer (c :: rest) = none := by
  rw [integer_of_head?_ne (by simpa using hminus), Decimal.readDigits,
    List.takeWhile_cons_of_neg (by simp [hdigit])]
  rfl

/-- A name is not read as a number. -/
theorem NameWord.integer_eq_none {w : List Char} (h : NameWord w) (tail : List Char) :
    Reader.integer (w ++ tail) = none := by
  obtain ⟨c, rest, rfl, hc, -⟩ := h
  have hdigit : c.isDigit = false := not_isDigit_of_isNameStart hc
  have hminus : c ≠ '-' := by
    rintro rfl
    exact absurd hc (by decide)
  exact integer_cons_eq_none hminus hdigit _

/-- An index is read up to its end. -/
theorem IndexWord.read {w tail : List Char} {i : Index} (h : IndexWord w i)
    (htail : StopsName tail) :
    Reader.index (w ++ tail) = some (i, tail) := by
  cases h with
  | literal h =>
    simp [Reader.index, Reader.orElse, Reader.map,
      h.read fun c hc => not_isDigit_of_not_isNameChar (htail c hc)]
  | counter h =>
    simp [Reader.index, Reader.orElse, Reader.map, h.integer_eq_none, h.read htail]

/-- What was read as an index is one. -/
theorem indexWord_of_read {cs rest : List Char} {i : Index}
    (h : Reader.index cs = some (i, rest)) : ∃ w, IndexWord w i ∧ cs = w ++ rest := by
  simp only [Reader.index, Reader.orElse, Reader.map, Option.or_eq_some_iff, Option.map_eq_some_iff,
    Prod.exists, Prod.mk.injEq] at h
  rcases h with ⟨value, rest', hread, rfl, rfl⟩ | ⟨-, n, rest', hread, rfl, rfl⟩
  · obtain ⟨w, hw, rfl⟩ := integerWord_of_read hread
    exact ⟨w, .literal hw, rfl⟩
  · obtain ⟨w, hw, rfl, rfl⟩ := nameWord_of_read hread
    exact ⟨w, .counter hw, rfl⟩

/-! ### Visible starts and ends -/

/-- The characters of a name are visible. -/
theorem not_isBlank_of_isNameChar {c : Char} (h : isNameChar c = true) :
    Text.isBlank c = false := by
  have hcode : 48 ≤ c.toNat ∧ c.toNat ≤ 122 := by
    rw [isNameChar, Bool.or_eq_true, beq_iff_eq, Char.isAlphanum, Bool.or_eq_true, isAlpha_iff,
      isDigit_iff] at h
    rcases h with rfl | h
    · decide
    · omega
  simp only [Text.isBlank, Bool.or_eq_false_iff, Bool.and_eq_false_imp, decide_eq_true_eq,
    decide_eq_false_iff_not, beq_eq_false_iff_ne]
  omega

/-- The text starts with a visible character. -/
def StartsVisibly (w : List Char) : Prop :=
  ∃ c rest, w = c :: rest ∧ Text.isBlank c = false

/-- What comes after a text does not change how it starts. -/
theorem StartsVisibly.append {w : List Char} (h : StartsVisibly w) (u : List Char) :
    StartsVisibly (w ++ u) := by
  obtain ⟨c, rest, rfl, hc⟩ := h
  exact ⟨c, rest ++ u, rfl, hc⟩

/-- Nothing is skipped before a visible start. -/
theorem StartsVisibly.skipLayout_append {w : List Char} (h : StartsVisibly w)
    (tail : List Char) : Text.skipLayout (w ++ tail) = w ++ tail := by
  obtain ⟨c, rest, rfl, hc⟩ := h
  exact skipLayout_cons (isLayout_of_not_isBlank hc) _

/-- White space before a visible start is trimmed. -/
theorem StartsVisibly.trimStart_append {w gap : List Char} (hw : StartsVisibly w)
    (hgap : IsGap gap) : Text.trimStart (gap ++ w) = w := by
  obtain ⟨c, rest, rfl, hc⟩ := hw
  refine dropWhile_append_stop (fun d hd => Text.isLayout_isBlank (hgap d hd)) ?_
  rintro d ⟨⟩
  exact hc

/-- A name starts with a letter or an underscore. -/
theorem NameWord.startsVisibly {w : List Char} (h : NameWord w) : StartsVisibly w := by
  obtain ⟨c, rest, rfl, hc, -⟩ := h
  exact ⟨c, rest, rfl, not_isBlank_of_isNameChar (isNameChar_of_isNameStart hc)⟩

theorem startsVisibly_of_isDigit {ds : List Char} (hne : ds ≠ [])
    (hds : ∀ d ∈ ds, d.isDigit = true) : StartsVisibly ds := by
  obtain ⟨d, ds, rfl⟩ := List.exists_cons_of_ne_nil hne
  exact ⟨d, ds, rfl, not_isBlank_of_isNameChar (isNameChar_of_isDigit (hds d List.mem_cons_self))⟩

theorem IntegerWord.startsVisibly {w : List Char} {value : Int64} (h : IntegerWord w value) :
    StartsVisibly w := by
  cases h with
  | nonneg hne hds => exact startsVisibly_of_isDigit hne hds
  | neg => exact ⟨'-', _, rfl, by decide⟩

/-- An index starts like a number or like a name. -/
theorem IndexWord.startsVisibly {w : List Char} {i : Index} (h : IndexWord w i) :
    StartsVisibly w := by
  cases h with
  | literal h => exact h.startsVisibly
  | counter h => exact h.startsVisibly

/-- The text ends with a visible character. -/
def EndsVisibly (w : List Char) : Prop :=
  ∃ c, w.getLast? = some c ∧ Text.isBlank c = false

/-- What comes before a text does not change how it ends. -/
theorem EndsVisibly.append {w : List Char} (h : EndsVisibly w) (u : List Char) :
    EndsVisibly (u ++ w) := by
  obtain ⟨c, hc, hblank⟩ := h
  exact ⟨c, by rw [List.getLast?_append, hc]; rfl, hblank⟩

theorem endsVisibly_concat (u : List Char) {c : Char} (hc : Text.isBlank c = false) :
    EndsVisibly (u ++ [c]) :=
  ⟨c, List.getLast?_concat, hc⟩

theorem endsVisibly_of_isNameChar {w : List Char} (hne : w ≠ [])
    (h : ∀ c ∈ w, isNameChar c = true) : EndsVisibly w :=
  ⟨w.getLast hne, List.getLast?_eq_some_getLast hne,
    not_isBlank_of_isNameChar (h _ (List.getLast_mem hne))⟩

theorem endsVisibly_of_isDigit {ds : List Char} (hne : ds ≠ [])
    (hds : ∀ d ∈ ds, d.isDigit = true) : EndsVisibly ds :=
  endsVisibly_of_isNameChar hne fun d hd => isNameChar_of_isDigit (hds d hd)

theorem NameWord.endsVisibly {n : List Char} (h : NameWord n) : EndsVisibly n := by
  refine endsVisibly_of_isNameChar ?_ h.forall_isNameChar
  obtain ⟨c, rest, rfl, -⟩ := h
  exact List.cons_ne_nil c rest

/-- An integer ends with a digit. -/
theorem IntegerWord.endsVisibly {w : List Char} {value : Int64} (h : IntegerWord w value) :
    EndsVisibly w := by
  cases h with
  | nonneg hne hds => exact endsVisibly_of_isDigit hne hds
  | neg hne hds => exact (endsVisibly_of_isDigit hne hds).append ['-']

/-- An index ends like a number or like a name. -/
theorem IndexWord.endsVisibly {w : List Char} {i : Index} (h : IndexWord w i) : EndsVisibly w := by
  cases h with
  | literal h => exact h.endsVisibly
  | counter h => exact h.endsVisibly

/-- White space after a visible end is trimmed. -/
theorem trimEnd_append {w gap : List Char} (hw : EndsVisibly w) (hgap : IsGap gap) :
    Text.trimEnd (w ++ gap) = w := by
  obtain ⟨c, hc, hblank⟩ := hw
  have hstop : ∀ d, w.reverse.head? = some d → Text.isBlank d = false := by
    intro d hd
    rw [List.head?_reverse, hc] at hd
    rwa [← Option.some.inj hd]
  have hblanks : ∀ d ∈ gap.reverse, Text.isBlank d = true :=
    fun d hd => Text.isLayout_isBlank (hgap d (List.mem_reverse.1 hd))
  rw [Text.trimEnd, List.reverse_append, dropWhile_append_stop hblanks hstop, List.reverse_reverse]

end FiniteDomain
