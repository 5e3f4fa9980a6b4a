import FiniteDomain.Proofs.Expression.ConstraintWord

/-!
# Reading what was written

A tree that was read from a text is written as a text of the grammar again, and this text is read as
the same tree. Spellings are chosen once for each part: no dollar sign, no gaps but single spaces, a
number without leading zeros. So the proof goes through the grammar: for each form, if a part has
some spelling then it has the one it is written with.

The offset of a bound is written with its own sign. The least word cannot be an offset of this form,
since its amount is too large to be read; every other offset that was read can be written.

## Main results

* `IndexWord.render`, `TermWord.render`, `RangeWord.render`, `RepeaterWord.render`,
  `ConstraintWord.render`: the written form of a part that has a spelling is a spelling of it.
* `ConstraintExpr.parse_render`: reading and writing give the tree back.
* `Bound.read_render`: reading and writing give a bound back, unless its offset is the least word.
-/

namespace FiniteDomain

theorem isGap_space : IsGap [' '] :=
  List.forall_mem_singleton.2 rfl

/-! ### Terms -/

theorem IndexWord.render {w : List Char} {i : Index} (h : IndexWord w i) :
    IndexWord i.render.toList i := by
  cases h with
  | literal => exact .literal (integerWord_ofInt64 _)
  | counter h =>
    show IndexWord (String.ofList w).toList _
    rw [String.toList_ofList]
    exact .counter h

/-- An index in brackets without gaps. -/
theorem SubscriptWord.render {s : List Char} {i : Index} (h : SubscriptWord s i) :
    SubscriptWord ('[' :: (i.render.toList ++ [']'])) i := by
  obtain ⟨-, -, w, -, -, -, -, hw, -⟩ := h
  exact ⟨[], [], _, [], isGap_nil, isGap_nil, isGap_nil, hw.render, rfl⟩

theorem ReferenceWord.render {w : List Char} {r : Reference} (h : ReferenceWord w r) :
    ReferenceWord r.render.toList r := by
  cases h with
  | singleton hn =>
    show ReferenceWord (String.ofList w).toList _
    rw [String.toList_ofList]
    exact .singleton hn
  | @element n s i hn hs =>
    have htext : (Reference.element (String.ofList n) i).render.toList =
        n ++ '[' :: (i.render.toList ++ [']']) := by
      simp [Reference.render]
    rw [htext]
    exact .element hn hs.render
  | @field n s gap f i hn hs hgap hf =>
    have htext : (Reference.field (String.ofList n) i (String.ofList f)).render.toList =
        n ++ ('[' :: (i.render.toList ++ [']']) ++ ([] ++ '.' :: f)) := by
      simp [Reference.render]
    rw [htext]
    exact .field hn hs.render isGap_nil hf

/-- An operand is written without a dollar sign. -/
theorem OperandWord.render {dollar : Bool} {w : List Char} {o : Operand}
    (h : OperandWord dollar w o) : OperandWord false o.render.toList o := by
  cases h with
  | integer => exact .integer (integerWord_ofInt64 _)
  | @character c hc =>
    have htext : (Operand.literal (.character c)).render.toList = ['\'', c, '\''] := by
      simp [Operand.render, Literal.render, quoteChar]
    rw [htext]
    exact .character hc
  | @item w hw =>
    have htext : (Operand.literal (.item (String.ofList w))).render.toList =
        '"' :: (w ++ ['"']) := by
      simp [Operand.render, Literal.render, quoteItem]
    rw [htext]
    exact .item hw
  | reference h => exact .reference h.render

/-- A term is written with single spaces around its sign. -/
theorem TermWord.render {dollar : Bool} {w : List Char} {t : Term} (h : TermWord dollar w t) :
    TermWord false t.render.toList t := by
  cases h with
  | plain h => exact .plain h.render
  | @adjusted w gap₁ gap₂ v o s i h hgap₁ hgap₂ hv =>
    have htext : (Term.mk o (some ⟨s, i⟩)).render.toList =
        o.render.toList ++ ([' '] ++ signChar s :: ([' '] ++ i.render.toList)) := by
      cases s <;> simp [Term.render, Adjustment.render, signChar]
    rw [htext]
    exact .adjusted h.render isGap_space isGap_space hv.render

/-! ### Ranges -/

/-- A negative number is written as a minus sign and the digits of the amount, which can be read
unless the number is the least one. -/
theorem exists_amount {n : Int64} (hneg : n.toInt < 0) (hleast : n ≠ Int64.minValue) :
    ∃ v amount, (Decimal.ofInt64 n).toList = '-' :: v ∧ IntegerWord v amount ∧
      n.toInt = Sign.minus.apply amount.toInt := by
  have hrange : Int64.minValue.toInt < n.toInt := by
    have hle := Int64.minValue_le_toInt n
    have hne : n.toInt ≠ Int64.minValue.toInt := fun heq => hleast (Int64.toInt_inj.1 heq)
    omega
  have hmin : Int64.minValue.toInt = -9223372036854775808 := rfl
  have hmax : Int64.maxValue.toInt = 9223372036854775807 := rfl
  have hamount : (Int64.ofInt (-n.toInt)).toInt = -n.toInt :=
    Int64.toInt_ofInt_of_le (by omega) (by omega)
  refine ⟨Decimal.digits n.toInt.natAbs, Int64.ofInt (-n.toInt), ?_, ?_, ?_⟩
  · simp [Decimal.ofInt64, Decimal.ofInt, hneg, Decimal.ofNat]
  · refine .nonneg Nat.toDigits_ne_nil
      (fun _ => Nat.isDigit_of_mem_toDigits (by decide) (by decide)) ?_
    rw [Word.ofInt?_eq_some_iff, Decimal.value_digits, hamount]
    omega
  · rw [hamount, Sign.apply]
    omega

/-- The index of a bound. -/
theorem BoundWord.indexWord {named : Bool} {w : List Char} {b : Bound} (h : BoundWord named w b) :
    IndexWord b.value.render.toList b.value := by
  cases h with
  | literal h => exact (IndexWord.literal h).render
  | counter h => exact (IndexWord.counter h).render
  | shifted h => exact h.render

/-- A bound without an offset. -/
theorem IndexWord.boundWord {w : List Char} {i : Index} (h : IndexWord w i) :
    ∃ named, BoundWord named w ⟨i, 0⟩ := by
  cases h with
  | literal h => exact ⟨false, .literal h⟩
  | counter h => exact ⟨true, .counter h⟩

theorem BoundWord.render {named : Bool} {w : List Char} {b : Bound} (h : BoundWord named w b)
    (hleast : b.offset ≠ Int64.minValue) : ∃ named', BoundWord named' b.render.toList b := by
  have hindex := h.indexWord
  obtain ⟨i, offset⟩ := b
  rw [Bound.render]
  dsimp only at hindex hleast ⊢
  -- the offset 0 is not written; a positive one needs a plus sign, a negative one has its own
  by_cases hzero : offset = 0
  · rw [if_pos hzero, hzero]
    exact hindex.boundWord
  rw [if_neg hzero]
  by_cases hpos : 0 < offset
  · rw [if_pos hpos]
    have htext : (i.render ++ "+" ++ Decimal.ofInt64 offset).toList =
        i.render.toList ++ ([] ++ signChar .plus :: ([] ++ (Decimal.ofInt64 offset).toList)) := by
      simp [signChar]
    rw [htext]
    exact ⟨false, .shifted hindex isGap_nil isGap_nil (integerWord_ofInt64 offset) rfl⟩
  · rw [if_neg hpos]
    have hneg : offset.toInt < 0 := by
      have hle : offset.toInt ≤ 0 := by
        simpa [Int64.lt_iff_toInt_lt] using hpos
      have hne : offset.toInt ≠ 0 := fun heq => hzero (Int64.toInt_inj.1 heq)
      omega
    obtain ⟨v, amount, hdigits, hv, hoffset⟩ := exists_amount hneg hleast
    have htext : (i.render ++ Decimal.ofInt64 offset).toList =
        i.render.toList ++ ([] ++ signChar .minus :: ([] ++ v)) := by
      simp [hdigits, signChar]
    rw [htext]
    exact ⟨false, .shifted hindex isGap_nil isGap_nil hv hoffset⟩

/-- A range is written with two dots, which no name runs into. -/
theorem RangeWord.render {w : List Char} {c : Counter} (h : RangeWord w c.range)
    (hleast : ∀ b ∈ c.bounds, b.offset ≠ Int64.minValue) :
    RangeWord c.renderRange.toList c.range := by
  obtain ⟨name, low, high⟩ := c
  have hhighLeast : high.offset ≠ Int64.minValue := hleast high (by simp [Counter.bounds])
  rw [Counter.renderRange]
  cases h with
  | upper h =>
    obtain ⟨named, hhigh⟩ := h.render hhighLeast
    exact .upper hhigh
  | @both _ _ _ _ _ _ _ low high hlow _ _ _ _ hhigh =>
    obtain ⟨named, hlow⟩ := hlow.render (hleast low (by simp [Counter.bounds]))
    obtain ⟨named', hhigh⟩ := hhigh.render hhighLeast
    have htext : (low.render ++ ".." ++ high.render).toList =
        low.render.toList ++ ([] ++ (['.', '.'] ++ ([] ++ high.render.toList))) := by
      simp
    -- no name goes on with a dot
    have hdots : StopsName ([] ++ ['.', '.']) := by
      rintro d ⟨⟩
      decide
    show RangeWord (low.render ++ ".." ++ high.render).toList _
    rw [htext]
    exact .both hlow isGap_nil (.inl rfl) (fun _ => hdots) isGap_nil hhigh

/-! ### Clauses -/

/-- Each item of a list has a spelling. -/
theorem SeparatedWord.exists_word {α : Type} {W : List Char → α → Prop} {w : List Char}
    {as : List α} (h : SeparatedWord W w as) : ∀ a ∈ as, ∃ v, W v a := by
  induction h with
  | single h => exact List.forall_mem_singleton.2 ⟨_, h⟩
  | cons h _ _ _ ih => exact List.forall_mem_cons.2 ⟨⟨_, h⟩, ih⟩

/-- Items are written with commas between them, without gaps. -/
theorem separatedWord_intercalate {α β : Type} {W : List Char → α → Prop} {write : β → String}
    {item : β → α} {bs : List β} (hne : bs ≠ []) (h : ∀ b ∈ bs, W (write b).toList (item b)) :
    SeparatedWord W (",".intercalate (bs.map write)).toList (bs.map item) := by
  induction bs with
  | nil => exact absurd rfl hne
  | cons b bs ih =>
    obtain ⟨hb, hbs⟩ := List.forall_mem_cons.1 h
    cases bs with
    | nil =>
      simp only [List.map_cons, List.map_nil, String.intercalate_singleton]
      exact .single hb
    | cons b' bs =>
      have hmore := ih (List.cons_ne_nil b' bs) hbs
      have htext : (",".intercalate ((b :: b' :: bs).map write)).toList = (write b).toList ++
          ([] ++ ',' :: ([] ++ (",".intercalate ((b' :: bs).map write)).toList)) := by
        simp [String.intercalate_cons_cons]
      rw [htext]
      exact .cons hb isGap_nil isGap_nil hmore

/-- A clause is written after a space. -/
theorem RepeaterWord.render {w : List Char} {counters : List Counter} (h : RepeaterWord w counters)
    (hleast : ∀ c ∈ counters, ∀ b ∈ c.bounds, b.offset ≠ Int64.minValue) :
    ∃ v, (renderRepeater counters).toList = ' ' :: v ∧ RepeaterWord v counters := by
  obtain @⟨gap₁, names, gap₂, s, gap₃, ranges, counters, -, hnames, -, -, -, -, hranges⟩ := h
  have hne : counters ≠ [] := by
    rintro rfl
    exact hnames.ne_nil rfl
  -- names and ranges are written with commas between them and without gaps
  have hnames' : SeparatedWord NameOf (",".intercalate (counters.map Counter.name)).toList
      (counters.map Counter.name) := by
    refine separatedWord_intercalate hne fun c hc => ?_
    obtain ⟨v, hv, heq⟩ := hnames.exists_word c.name (List.mem_map_of_mem hc)
    rw [heq, String.toList_ofList]
    exact ⟨hv, rfl⟩
  have hranges' : SeparatedWord RangeWord
      (",".intercalate (counters.map Counter.renderRange)).toList (counters.map Counter.range) := by
    refine separatedWord_intercalate hne fun c hc => ?_
    obtain ⟨v, hv⟩ := hranges.exists_word c.range (List.mem_map_of_mem hc)
    exact hv.render (hleast c hc)
  have hend : StopsName ([' '] ++ ['i', 'n']) := by
    rintro d ⟨⟩
    decide
  refine ⟨_, ?_, .clause isGap_space hnames' isGap_space rfl hend isGap_space hranges'⟩
  simp [renderRepeater]

/-! ### Constraint expressions -/

theorem symbol_mem_spellings (c : Comparison) : c.symbol.toList ∈ c.spellings := by
  cases c <;> simp [Comparison.symbol, Comparison.spellings]

theorem ConstraintWord.render {w : List Char} {e : ConstraintExpr} (h : ConstraintWord w e)
    (hleast : ∀ c ∈ e.repeater.getD [], ∀ b ∈ c.bounds, b.offset ≠ Int64.minValue) :
    ConstraintWord e.render.toList e := by
  induction h with
  | @relation _ _ _ _ _ _ _ l r c hleft _ _ _ hright =>
    have htext : (ConstraintExpr.mk l c r none).render.toList = l.render.toList ++
        ([' '] ++ (c.symbol.toList ++ ([' '] ++ r.render.toList))) := by
      simp [ConstraintExpr.render]
    rw [htext]
    exact .relation hleft.render isGap_space (symbol_mem_spellings c) isGap_space hright.render
  | @repeated w gap v l r c counters hw hgap hv ih =>
    obtain ⟨u, hclause, hu⟩ := hv.render hleast
    have htext : (ConstraintExpr.mk l c r (some counters)).render.toList =
        (ConstraintExpr.mk l c r none).render.toList ++ ([' '] ++ u) := by
      simp [ConstraintExpr.render, hclause]
    rw [htext]
    exact .repeated (ih (by simp)) isGap_space hu

/-- A tree that was read, and has no offset that is the least word, is read back from its written
form. -/
theorem parse_render_of_parse {text : String} {tree : ConstraintExpr}
    (h : ConstraintExpr.parse text = .ok tree)
    (hleast : ∀ c ∈ tree.repeater.getD [], ∀ b ∈ c.bounds, b.offset ≠ Int64.minValue) :
    ConstraintExpr.parse tree.render = .ok tree := by
  rw [Template.parse_eq_ok_iff] at h ⊢
  obtain ⟨gap, w, gap', -, hw, -⟩ := exists_constraintWord h.1
  have hread := (hw.render hleast).readTree isGap_nil isGap_nil
  rw [List.nil_append, List.append_nil] at hread
  exact ⟨hread, h.2⟩

/-- So is every tree of an expansion, which has no bounds. -/
theorem parse_render_of_expandText {text : String} {trees : List ConstraintExpr}
    (h : Template.expandText text = .ok trees) {tree : ConstraintExpr} (htree : tree ∈ trees) :
    ConstraintExpr.parse tree.render = .ok tree := by
  obtain ⟨text', hparse, hrepeater⟩ := Template.exists_parse_of_expandText h htree
  refine parse_render_of_parse hparse ?_
  simp [hrepeater]

/-- A tree of an expansion, written out, stands for itself. -/
theorem expandText_render {text : String} {trees : List ConstraintExpr}
    (h : Template.expandText text = .ok trees) {tree : ConstraintExpr} (htree : tree ∈ trees) :
    Template.expandText tree.render = .ok [tree] := by
  obtain ⟨-, -, hrepeater⟩ := Template.exists_parse_of_expandText h htree
  rw [Template.expandText, parse_render_of_expandText h htree]
  show Template.expand tree.render tree = _
  rw [Template.expand, hrepeater]

/-- Reading and writing give the tree back: for every text that is accepted with a tree in which no
bound has the least word as its offset, and for every tree that a text expands to. -/
theorem ConstraintExpr.parse_render :
    (∀ text tree, ConstraintExpr.parse text = .ok tree →
      (∀ c ∈ tree.repeater.getD [], ∀ b ∈ c.bounds, b.offset ≠ Int64.minValue) →
      ConstraintExpr.parse tree.render = .ok tree) ∧
    ∀ text trees, Template.expandText text = .ok trees → ∀ tree ∈ trees,
      ConstraintExpr.parse tree.render = .ok tree :=
  ⟨fun _ _ hparse hleast => parse_render_of_parse hparse hleast,
    fun _ _ hexpand _ htree => parse_render_of_expandText hexpand htree⟩

/-- A text with a dollar sign, gaps, a leading zero, a range in words and negative offsets, one of
them added. -/
def spreadText : String :=
  " $team[ i ] .age- -07≠'|' | i , j IN 2,i -1 Range i + -3 "

/-- The tree that is read from the text. -/
def spreadTree : ConstraintExpr :=
  ⟨⟨.reference (.field "team" (.counter "i") "age"), some ⟨.minus, .literal (-7)⟩⟩, .ne,
    ⟨.literal (.character '|'), none⟩,
    some [⟨"i", none, ⟨.literal 2, 0⟩⟩, ⟨"j", some ⟨.counter "i", -1⟩, ⟨.counter "i", -3⟩⟩]⟩

/-- One of the trees that the following text expands to. -/
def spreadInstance : ConstraintExpr :=
  ⟨⟨.reference (.element "x" (.literal (-1))), none⟩, .le, ⟨.literal (.item "i"), none⟩, none⟩

/-- A template and an instance are written in their own forms and read back. -/
theorem ConstraintExpr.parse_render_spreadText :
    ConstraintExpr.parse spreadText = .ok spreadTree ∧
      spreadTree.render = "team[i].age - -7 <> '|' | i,j in 2,i-1..i-3" ∧
      ConstraintExpr.parse spreadTree.render = .ok spreadTree ∧
      ConstraintExpr.parse spreadInstance.render = .ok spreadInstance := by
  have hparse : ConstraintExpr.parse spreadText = .ok spreadTree := by decide +kernel
  have hleast : ∀ c ∈ spreadTree.repeater.getD [], ∀ b ∈ c.bounds, b.offset ≠ Int64.minValue := by
    decide +kernel
  have hexpand : Template.expandText "x[ i]≤\"i\"|i in -1..0" = .ok
      [spreadInstance, { spreadInstance with
        left := ⟨.reference (.element "x" (.literal 0)), none⟩ }] := by
    decide +kernel
  exact ⟨hparse, by decide +kernel, ConstraintExpr.parse_render.1 _ _ hparse hleast,
    ConstraintExpr.parse_render.2 _ _ hexpand _ List.mem_cons_self⟩

-- the least word is read as an offset that is added, but its amount cannot be subtracted
example : (ConstraintExpr.parse "x = 1 | i in 0 + -9223372036854775808").toOption.isSome = true ∧
    (ConstraintExpr.parse "x = 1 | i in 0-9223372036854775808").toOption.isSome = false := by
  decide +kernel

/-! ### Bounds by themselves -/

/-- The least word is written after an index, but what is written cannot be read as its offset. -/
theorem IndexWord.bound_render_least {w : List Char} {i : Index} (h : IndexWord w i) :
    Reader.bound (Bound.render ⟨i, Int64.minValue⟩).toList =
      some (⟨i, 0⟩, (Decimal.ofInt64 Int64.minValue).toList) := by
  have htext : (Bound.render ⟨i, Int64.minValue⟩).toList =
      [] ++ (i.render.toList ++ (Decimal.ofInt64 Int64.minValue).toList) := by
    have hzero : Int64.minValue ≠ 0 := by decide
    have hneg : ¬ 0 < Int64.minValue := by decide
    rw [Bound.render, if_neg hzero, if_neg hneg, String.toList_append, List.nil_append]
  have hstops : StopsName (Decimal.ofInt64 Int64.minValue).toList := by
    rintro c ⟨⟩
    decide
  -- the minus sign is read as that of an amount, which is one too large for the word
  have hoffset : Reader.boundOffset (Decimal.ofInt64 Int64.minValue).toList = none := by
    decide +kernel
  have hskip : Text.skipLayout (Decimal.ofInt64 Int64.minValue).toList =
      (Decimal.ofInt64 Int64.minValue).toList := by
    decide +kernel
  rw [htext, bound_eq, padded_index_append isGap_nil h.render hstops, Option.bind_some, hskip,
    Reader.optional, hoffset]
  rfl

/-- A bound that was read is written as a text that is read as the same bound, up to its end,
exactly when its offset is not the least word. With the least word as its offset, it is read back
without an offset, and what was written for the offset is left unread. -/
theorem Bound.read_render {cs rest : List Char} {b : Bound}
    (h : Reader.bound cs = some (b, rest)) :
    (Reader.bound b.render.toList = some (b, []) ↔ b.offset ≠ Int64.minValue) ∧
      (b.offset = Int64.minValue → Reader.bound b.render.toList =
        some (⟨b.value, 0⟩, (Decimal.ofInt64 b.offset).toList)) := by
  obtain ⟨named, gap, w, gap', -, hw, -⟩ := boundWord_of_read h
  have hleast : b.offset = Int64.minValue → Reader.bound b.render.toList =
      some (⟨b.value, 0⟩, (Decimal.ofInt64 b.offset).toList) := by
    obtain ⟨i, offset⟩ := b
    rintro rfl
    exact hw.indexWord.bound_render_least
  refine ⟨⟨fun hread heq => ?_, fun hne => ?_⟩, hleast⟩
  · -- two results of one reading, with something left and with nothing left
    rw [hleast heq, heq] at hread
    have hnil : (Decimal.ofInt64 Int64.minValue).toList = [] :=
      congrArg Prod.snd (Option.some.inj hread)
    exact absurd hnil (by decide)
  · obtain ⟨named', hrender⟩ := hw.render hne
    have hread := hrender.read_last isGap_nil (follows_nil rangeStops)
    rwa [List.nil_append, List.append_nil] at hread

/-- The largest amount that can be subtracted is read back. -/
theorem Bound.read_render_farBelow :
    Reader.bound "i - 9223372036854775807, 8".toList =
        some (⟨.counter "i", -9223372036854775807⟩, ", 8".toList) ∧
      (Bound.mk (.counter "i") (-9223372036854775807)).render = "i-9223372036854775807" ∧
      Reader.bound "i-9223372036854775807".toList =
        some (⟨.counter "i", -9223372036854775807⟩, []) := by
  have hread : Reader.bound "i - 9223372036854775807, 8".toList =
      some (⟨.counter "i", -9223372036854775807⟩, ", 8".toList) := by
    decide +kernel
  have hrender : (Bound.mk (.counter "i") (-9223372036854775807)).render =
      "i-9223372036854775807" := by
    decide +kernel
  refine ⟨hread, hrender, ?_⟩
  rw [← hrender]
  exact (Bound.read_render hread).1.2 (by decide)

/-- The least word is an offset that can be read, but not from the text that is written for it. -/
theorem Bound.read_render_least :
    Reader.bound "i + -9223372036854775808".toList =
        some (⟨.counter "i", Int64.minValue⟩, []) ∧
      (Bound.mk (.counter "i") Int64.minValue).render = "i-9223372036854775808" ∧
      Reader.bound "i-9223372036854775808".toList ≠
        some (⟨.counter "i", Int64.minValue⟩, []) := by
  decide +kernel

end FiniteDomain
