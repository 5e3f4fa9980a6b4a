import FiniteDomain.Proofs.Expression.TermWord

/-!
# Lists as text

Words of one kind with commas between them, and gaps around the commas. If a reader reads the words
and nothing else, then the reader of lists reads such texts and nothing else.

## Main definitions

* `Spells`: a reader reads exactly the words of a kind.
* `SpellsPadded`: a reader reads exactly the words of a kind, with the gaps around them.
* `SeparatedWord`: words with commas between them.

## Main results

* `SeparatedWord.read`: a list is read up to its end, with the gap after it.
* `separatedWord_of_read`: what was read as a list is one.
-/

namespace FiniteDomain

variable {α : Type} {p : Reader α} {W : List Char → α → Prop}

/-- The reader reads the words of a kind, up to a character that goes on with no name, and reads
nothing else. Words start visibly, so that no layout is skipped before them. -/
structure Spells (p : Reader α) (W : List Char → α → Prop) : Prop where
  /-- The first character of a word is visible. -/
  startsVisibly : ∀ {w a}, W w a → StartsVisibly w
  /-- A word is read up to its end. -/
  read : ∀ {w a tail}, W w a → StopsName tail →
    p (w ++ tail) = some (a, tail)
  /-- What was read is a word. -/
  word_of_read : ∀ {cs a rest}, p cs = some (a, rest) → ∃ w, W w a ∧ cs = w ++ rest

/-- The reader reads the words of a kind with the gaps around them, and reads nothing else. A word
ends where `stops` holds of the text after it, as it does before a comma; `leaves` tells what the
reader ensures of the text after a word. -/
structure SpellsPadded (q : Reader α) (W : List Char → α → Prop) (stops leaves : List Char → Prop) :
    Prop where
  /-- The first character of a word is visible. -/
  startsVisibly : ∀ {w a}, W w a → StartsVisibly w
  /-- A word ends before a comma. -/
  stops_comma : ∀ {gap rest}, IsGap gap → stops (gap ++ ',' :: rest)
  /-- A word is read up to its end, with the gaps around it. -/
  read : ∀ {gap w a tail}, IsGap gap → W w a → stops tail →
    q (gap ++ (w ++ tail)) = some (a, Text.skipLayout tail)
  /-- What was read is a word between two gaps. -/
  word_of_read : ∀ {cs a rest}, q cs = some (a, rest) → ∃ gap w gap', IsGap gap ∧ W w a ∧
    IsGap gap' ∧ leaves (gap' ++ rest) ∧ cs = gap ++ (w ++ (gap' ++ rest))

/-- A padded word is read with the gaps around it. -/
theorem Spells.padded_read (hp : Spells p W) {gap w tail : List Char} {a : α} (hgap : IsGap gap)
    (h : W w a) (htail : StopsName tail) :
    Reader.padded p (gap ++ (w ++ tail)) = some (a, Text.skipLayout tail) := by
  rw [padded_eq, skipLayout_append hgap, (hp.startsVisibly h).skipLayout_append, hp.read h htail]
  rfl

/-- A comma ends a name, also after a gap. -/
theorem stopsName_comma {gap : List Char} (hgap : IsGap gap) (rest : List Char) :
    StopsName (gap ++ ',' :: rest) :=
  ((follows_cons (by decide) (by decide) List.not_mem_nil rest).gap_append hgap).stopsName

/-- A reader of words that is padded reads them with the gaps around them. -/
theorem Spells.padded (hp : Spells p W) :
    SpellsPadded (Reader.padded p) W StopsName fun _ => True where
  startsVisibly := hp.startsVisibly
  stops_comma hgap := stopsName_comma hgap _
  read := hp.padded_read
  word_of_read := by
    intro cs a rest h
    obtain ⟨gap, mid, gap', hgap, rfl, hgap', hread⟩ := exists_of_padded h
    obtain ⟨w, hw, rfl⟩ := hp.word_of_read hread
    exact ⟨gap, w, gap', hgap, hw, hgap', trivial, rfl⟩

/-- A text of words with commas between them. -/
inductive SeparatedWord (W : List Char → α → Prop) : List Char → List α → Prop where
  /-- One word. -/
  | single {w : List Char} {a : α} (h : W w a) : SeparatedWord W w [a]
  /-- A word before others. -/
  | cons {w gap₁ gap₂ v : List Char} {a : α} {as : List α} (h : W w a) (hgap₁ : IsGap gap₁)
    (hgap₂ : IsGap gap₂) (hv : SeparatedWord W v as) :
    SeparatedWord W (w ++ (gap₁ ++ ',' :: (gap₂ ++ v))) (a :: as)

/-- A list that is written has an item. -/
theorem SeparatedWord.ne_nil {w : List Char} {as : List α} (h : SeparatedWord W w as) :
    as ≠ [] := by
  cases h <;> exact List.cons_ne_nil _ _

/-- A list starts like its first item. -/
theorem SeparatedWord.startsVisibly (hstart : ∀ w a, W w a → StartsVisibly w) {w : List Char}
    {as : List α} (h : SeparatedWord W w as) : StartsVisibly w := by
  cases h with
  | single h => exact hstart _ _ h
  | cons h _ _ _ => exact (hstart _ _ h).append _

/-- A list ends like its last item. -/
theorem SeparatedWord.endsVisibly (hend : ∀ w a, W w a → EndsVisibly w) {w : List Char}
    {as : List α} (h : SeparatedWord W w as) : EndsVisibly w := by
  induction h with
  | single h => exact hend _ _ h
  | cons _ _ _ _ ih => exact (((ih.append _).append [',']).append _).append _

/-- A list has no more items than its text has characters. -/
theorem SeparatedWord.length_le (hstart : ∀ w a, W w a → StartsVisibly w) {w : List Char}
    {as : List α} (h : SeparatedWord W w as) : as.length ≤ w.length := by
  induction h with
  | single h =>
    obtain ⟨c, rest, rfl, -⟩ := hstart _ _ h
    simp
  | cons h _ _ _ ih =>
    simp only [List.length_cons, List.length_append]
    omega

/-! ### Reading lists -/

variable {q : Reader α} {stops leaves : List Char → Prop}

/-- The reader of what stands between the items. -/
abbrev comma : Reader Unit :=
  Reader.padded (Reader.symbol ',')

/-- A list ends where no comma comes after the gap. -/
theorem further_eq_nil {tail : List Char} (h : (Text.skipLayout tail).head? ≠ some ',') :
    Reader.further comma q (Text.skipLayout tail) = ([], Text.skipLayout tail) := by
  have hcomma : comma (Text.skipLayout tail) = none :=
    padded_symbol_eq_none (by rwa [skipLayout_skipLayout])
  rw [Reader.further, hcomma]
  rfl

/-- A comma and a word are one more item. -/
theorem SpellsPadded.further_cons (hq : SpellsPadded q W stops leaves) {gap w tail : List Char}
    {a : α} (hgap : IsGap gap) (h : W w a) (htail : stops tail) :
    Reader.further comma q (',' :: (gap ++ (w ++ tail))) =
      (a :: (Reader.further comma q (Text.skipLayout tail)).1,
        (Reader.further comma q (Text.skipLayout tail)).2) := by
  have hskip : Text.skipLayout (gap ++ (w ++ tail)) = w ++ tail := by
    rw [skipLayout_append hgap, (hq.startsVisibly h).skipLayout_append]
  have hcomma : comma (',' :: (gap ++ (w ++ tail))) = some ((), w ++ tail) := by
    have hread := padded_symbol_cons (c := ',') (by decide) (gap ++ (w ++ tail))
    rwa [hskip] at hread
  have hword : q (w ++ tail) = some (a, Text.skipLayout tail) := hq.read isGap_nil h htail
  -- the reader goes on only if it has moved on, which the comma ensures
  have hlength : (Text.skipLayout tail).length < (',' :: (gap ++ (w ++ tail))).length := by
    have := Text.length_skipLayout_le tail
    simp only [List.length_cons, List.length_append]
    omega
  rw [Reader.further, hcomma, Option.bind_some]
  dsimp only
  rw [hword]
  dsimp only
  rw [if_pos hlength]

theorem SeparatedWord.further_eq (hq : SpellsPadded q W stops leaves) {w : List Char} {as : List α}
    (h : SeparatedWord W w as) {gap tail : List Char} (hgap : IsGap gap) (htail : stops tail)
    (hcomma : (Text.skipLayout tail).head? ≠ some ',') :
    Reader.further comma q (',' :: (gap ++ (w ++ tail))) = (as, Text.skipLayout tail) := by
  -- the gap after the comma is generalised, since each comma of the text has its own
  induction h generalizing gap with
  | single h => rw [hq.further_cons hgap h htail, further_eq_nil hcomma]
  | @cons w gap₁ gap₂ v a as h hgap₁ hgap₂ _ ih =>
    have htext : w ++ (gap₁ ++ ',' :: (gap₂ ++ v)) ++ tail =
        w ++ (gap₁ ++ ',' :: (gap₂ ++ (v ++ tail))) := by
      simp
    rw [htext, hq.further_cons hgap h (hq.stops_comma hgap₁), skipLayout_append hgap₁,
      skipLayout_cons (by decide), ih hgap₂]

/-- A list is read up to its end, with the gap after it. -/
theorem SeparatedWord.read (hq : SpellsPadded q W stops leaves) {w : List Char} {as : List α}
    (h : SeparatedWord W w as) {gap tail : List Char} (hgap : IsGap gap) (htail : stops tail)
    (hcomma : (Text.skipLayout tail).head? ≠ some ',') :
    Reader.commaSeparated q (gap ++ (w ++ tail)) = some (as, Text.skipLayout tail) := by
  cases h with
  | single h =>
    have hword := hq.read hgap h htail
    simp [Reader.commaSeparated, Reader.separated, hword, further_eq_nil hcomma]
  | @cons w gap₁ gap₂ v a as h hgap₁ hgap₂ hv =>
    have htext : gap ++ (w ++ (gap₁ ++ ',' :: (gap₂ ++ v)) ++ tail) =
        gap ++ (w ++ (gap₁ ++ ',' :: (gap₂ ++ (v ++ tail)))) := by
      simp
    -- the first item is read with the gap after it, so the rest starts at its comma
    have hstops : stops (gap₁ ++ ',' :: (gap₂ ++ (v ++ tail))) := hq.stops_comma hgap₁
    have hword := hq.read hgap h hstops
    have hskip : Text.skipLayout (gap₁ ++ ',' :: (gap₂ ++ (v ++ tail))) =
        ',' :: (gap₂ ++ (v ++ tail)) := by
      rw [skipLayout_append hgap₁, skipLayout_cons (by decide)]
    rw [hskip] at hword
    rw [htext]
    simp [Reader.commaSeparated, Reader.separated, hword, hv.further_eq hq hgap₂ htail hcomma]

/-! ### What was read -/

/-- The items read after the first one are a list after a comma, unless there are none. -/
theorem separatedWord_of_further (hq : SpellsPadded q W stops leaves) (cs : List Char) :
    (Reader.further comma q cs = ([], cs)) ∨
      ∃ gap₁ gap₂ w gap₃, IsGap gap₁ ∧ IsGap gap₂ ∧ IsGap gap₃ ∧
        SeparatedWord W w (Reader.further comma q cs).1 ∧
        leaves (gap₃ ++ (Reader.further comma q cs).2) ∧
        cs = gap₁ ++ ',' :: (gap₂ ++ (w ++ (gap₃ ++ (Reader.further comma q cs).2))) := by
  -- along the recursion of the reader: no item is announced, one is read, or it reads nothing
  fun_induction Reader.further comma q cs with
  | case1 cs _ => exact .inl rfl
  | case2 cs a rest hread hlt more rest' hmore ih =>
    right
    simp only [Option.bind_eq_some_iff, Prod.exists] at hread
    obtain ⟨u, mid, hcomma, hword⟩ := hread
    obtain ⟨gap₁, mid₁, gap₂, hgap₁, rfl, hgap₂, hsymbol⟩ := exists_of_padded hcomma
    obtain rfl := symbol_of_read hsymbol
    obtain ⟨gap₃, w, gap₄, hgap₃, hw, hgap₄, hleaves, rfl⟩ := hq.word_of_read hword
    rw [hmore] at ih
    rcases ih with hnil | ⟨gap₅, gap₆, v, gap₇, hgap₅, hgap₆, hgap₇, hv, hleaves', hrest⟩
    · -- this item is the last one
      obtain ⟨rfl, rfl⟩ := Prod.mk.inj hnil
      exact ⟨gap₁, gap₂ ++ gap₃, w, gap₄, hgap₁, hgap₂.append hgap₃, hgap₄, .single hw, hleaves,
        by simp⟩
    · -- the gap after this item and the one before the next comma are one gap
      dsimp only at hrest hv
      refine ⟨gap₁, gap₂ ++ gap₃, _, gap₇, hgap₁, hgap₂.append hgap₃, hgap₇,
        .cons hw (hgap₄.append hgap₅) hgap₆ hv, hleaves', ?_⟩
      rw [hrest]
      simp
  | case3 cs a rest hread hlt => exact .inl rfl

/-- What was read as a list is one, between two gaps. -/
theorem separatedWord_of_read (hq : SpellsPadded q W stops leaves) {cs rest : List Char}
    {as : List α} (h : Reader.commaSeparated q cs = some (as, rest)) :
    ∃ gap w gap', IsGap gap ∧ SeparatedWord W w as ∧ IsGap gap' ∧ leaves (gap' ++ rest) ∧
      cs = gap ++ (w ++ (gap' ++ rest)) := by
  simp only [Reader.commaSeparated, Reader.separated, bind, Option.bind_eq_some_iff, Prod.exists,
    pure, Option.some.injEq, Prod.mk.injEq] at h
  obtain ⟨a, mid, hword, rfl, rfl⟩ := h
  obtain ⟨gap₁, w, gap₂, hgap₁, hw, hgap₂, hleaves, rfl⟩ := hq.word_of_read hword
  rcases separatedWord_of_further hq mid with hnil | ⟨gap₃, gap₄, v, gap₅, hgap₃, hgap₄, hgap₅,
    hv, hleaves', hmid⟩
  · rw [hnil]
    exact ⟨gap₁, w, gap₂, hgap₁, .single hw, hgap₂, hleaves, rfl⟩
  · refine ⟨gap₁, _, gap₅, hgap₁, .cons hw (hgap₂.append hgap₃) hgap₄ hv, hgap₅, hleaves', ?_⟩
    calc gap₁ ++ (w ++ (gap₂ ++ mid))
        = gap₁ ++ (w ++ (gap₂ ++ (gap₃ ++ ',' :: (gap₄ ++ (v ++ (gap₅ ++ _)))))) := by rw [← hmid]
      _ = _ := by simp

end FiniteDomain
