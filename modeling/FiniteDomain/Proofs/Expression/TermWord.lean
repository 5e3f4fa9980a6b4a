import FiniteDomain.Proofs.Expression.Wording

/-!
# Terms as text

How the sides of a comparison and the comparison itself are written, with gaps where the grammar
allows them. As for single words, what is written is read back and what is read was so written. The
text of a term ends with its last word, so that a reader may leave behind or skip the gap after it.

## Main definitions

* `SubscriptWord`, `ReferenceWord`, `OperandWord`, `TermWord`: the forms. The last two tell whether
  the text starts with a dollar sign.
* `termStops`: the characters that would go on with a term.

## Main results

* `TermWord.read`: a term is read up to its end.
* `termWord_of_read`: what was read as a term is one.
* `comparison_append`, `spelling_of_read`: the same for comparisons.
-/

namespace FiniteDomain

/-! ### Padded words -/

/-- Layout is skipped before the part and after it. -/
theorem padded_eq {α : Type} (p : Reader α) (cs : List Char) :
    Reader.padded p cs = (p (Text.skipLayout cs)).map fun r => (r.1, Text.skipLayout r.2) :=
  rfl

/-- What a padded reader has read stands between two gaps. -/
theorem exists_of_padded {α : Type} {p : Reader α} {cs rest : List Char} {a : α}
    (h : Reader.padded p cs = some (a, rest)) :
    ∃ gap mid gap', IsGap gap ∧ cs = gap ++ mid ∧ IsGap gap' ∧ p mid = some (a, gap' ++ rest) := by
  rw [padded_eq, Option.map_eq_some_iff] at h
  obtain ⟨⟨a', rest'⟩, hread, heq⟩ := h
  obtain ⟨rfl, rfl⟩ := Prod.mk.inj heq
  obtain ⟨gap, hgap, hcs⟩ := exists_gap cs
  obtain ⟨gap', hgap', hrest⟩ := exists_gap rest'
  refine ⟨gap, _, gap', hgap, hcs, hgap', ?_⟩
  rw [hread, ← hrest]

/-- A padded character is not read if the layout ends at another one. -/
theorem padded_symbol_eq_none {c : Char} {cs : List Char}
    (h : (Text.skipLayout cs).head? ≠ some c) : Reader.padded (Reader.symbol c) cs = none := by
  rw [padded_eq, Option.map_eq_none_iff]
  cases hcs : Text.skipLayout cs with
  | nil => rfl
  | cons d rest =>
    rw [hcs] at h
    exact if_neg fun heq => h (congrArg some heq)

/-- A padded character is read with the gaps around it. -/
theorem padded_symbol_append {c : Char} (hc : Text.isLayout c = false) {gap : List Char}
    (hgap : IsGap gap) (rest : List Char) :
    Reader.padded (Reader.symbol c) (gap ++ c :: rest) = some ((), Text.skipLayout rest) := by
  rw [padded_eq, skipLayout_append hgap, skipLayout_cons hc, Reader.symbol, if_pos rfl]
  rfl

theorem padded_symbol_cons {c : Char} (hc : Text.isLayout c = false) (rest : List Char) :
    Reader.padded (Reader.symbol c) (c :: rest) = some ((), Text.skipLayout rest) :=
  padded_symbol_append hc isGap_nil rest

/-- What is read as a character is that character. -/
theorem symbol_of_read {c : Char} {cs rest : List Char} {u : Unit}
    (h : Reader.symbol c cs = some (u, rest)) : cs = c :: rest := by
  cases cs with
  | nil => cases h
  | cons d cs =>
    rw [Reader.symbol] at h
    split at h
    case isTrue heq =>
      cases h
      rw [heq]
    case isFalse => cases h

/-! ### Subscripts -/

/-- A text that is an index in brackets, after a gap. -/
def SubscriptWord (s : List Char) (i : Index) : Prop :=
  ∃ gap₁ gap₂ w gap₃, IsGap gap₁ ∧ IsGap gap₂ ∧ IsGap gap₃ ∧ IndexWord w i ∧
    s = gap₁ ++ '[' :: (gap₂ ++ (w ++ (gap₃ ++ [']'])))

/-- A padded index is read with the gaps around it. -/
theorem padded_index_append {gap w tail : List Char} {i : Index} (hgap : IsGap gap)
    (hw : IndexWord w i) (htail : StopsName tail) :
    Reader.padded Reader.index (gap ++ (w ++ tail)) = some (i, Text.skipLayout tail) := by
  rw [padded_eq, skipLayout_append hgap, hw.startsVisibly.skipLayout_append, hw.read htail]
  rfl

/-- The reader of a subscript as steps. -/
theorem subscript_eq (cs : List Char) :
    Reader.subscript cs = (Reader.padded (Reader.symbol '[') cs).bind fun r =>
      (Reader.padded Reader.index r.2).bind fun r' =>
        (Reader.padded (Reader.symbol ']') r'.2).bind fun r'' => some (r'.1, r''.2) :=
  rfl

/-- A subscript is read with the gap after it. -/
theorem SubscriptWord.read {s : List Char} {i : Index} (h : SubscriptWord s i) (tail : List Char) :
    Reader.subscript (s ++ tail) = some (i, Text.skipLayout tail) := by
  obtain ⟨gap₁, gap₂, w, gap₃, hgap₁, hgap₂, hgap₃, hw, rfl⟩ := h
  have hclose : StopsName (gap₃ ++ ']' :: tail) :=
    ((follows_cons (by decide) (by decide) (List.not_mem_nil) tail).gap_append
      hgap₃).stopsName
  have htext : gap₁ ++ '[' :: (gap₂ ++ (w ++ (gap₃ ++ [']']))) ++ tail =
      gap₁ ++ '[' :: (gap₂ ++ (w ++ (gap₃ ++ ']' :: tail))) := by
    simp
  have hopen : Reader.padded Reader.index (Text.skipLayout (gap₂ ++ (w ++ (gap₃ ++ ']' :: tail)))) =
      some (i, Text.skipLayout (gap₃ ++ ']' :: tail)) := by
    rw [skipLayout_append hgap₂, hw.startsVisibly.skipLayout_append]
    exact padded_index_append isGap_nil hw hclose
  have hend : Reader.padded (Reader.symbol ']') (Text.skipLayout (gap₃ ++ ']' :: tail)) =
      some ((), Text.skipLayout tail) := by
    rw [skipLayout_append hgap₃, skipLayout_cons (by decide)]
    exact padded_symbol_cons (by decide) tail
  rw [htext, subscript_eq, padded_symbol_append (by decide) hgap₁, Option.bind_some, hopen,
    Option.bind_some, hend, Option.bind_some]

/-- What was read as a subscript is one. -/
theorem subscriptWord_of_read {cs rest : List Char} {i : Index}
    (h : Reader.subscript cs = some (i, rest)) :
    ∃ s gap, SubscriptWord s i ∧ IsGap gap ∧ cs = s ++ (gap ++ rest) := by
  simp only [subscript_eq, Option.bind_eq_some_iff, Prod.exists, Option.some.injEq,
    Prod.mk.injEq] at h
  obtain ⟨u, rest₁, hopen, i', rest₂, hindex, u', rest₃, hclose, rfl, rfl⟩ := h
  obtain ⟨gap₁, mid₁, gap₂, hgap₁, rfl, hgap₂, hread₁⟩ := exists_of_padded hopen
  obtain ⟨gap₃, mid₂, gap₄, hgap₃, rfl, hgap₄, hread₂⟩ := exists_of_padded hindex
  obtain ⟨gap₅, mid₃, gap₆, hgap₅, rfl, hgap₆, hread₃⟩ := exists_of_padded hclose
  obtain rfl := symbol_of_read hread₁
  obtain ⟨w, hw, rfl⟩ := indexWord_of_read hread₂
  obtain rfl := symbol_of_read hread₃
  refine ⟨_, gap₆, ⟨gap₁, gap₂ ++ gap₃, w, gap₄ ++ gap₅, hgap₁, hgap₂.append hgap₃,
    hgap₄.append hgap₅, hw, rfl⟩, hgap₆, ?_⟩
  simp

/-! ### References -/

/-- A text that is a reference, less the dollar sign. -/
inductive ReferenceWord : List Char → Reference → Prop where
  /-- A name alone. -/
  | singleton {n : List Char} (hn : NameWord n) : ReferenceWord n (.singleton (String.ofList n))
  /-- A name with a subscript. -/
  | element {n s : List Char} {i : Index} (hn : NameWord n) (hs : SubscriptWord s i) :
    ReferenceWord (n ++ s) (.element (String.ofList n) i)
  /-- A name with a subscript and a field. -/
  | field {n s gap f : List Char} {i : Index} (hn : NameWord n) (hs : SubscriptWord s i)
    (hgap : IsGap gap) (hf : NameWord f) :
    ReferenceWord (n ++ (s ++ (gap ++ '.' :: f))) (.field (String.ofList n) i (String.ofList f))

/-- The characters that would go on with a reference. -/
def referenceStops : List Char :=
  ['[', '.']

/-- A reference without its dollar sign. -/
def readReference (cs : List Char) : Option (Reference × List Char) :=
  (Reader.name cs).bind fun (n, rest) =>
    match Reader.subscript rest with
    | none => some (.singleton n, rest)
    | some (i, rest) =>
      match Reader.fieldName rest with
      | none => some (.element n i, rest)
      | some (f, rest) => some (.field n i f, rest)

theorem reference_dollar (cs : List Char) :
    Reader.reference ('$' :: cs) = readReference cs :=
  rfl

theorem reference_of_head?_ne {cs : List Char} (h : cs.head? ≠ some '$') :
    Reader.reference cs = readReference cs := by
  have hnone : Reader.symbol '$' cs = none := by
    cases cs with
    | nil => rfl
    | cons c cs => exact if_neg fun heq => h (congrArg some heq)
  simp only [Reader.reference, Reader.optional, hnone]
  rfl

/-- Without an opening bracket there is no subscript. -/
theorem subscript_eq_none {tail : List Char} (h : (Text.skipLayout tail).head? ≠ some '[') :
    Reader.subscript tail = none := by
  rw [subscript_eq, padded_symbol_eq_none h]
  rfl

/-- Without a dot there is no field. -/
theorem fieldName_eq_none {cs : List Char} (h : cs.head? ≠ some '.') :
    Reader.fieldName cs = none := by
  cases cs with
  | nil => rfl
  | cons c cs =>
    have hc : c ≠ '.' := fun heq => h (congrArg some heq)
    simp [Reader.fieldName, Reader.symbol, hc]

/-- A subscript ends the name before it. -/
theorem head?_append_of_subscript {s : List Char} {i : Index} (hs : SubscriptWord s i)
    (tail : List Char) {c : Char} (hc : (s ++ tail).head? = some c) : isNameChar c = false := by
  obtain ⟨gap₁, gap₂, w, gap₃, hgap₁, -, -, -, rfl⟩ := hs
  rw [List.append_assoc, List.cons_append] at hc
  exact ((follows_cons (by decide) (by decide) List.not_mem_nil _).gap_append
    hgap₁).stopsName c hc

/-- A reference is read up to its end. -/
theorem ReferenceWord.read {w tail : List Char} {r : Reference} (h : ReferenceWord w r)
    (htail : Follows referenceStops tail) :
    ∃ rest, readReference (w ++ tail) = some (r, rest) ∧
      Text.skipLayout rest = Text.skipLayout tail := by
  have hnoBracket : (Text.skipLayout tail).head? ≠ some '[' :=
    fun hc => htail.head?_skipLayout hc (by decide)
  have hnoDot : (Text.skipLayout tail).head? ≠ some '.' :=
    fun hc => htail.head?_skipLayout hc (by decide)
  -- an element skips the gap after its bracket, the other two forms leave the gap behind
  cases h with
  | singleton hn =>
    refine ⟨tail, ?_, rfl⟩
    rw [readReference, hn.read htail.stopsName, Option.bind_some]
    simp only [subscript_eq_none hnoBracket]
  | element hn hs =>
    refine ⟨Text.skipLayout tail, ?_, skipLayout_skipLayout tail⟩
    rw [readReference, List.append_assoc, hn.read fun c => head?_append_of_subscript hs tail,
      Option.bind_some]
    simp only [hs.read, fieldName_eq_none hnoDot]
  | @field n s gap f i hn hs hgap hf =>
    refine ⟨tail, ?_, rfl⟩
    have hfield : Reader.fieldName ('.' :: (f ++ tail)) = some (String.ofList f, tail) := by
      simp [Reader.fieldName, Reader.symbol, hf.read htail.stopsName]
    have hskip : Text.skipLayout (gap ++ '.' :: (f ++ tail)) = '.' :: (f ++ tail) := by
      rw [skipLayout_append hgap, skipLayout_cons (by decide)]
    have htext : n ++ (s ++ (gap ++ '.' :: f)) ++ tail =
        n ++ (s ++ (gap ++ '.' :: (f ++ tail))) := by
      simp
    rw [readReference, htext, hn.read fun c => head?_append_of_subscript hs _, Option.bind_some]
    simp only [hs.read, hskip, hfield]

/-- What was read as a reference is one. -/
theorem referenceWord_of_read {cs rest : List Char} {r : Reference}
    (h : readReference cs = some (r, rest)) :
    ∃ w gap, ReferenceWord w r ∧ IsGap gap ∧ cs = w ++ (gap ++ rest) := by
  rw [readReference, Option.bind_eq_some_iff] at h
  obtain ⟨⟨n, rest₁⟩, hname, h⟩ := h
  obtain ⟨w, hw, rfl, rfl⟩ := nameWord_of_read hname
  dsimp only at h
  -- without a subscript, with one, and with one and a field
  split at h
  · cases h
    exact ⟨w, [], .singleton hw, isGap_nil, rfl⟩
  · next i rest₂ hsubscript =>
    obtain ⟨s, gap, hs, hgap, rfl⟩ := subscriptWord_of_read hsubscript
    split at h
    · cases h
      exact ⟨w ++ s, gap, .element hw hs, hgap, by simp⟩
    · next f rest₃ hfield =>
      cases h
      simp only [Reader.fieldName, Option.bind_eq_bind, Option.bind_eq_some_iff,
        Prod.exists] at hfield
      obtain ⟨u, rest₄, hdot, hname'⟩ := hfield
      obtain rfl := symbol_of_read hdot
      obtain ⟨f, hf, rfl, rfl⟩ := nameWord_of_read hname'
      exact ⟨_, [], .field hw hs hgap hf, isGap_nil, by simp⟩

/-! ### Operands -/

/-- The dollar sign before a reference, if it has one. -/
def mark (dollar : Bool) : List Char :=
  if dollar then ['$'] else []

/-- A text that is an operand; `dollar` tells whether it starts with a dollar sign. -/
inductive OperandWord : (dollar : Bool) → List Char → Operand → Prop where
  /-- A number. -/
  | integer {w : List Char} {value : Int64} (h : IntegerWord w value) :
    OperandWord false w (.literal (.integer value))
  /-- A character in single quotes. -/
  | character {c : Char} (hc : c ≠ '\'') :
    OperandWord false ['\'', c, '\''] (.literal (.character c))
  /-- An item in double quotes. -/
  | item {w : List Char} (hw : ∀ c ∈ w, c ≠ '"') :
    OperandWord false ('"' :: (w ++ ['"'])) (.literal (.item (String.ofList w)))
  /-- A reference. -/
  | reference {dollar : Bool} {w : List Char} {r : Reference} (h : ReferenceWord w r) :
    OperandWord dollar (mark dollar ++ w) (.reference r)

/-- A reference starts with the first character of a name. -/
theorem ReferenceWord.exists_cons {w : List Char} {r : Reference} (h : ReferenceWord w r) :
    ∃ c rest, w = c :: rest ∧ isNameStart c = true := by
  cases h with
  | singleton hn | element hn _ | field hn _ _ _ =>
    obtain ⟨c, rest, rfl, hc, -⟩ := hn
    exact ⟨c, _, rfl, hc⟩

theorem ne_of_isNameStart {c d : Char} (hc : isNameStart c = true)
    (hd : isNameStart d = false) : c ≠ d := by
  rintro rfl
  rw [hc] at hd
  cases hd

/-- A character starts with a single quote. -/
theorem character_cons_eq_none {c : Char} (h : c ≠ '\'') (rest : List Char) :
    Reader.character (c :: rest) = none := by
  unfold Reader.character
  split
  · next heq => exact absurd (List.cons.inj heq).1 h
  · rfl

/-- An item starts with a double quote. -/
theorem item_cons_eq_none {c : Char} (h : c ≠ '"') (rest : List Char) :
    Reader.item (c :: rest) = none := by
  unfold Reader.item
  split
  · next heq => exact absurd (List.cons.inj heq).1 h
  · rfl

/-- No constant starts like a reference. -/
theorem literal_eq_none {c : Char} (h : c = '$' ∨ isNameStart c = true) (rest : List Char) :
    Reader.literal (c :: rest) = none := by
  have hne : ∀ d, d ≠ '$' → isNameStart d = false → c ≠ d := by
    intro d hdollar hd
    rcases h with rfl | h
    · exact hdollar.symm
    · exact ne_of_isNameStart h hd
  have hdigit : c.isDigit = false := by
    rcases h with rfl | h
    · decide
    · exact not_isDigit_of_isNameStart h
  simp [Reader.literal, Reader.orElse, Reader.map,
    integer_cons_eq_none (hne '-' (by decide) (by decide)) hdigit,
    character_cons_eq_none (hne '\'' (by decide) (by decide)),
    item_cons_eq_none (hne '"' (by decide) (by decide))]

/-- An item is read up to its closing quote. -/
theorem item_append {w : List Char} (hw : ∀ c ∈ w, c ≠ '"') (tail : List Char) :
    Reader.item ('"' :: (w ++ '"' :: tail)) = some (String.ofList w, tail) := by
  have hinside : ∀ c ∈ w, (c != '"') = true := by simpa using hw
  have hquote : ∀ c, ('"' :: tail).head? = some c → (c != '"') = false := by simp
  rw [Reader.item, dropWhile_append_stop hinside hquote, takeWhile_append_stop hinside hquote]

/-- An operand is read up to its end. -/
theorem OperandWord.read {dollar : Bool} {w tail : List Char} {o : Operand}
    (h : OperandWord dollar w o) (htail : Follows referenceStops tail) :
    ∃ rest, Reader.operand (w ++ tail) = some (o, rest) ∧
      Text.skipLayout rest = Text.skipLayout tail := by
  cases h with
  | integer h =>
    refine ⟨tail, ?_, rfl⟩
    simp [Reader.operand, Reader.literal, Reader.orElse, Reader.map,
      h.read fun c hc => not_isDigit_of_not_isNameChar (htail.stopsName c hc)]
  | @character c hc =>
    refine ⟨tail, ?_, rfl⟩
    have hinteger : Reader.integer ('\'' :: c :: '\'' :: tail) = none := rfl
    simp [Reader.operand, Reader.literal, Reader.orElse, Reader.map, hinteger, Reader.character, hc]
  | @item w hw =>
    refine ⟨tail, ?_, rfl⟩
    have hinteger : Reader.integer ('"' :: (w ++ '"' :: tail)) = none := rfl
    have hcharacter : Reader.character ('"' :: (w ++ '"' :: tail)) = none := rfl
    simp [Reader.operand, Reader.literal, Reader.orElse, Reader.map, hinteger, hcharacter,
      item_append hw]
  | @reference dollar w r h =>
    obtain ⟨rest, hread, hrest⟩ := h.read htail
    refine ⟨rest, ?_, hrest⟩
    -- a reference starts like no constant, so the first alternative fails
    obtain ⟨c, cs, rfl, hc⟩ := h.exists_cons
    cases dollar with
    | true =>
      have hreference : Reader.reference ('$' :: (c :: cs ++ tail)) = some (r, rest) :=
        (reference_dollar _).trans hread
      have hliteral := literal_eq_none (.inl rfl) (c :: (cs ++ tail))
      simpa [mark, Reader.operand, Reader.orElse, Reader.map, hliteral] using hreference
    | false =>
      have hhead : (c :: cs ++ tail).head? ≠ some '$' := by
        simpa using ne_of_isNameStart hc (by decide)
      have hreference : Reader.reference (c :: cs ++ tail) = some (r, rest) :=
        (reference_of_head?_ne hhead).trans hread
      have hliteral := literal_eq_none (.inr hc) (cs ++ tail)
      simpa [mark, Reader.operand, Reader.orElse, Reader.map, hliteral] using hreference

/-- What is read as a character is one character between single quotes. -/
theorem characterWord_of_read {cs rest : List Char} {c : Char}
    (h : Reader.character cs = some (c, rest)) :
    c ≠ '\'' ∧ cs = '\'' :: c :: '\'' :: rest := by
  unfold Reader.character at h
  split at h
  · split at h
    · cases h
    · next hc => cases h; exact ⟨hc, rfl⟩
  · cases h

/-- What is read as an item is everything between two double quotes, the second one being the next.
-/
theorem itemWord_of_read {cs rest : List Char} {text : String}
    (h : Reader.item cs = some (text, rest)) :
    ∃ w, (∀ c ∈ w, c ≠ '"') ∧ text = String.ofList w ∧ cs = '"' :: (w ++ '"' :: rest) := by
  unfold Reader.item at h
  split at h
  · next cs =>
    split at h
    · next d rest' hdrop =>
      cases h
      have hd : d = '"' := by
        have := List.head?_dropWhile_not (· != '"') cs
        rw [hdrop] at this
        simpa using this
      refine ⟨cs.takeWhile (· != '"'), ?_, rfl, ?_⟩
      · intro c hc
        simpa using mem_takeWhile_imp hc
      · subst hd
        rw [← hdrop, List.takeWhile_append_dropWhile]
    · cases h
  · cases h

/-- What was read as an operand is one. -/
theorem operandWord_of_read {cs rest : List Char} {o : Operand}
    (h : Reader.operand cs = some (o, rest)) :
    ∃ dollar w gap, OperandWord dollar w o ∧ IsGap gap ∧ cs = w ++ (gap ++ rest) := by
  simp only [Reader.operand, Reader.literal, Reader.orElse, Reader.map, Option.or_eq_some_iff,
    Option.map_eq_some_iff, Prod.exists, Prod.mk.injEq] at h
  rcases h with ⟨l, rest', hl, rfl, rfl⟩ | ⟨-, r, rest', hr, rfl, rfl⟩
  · rcases hl with ⟨value, rest', h, rfl, rfl⟩ | ⟨-, hl⟩
    · obtain ⟨w, hw, rfl⟩ := integerWord_of_read h
      exact ⟨false, w, [], .integer hw, isGap_nil, rfl⟩
    · rcases hl with ⟨c, rest', h, rfl, rfl⟩ | ⟨-, text, rest', h, rfl, rfl⟩
      · obtain ⟨hc, rfl⟩ := characterWord_of_read h
        exact ⟨false, _, [], .character hc, isGap_nil, rfl⟩
      · obtain ⟨w, hw, rfl, rfl⟩ := itemWord_of_read h
        exact ⟨false, _, [], .item hw, isGap_nil, by simp⟩
  · by_cases hdollar : cs.head? = some '$'
    · obtain ⟨cs, rfl⟩ := List.head?_eq_some_iff.1 hdollar
      rw [reference_dollar] at hr
      obtain ⟨w, gap, hw, hgap, rfl⟩ := referenceWord_of_read hr
      exact ⟨true, _, gap, .reference hw, hgap, rfl⟩
    · rw [reference_of_head?_ne hdollar] at hr
      obtain ⟨w, gap, hw, hgap, rfl⟩ := referenceWord_of_read hr
      exact ⟨false, _, gap, .reference hw, hgap, rfl⟩

/-! ### Terms -/

/-- How a sign is written. -/
def signChar : Sign → Char
  | .plus => '+'
  | .minus => '-'

/-- A text that is a term; `dollar` tells whether it starts with a dollar sign. -/
inductive TermWord : (dollar : Bool) → List Char → Term → Prop where
  /-- An operand alone. -/
  | plain {dollar : Bool} {w : List Char} {o : Operand} (h : OperandWord dollar w o) :
    TermWord dollar w ⟨o, none⟩
  /-- An operand with an adjustment. -/
  | adjusted {dollar : Bool} {w gap₁ gap₂ v : List Char} {o : Operand} {s : Sign} {i : Index}
    (h : OperandWord dollar w o) (hgap₁ : IsGap gap₁) (hgap₂ : IsGap gap₂) (hv : IndexWord v i) :
    TermWord dollar (w ++ (gap₁ ++ signChar s :: (gap₂ ++ v))) ⟨o, some ⟨s, i⟩⟩

/-- The characters that would go on with a term. -/
def termStops : List Char :=
  ['[', '.', '+', '-']

/-- The reader of an adjustment as steps. -/
theorem adjustment_eq (cs : List Char) :
    Reader.adjustment cs = (Reader.padded Reader.sign cs).bind fun r =>
      (Reader.padded Reader.index r.2).bind fun r' => some (⟨r.1, r'.1⟩, r'.2) :=
  rfl

/-- The reader of a term as steps. -/
theorem term_eq (cs : List Char) :
    Reader.term cs = (Reader.operand cs).bind fun r =>
      (Reader.optional Reader.adjustment r.2).bind fun r' => some (⟨r.1, r'.1⟩, r'.2) :=
  rfl

theorem sign_cons (s : Sign) (rest : List Char) :
    Reader.sign (signChar s :: rest) = some (s, rest) := by
  cases s <;> rfl

theorem isLayout_signChar (s : Sign) : Text.isLayout (signChar s) = false := by
  cases s <;> decide

/-- What is read as a sign is its character. -/
theorem sign_of_read {cs rest : List Char} {s : Sign} (h : Reader.sign cs = some (s, rest)) :
    cs = signChar s :: rest := by
  unfold Reader.sign at h
  split at h <;> cases h <;> rfl

theorem padded_sign_eq_none {cs : List Char}
    (h : ∀ s, (Text.skipLayout cs).head? ≠ some (signChar s)) :
    Reader.padded Reader.sign cs = none := by
  rw [padded_eq, Option.map_eq_none_iff, Option.eq_none_iff_forall_not_mem]
  rintro ⟨s, rest⟩ hread
  apply h s
  rw [sign_of_read hread]
  rfl

/-- Without a sign there is no adjustment. -/
theorem adjustment_eq_none {cs : List Char}
    (h : ∀ s, (Text.skipLayout cs).head? ≠ some (signChar s)) : Reader.adjustment cs = none := by
  rw [adjustment_eq, padded_sign_eq_none h]
  rfl

/-- An adjustment is read with the gaps around it. -/
theorem adjustment_append {gap₂ v tail : List Char} {i : Index} (s : Sign) (hgap₂ : IsGap gap₂)
    (hv : IndexWord v i) (htail : StopsName tail) {cs : List Char}
    (hcs : Text.skipLayout cs = signChar s :: (gap₂ ++ (v ++ tail))) :
    Reader.adjustment cs = some (⟨s, i⟩, Text.skipLayout tail) := by
  have hindex : Reader.padded Reader.index (Text.skipLayout (gap₂ ++ (v ++ tail))) =
      some (i, Text.skipLayout tail) := by
    rw [skipLayout_append hgap₂, hv.startsVisibly.skipLayout_append]
    exact padded_index_append isGap_nil hv htail
  rw [adjustment_eq, padded_eq, hcs, sign_cons, Option.map_some, Option.bind_some, hindex,
    Option.bind_some]

/-- A term is read up to its end. -/
theorem TermWord.read {dollar : Bool} {w tail : List Char} {t : Term} (h : TermWord dollar w t)
    (htail : Follows termStops tail) :
    ∃ rest, Reader.term (w ++ tail) = some (t, rest) ∧
      Text.skipLayout rest = Text.skipLayout tail := by
  cases h with
  | plain h =>
    obtain ⟨rest, hread, hrest⟩ := h.read (htail.mono (by simp [referenceStops, termStops]))
    refine ⟨rest, ?_, hrest⟩
    have hnone : Reader.adjustment rest = none := by
      refine adjustment_eq_none fun s hc => ?_
      rw [hrest] at hc
      exact htail.head?_skipLayout hc (by cases s <;> decide)
    rw [term_eq, hread, Option.bind_some, Reader.optional, hnone]
    rfl
  | @adjusted w gap₁ gap₂ v o s i h hgap₁ hgap₂ hv =>
    -- the operand ends before the sign, which no reference goes on with
    have hsign : Follows referenceStops (gap₁ ++ signChar s :: (gap₂ ++ (v ++ tail))) := by
      refine (follows_cons ?_ ?_ ?_ _).gap_append hgap₁ <;> cases s <;> decide
    obtain ⟨rest, hread, hrest⟩ := h.read hsign
    refine ⟨Text.skipLayout tail, ?_, skipLayout_skipLayout tail⟩
    rw [skipLayout_append hgap₁, skipLayout_cons (isLayout_signChar s)] at hrest
    have htext : w ++ (gap₁ ++ signChar s :: (gap₂ ++ v)) ++ tail =
        w ++ (gap₁ ++ signChar s :: (gap₂ ++ (v ++ tail))) := by
      simp
    have hadjustment := adjustment_append s hgap₂ hv htail.stopsName hrest
    rw [htext, term_eq, hread, Option.bind_some, Reader.optional, hadjustment]
    rfl

/-- What was read as a term is one, followed by a gap that may have been skipped. -/
theorem termWord_of_read {cs rest : List Char} {t : Term} (h : Reader.term cs = some (t, rest)) :
    ∃ dollar w gap, TermWord dollar w t ∧ IsGap gap ∧ cs = w ++ (gap ++ rest) := by
  rw [term_eq, Option.bind_eq_some_iff] at h
  obtain ⟨⟨o, rest₁⟩, hoperand, h⟩ := h
  obtain ⟨dollar, w, gap, hw, hgap, rfl⟩ := operandWord_of_read hoperand
  rw [Reader.optional] at h
  split at h
  · next a rest₂ hadjustment =>
    cases h
    simp only [adjustment_eq, Option.bind_eq_some_iff, Prod.exists, Option.some.injEq,
      Prod.mk.injEq] at hadjustment
    obtain ⟨s, rest₃, hsign, i, rest₄, hindex, rfl, rfl⟩ := hadjustment
    obtain ⟨gap₁, mid₁, gap₂, hgap₁, rfl, hgap₂, hread₁⟩ := exists_of_padded hsign
    obtain ⟨gap₃, mid₂, gap₄, hgap₃, rfl, hgap₄, hread₂⟩ := exists_of_padded hindex
    obtain rfl := sign_of_read hread₁
    obtain ⟨v, hv, rfl⟩ := indexWord_of_read hread₂
    refine ⟨dollar, _, gap₄, .adjusted hw (hgap.append hgap₁) (hgap₂.append hgap₃) hv, hgap₄, ?_⟩
    simp
  · cases h
    exact ⟨dollar, w, gap, .plain hw, hgap, rfl⟩

/-! ### Comparisons -/

/-- The first spelling that the text starts with is read. -/
theorem comparison_eq (cs : List Char) :
    Reader.comparison cs = Reader.comparisonSpellings.findSome? fun r =>
      if r.1.isPrefixOf cs then some (r.2, cs.drop r.1.length) else none := by
  rw [Reader.comparison]
  congr 1
  funext ⟨word, c⟩
  simp only [Reader.map, Reader.token]
  split <;> rfl

/-- What was read as a comparison is a spelling of it. -/
theorem spelling_of_read {cs rest : List Char} {c : Comparison}
    (h : Reader.comparison cs = some (c, rest)) :
    ∃ op, (op, c) ∈ Reader.comparisonSpellings ∧ cs = op ++ rest := by
  rw [comparison_eq] at h
  obtain ⟨⟨op, c'⟩, hmem, h⟩ := List.exists_of_findSome?_eq_some h
  dsimp only at h
  split at h
  · next hprefix =>
    cases h
    obtain ⟨rest, rfl⟩ := List.isPrefixOf_iff_prefix.1 hprefix
    exact ⟨op, hmem, by rw [List.drop_left]⟩
  · cases h

/-- A spelling is read up to its end, unless a longer one starts there. -/
theorem comparison_append {op : List Char} {c : Comparison}
    (hop : (op, c) ∈ Reader.comparisonSpellings) {tail : List Char}
    (htail : ∀ d, tail.head? = some d → d ≠ '=' ∧ d ≠ '>') :
    Reader.comparison (op ++ tail) = some (c, tail) := by
  -- `<` and `>` begin longer spellings, which stand earlier in the table
  have hall : ∀ r ∈ Reader.comparisonSpellings,
      Reader.comparison (r.1 ++ tail) = some (r.2, tail) := by
    simp only [comparison_eq]
    cases tail with
    | nil => decide
    | cons d tail =>
      obtain ⟨heq, hgt⟩ := htail d rfl
      simp [Reader.comparisonSpellings, heq.symm, hgt.symm]
  exact hall _ hop

end FiniteDomain
