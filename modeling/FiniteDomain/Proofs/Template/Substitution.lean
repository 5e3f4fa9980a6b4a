import FiniteDomain.Proofs.Expression.TermWord
import FiniteDomain.Template.Substitution

/-!
# Substitution into terms

Writing numbers for counters in the text of a term gives the text of the term with these numbers in
its tree. The substitution works on characters and knows nothing of the grammar, so this has to be
shown for each form: the scanner takes the words of the grammar for names exactly where they stand
for counters.

## Main definitions

* `Index.instantiate`, `Operand.instantiate`, `Term.instantiate`: numbers for counters in a tree.
* `Template.Opens`: a character before a text that a name in it does not belong to.

## Main results

* `Template.substitute_plain`, `Template.substitute_name`, `Template.substitute_quoted`: what the
  scanner does with the three kinds of characters.
* `TermWord.exists_substitute`: the text of a term becomes the text of its instance.
-/

namespace FiniteDomain

open Template

/-! ### Instances of trees -/

/-- A counter that is bound is replaced by its number. -/
def Index.instantiate (b : Bindings) : Index → Index
  | .literal value => .literal value
  | .counter name =>
    match b.lookup name with
    | some value => .literal value
    | none => .counter name

/-- Counters are replaced in the subscript. -/
def Reference.instantiate (b : Bindings) : Reference → Reference
  | .singleton name => .singleton name
  | .element aggregate i => .element aggregate (i.instantiate b)
  | .field bucket i name => .field bucket (i.instantiate b) name

/-- A plain name that is bound, and is not written with a dollar sign, becomes a number; in any
other reference the subscript is instantiated. -/
def Operand.instantiate (b : Bindings) (dollar : Bool) : Operand → Operand
  | .literal l => .literal l
  | .reference (.singleton name) =>
    match dollar, b.lookup name with
    | false, some value => .literal (.integer value)
    | _, _ => .reference (.singleton name)
  | .reference r => .reference (r.instantiate b)

/-- Counters are replaced in the operand and in the adjustment. -/
def Term.instantiate (b : Bindings) (dollar : Bool) (t : Term) : Term :=
  ⟨t.operand.instantiate b dollar, t.adjustment.map fun a => ⟨a.sign, a.amount.instantiate b⟩⟩

namespace Template

/-! ### The scanner -/

variable {b : Bindings}

/-- A character before a text that starts with a name: it does not go on with a name, nor does it
make the name a reference or a field. -/
def Opens (previous : Option Char) : Prop :=
  ∀ c, previous = some c → isNameChar c = false ∧ c ≠ '$' ∧ c ≠ '.'

/-- A name may start where the text starts. -/
theorem opens_none : Opens none := by
  intro c hc
  cases hc

theorem opens_some {c : Char} (hname : isNameChar c = false) (hdollar : c ≠ '$') (hdot : c ≠ '.') :
    Opens (some c) := by
  rintro _ ⟨⟩
  exact ⟨hname, hdollar, hdot⟩

/-- Layout ends a name, and none of its characters makes what follows a reference or a field. -/
theorem Opens.after_gap {previous : Option Char} (h : Opens previous) {gap : List Char}
    (hgap : IsGap gap) : Opens (gap.getLast?.or previous) := by
  cases hlast : gap.getLast? with
  | none => exact h
  | some c =>
    have hc := hgap c (List.mem_of_getLast? hlast)
    refine opens_some (isNameChar_of_isLayout hc) ?_ ?_
    · rintro rfl
      exact absurd hc (by decide)
    · rintro rfl
      exact absurd hc (by decide)

/-- The last character before a text is that of a word before it, if there is one. -/
theorem getLast?_cons_or (c : Char) (w : List Char) (previous : Option Char) :
    (c :: w).getLast?.or previous = w.getLast?.or (some c) := by
  rw [List.getLast?_cons]
  cases w.getLast? <;> rfl

/-- A name may start after a symbol with gaps around it. -/
theorem Opens.after_symbol {c : Char} (h : Opens (some c)) (gap : List Char) {gap' : List Char}
    (hgap' : IsGap gap') (previous : Option Char) :
    Opens ((gap ++ c :: gap').getLast?.or previous) := by
  rw [List.getLast?_append, getLast?_cons_or, Option.or_assoc]
  exact h.after_gap hgap'

/-- Characters that neither quote nor start names are copied. -/
def IsPlain (w : List Char) : Prop :=
  ∀ c ∈ w, isQuote c = false ∧ isNameStart c = false

/-- Plain texts can be put together. -/
theorem IsPlain.append {w w' : List Char} (h : IsPlain w) (h' : IsPlain w') :
    IsPlain (w ++ w') :=
  List.forall_mem_append.2 ⟨h, h'⟩

theorem isPlain_singleton {c : Char} (hquote : isQuote c = false) (hname : isNameStart c = false) :
    IsPlain [c] :=
  List.forall_mem_singleton.2 ⟨hquote, hname⟩

theorem isQuote_of_isLayout {c : Char} (h : Text.isLayout c = true) : isQuote c = false := by
  simp only [Text.isLayout, Bool.or_eq_true, beq_iff_eq] at h
  rcases h with ((rfl | rfl) | rfl) | rfl <;> decide

/-- What cannot stand inside a name cannot start one. -/
theorem not_isNameStart_of_not_isNameChar {c : Char} (h : isNameChar c = false) :
    isNameStart c = false := by
  rw [Bool.eq_false_iff] at h ⊢
  exact fun hstart => h (isNameChar_of_isNameStart hstart)

/-- Layout neither quotes nor starts a name. -/
theorem isPlain_of_isGap {gap : List Char} (h : IsGap gap) : IsPlain gap := by
  intro c hc
  exact ⟨isQuote_of_isLayout (h c hc),
    not_isNameStart_of_not_isNameChar (isNameChar_of_isLayout (h c hc))⟩

/-- A symbol with gaps around it is copied. -/
theorem isPlain_symbol {gap gap' : List Char} (hgap : IsGap gap) (hgap' : IsGap gap') {c : Char}
    (hquote : isQuote c = false) (hname : isNameStart c = false) : IsPlain (gap ++ c :: gap') :=
  (isPlain_of_isGap hgap).append
    ((isPlain_singleton hquote hname).append (isPlain_of_isGap hgap'))

theorem substitute_nil (previous : Option Char) : substitute b previous [] = [] := by
  rw [substitute]

/-- Plain characters are copied. -/
theorem substitute_plain {w : List Char} (h : IsPlain w) (previous : Option Char)
    (tail : List Char) :
    substitute b previous (w ++ tail) = w ++ substitute b (w.getLast?.or previous) tail := by
  induction w generalizing previous with
  | nil => rfl
  | cons c w ih =>
    obtain ⟨hc, hw⟩ := List.forall_mem_cons.1 h
    rw [List.cons_append, substitute, if_neg (by simp [hc.1]), if_neg (by simp [hc.2]), ih hw,
      getLast?_cons_or]
    rfl

/-- A name is replaced as a whole. -/
theorem substitute_name {n tail : List Char} (hn : NameWord n) {previous : Option Char}
    (hprevious : ∀ c, previous = some c → isNameChar c = false)
    (htail : StopsName tail) :
    substitute b previous (n ++ tail) =
      replacement b previous n tail ++ substitute b n.getLast? tail := by
  obtain ⟨c, rest, rfl, hc, hrest⟩ := hn
  have hquote : isQuote c = false := by
    rw [isQuote, Bool.or_eq_false_iff, beq_eq_false_iff_ne, beq_eq_false_iff_ne]
    exact ⟨ne_of_isNameStart hc (by decide), ne_of_isNameStart hc (by decide)⟩
  have hstart : (isNameStart c && !previous.any isNameChar) = true := by
    cases previous with
    | none => simp [hc]
    | some d => simp [hc, hprevious d rfl]
  rw [List.cons_append, substitute, if_neg (by simp [hquote]), if_pos hstart]
  simp only [takeWhile_append_stop hrest htail, dropWhile_append_stop hrest htail]

/-- A quoted text is copied. -/
theorem substitute_quoted {quote : Char} (hquote : isQuote quote = true) {w : List Char}
    (hw : ∀ c ∈ w, c ≠ quote) (previous : Option Char) (tail : List Char) :
    substitute b previous (quote :: (w ++ quote :: tail)) =
      quote :: (w ++ quote :: substitute b (some quote) tail) := by
  have hinside : ∀ c ∈ w, (c != quote) = true := by simpa using hw
  have hend : ∀ c, (quote :: tail).head? = some c → (c != quote) = false := by simp
  have hspan : spanQuoted quote (w ++ quote :: tail) = (w ++ [quote], tail) := by
    rw [spanQuoted, dropWhile_append_stop hinside hend, takeWhile_append_stop hinside hend]
  rw [substitute, if_pos hquote, hspan]
  simp

/-- A name before a bracket, after a dollar sign or after a dot stays. -/
theorem replacement_of_refers {previous : Option Char} {n tail : List Char}
    (h : previous = some '$' ∨ previous = some '.' ∨ (Text.trimStart tail).head? = some '[') :
    replacement b previous n tail = n := by
  have hrefers : (previous == some '$' || previous == some '.' ||
      (Text.trimStart tail).head? == some '[') = true := by
    rcases h with h | h | h <;> simp [h]
  rw [replacement]
  simp only [hrefers]
  cases b.lookup (String.ofList n) <;> rfl

/-- Any other name that is bound is written as its number. -/
theorem replacement_of_opens {previous : Option Char} {n tail : List Char}
    (hprevious : Opens previous) (htail : (Text.trimStart tail).head? ≠ some '[') :
    replacement b previous n tail =
      match b.lookup (String.ofList n) with
      | some value => (Decimal.ofInt64 value).toList
      | none => n := by
  have hdollar : previous ≠ some '$' := fun h => (hprevious '$' h).2.1 rfl
  have hdot : previous ≠ some '.' := fun h => (hprevious '.' h).2.2 rfl
  have hrefers : (previous == some '$' || previous == some '.' ||
      (Text.trimStart tail).head? == some '[') = false := by
    simp [hdollar, hdot, htail]
  rw [replacement]
  simp only [hrefers]
  rfl

end Template

/-! ### Words -/

section Words

variable {b : Bindings} {previous : Option Char} {tail : List Char}

/-- No name starts with a digit. -/
theorem isPlain_digits {ds : List Char} (h : ∀ d ∈ ds, d.isDigit = true) : IsPlain ds := by
  intro d hd
  have hdigit := h d hd
  constructor
  · rw [isQuote, Bool.or_eq_false_iff, beq_eq_false_iff_ne, beq_eq_false_iff_ne]
    constructor <;> rintro rfl <;> exact absurd hdigit (by decide)
  · rw [Bool.eq_false_iff]
    intro hstart
    rw [not_isDigit_of_isNameStart hstart] at hdigit
    cases hdigit

/-- Integers are copied as they are. -/
theorem IntegerWord.isPlain {w : List Char} {value : Int64} (h : IntegerWord w value) :
    IsPlain w := by
  cases h with
  | nonneg _ hds => exact isPlain_digits hds
  | neg _ hds =>
    exact (isPlain_singleton (by decide) (by decide)).append (isPlain_digits hds)

/-- An index becomes its instance. -/
theorem IndexWord.exists_substitute {w : List Char} {i : Index} (h : IndexWord w i)
    (hprevious : Opens previous) (htail : Follows ['['] tail) :
    ∃ w' q, IndexWord w' (i.instantiate b) ∧
      substitute b previous (w ++ tail) = w' ++ substitute b q tail := by
  cases h with
  | literal h => exact ⟨w, _, .literal h, substitute_plain h.isPlain previous tail⟩
  | counter h =>
    -- a counter before a bracket would be taken for the name of an aggregate
    have hbracket : (Text.trimStart tail).head? ≠ some '[' :=
      fun hc => htail.head?_trimStart hc List.mem_cons_self
    have hname := substitute_name (b := b) h (fun c hc => (hprevious c hc).1)
      htail.stopsName
    rw [replacement_of_opens hprevious hbracket] at hname
    rw [Index.instantiate]
    cases hlookup : b.lookup (String.ofList w) with
    | some value =>
      rw [hlookup] at hname
      exact ⟨_, _, .literal (integerWord_ofInt64 value), hname⟩
    | none =>
      rw [hlookup] at hname
      exact ⟨w, _, .counter h, hname⟩

/-- A subscript becomes that of the instance. -/
theorem SubscriptWord.exists_substitute {s : List Char} {i : Index} (h : SubscriptWord s i)
    (previous : Option Char) (tail : List Char) :
    ∃ s', SubscriptWord s' (i.instantiate b) ∧
      substitute b previous (s ++ tail) = s' ++ substitute b (some ']') tail := by
  obtain ⟨gap₁, gap₂, w, gap₃, hgap₁, hgap₂, hgap₃, hw, rfl⟩ := h
  have hbracket : IsPlain (gap₁ ++ '[' :: gap₂) :=
    isPlain_symbol hgap₁ hgap₂ (by decide) (by decide)
  have hopens : Opens ((gap₁ ++ '[' :: gap₂).getLast?.or previous) :=
    (opens_some (by decide) (by decide) (by decide)).after_symbol gap₁ hgap₂ previous
  have hclose : IsPlain (gap₃ ++ [']']) :=
    isPlain_symbol hgap₃ isGap_nil (by decide) (by decide)
  have hfollows : Follows ['['] (gap₃ ++ [']'] ++ tail) := by
    rw [List.append_assoc]
    exact (follows_cons (by decide) (by decide) (by decide) tail).gap_append hgap₃
  obtain ⟨w', q, hw', heq⟩ := hw.exists_substitute hopens hfollows
  refine ⟨_, ⟨gap₁, gap₂, w', gap₃, hgap₁, hgap₂, hgap₃, hw', rfl⟩, ?_⟩
  have htext : gap₁ ++ '[' :: (gap₂ ++ (w ++ (gap₃ ++ [']']))) ++ tail =
      (gap₁ ++ '[' :: gap₂) ++ (w ++ (gap₃ ++ [']'] ++ tail)) := by
    simp
  rw [htext, substitute_plain hbracket, heq, substitute_plain hclose]
  simp

/-- A name with a subscript stays. -/
theorem substitute_subscripted {n s : List Char} {i : Index} (hn : NameWord n)
    (hs : SubscriptWord s i) (hprevious : ∀ c, previous = some c → isNameChar c = false) :
    substitute b previous (n ++ (s ++ tail)) = n ++ substitute b n.getLast? (s ++ tail) := by
  have hbracket : (Text.trimStart (s ++ tail)).head? = some '[' := by
    obtain ⟨gap₁, gap₂, w, gap₃, hgap₁, -, -, -, rfl⟩ := hs
    rw [List.append_assoc, List.cons_append, Text.trimStart, List.dropWhile_append_of_pos
      fun c hc => Text.isLayout_isBlank (hgap₁ c hc)]
    rfl
  rw [substitute_name hn hprevious fun c => head?_append_of_subscript hs tail,
    replacement_of_refers (.inr (.inr hbracket))]

/-- A reference with a subscript becomes its instance. -/
theorem ReferenceWord.exists_substitute {w : List Char} {r : Reference} (h : ReferenceWord w r)
    (hr : ∀ name, r ≠ .singleton name) (hprevious : ∀ c, previous = some c → isNameChar c = false)
    (htail : StopsName tail) :
    ∃ w' q, ReferenceWord w' (r.instantiate b) ∧
      substitute b previous (w ++ tail) = w' ++ substitute b q tail := by
  cases h with
  | singleton => exact absurd rfl (hr _)
  -- the names stay even if a counter has the same name
  | @element n s i hn hs =>
    obtain ⟨s', hs', heq⟩ := hs.exists_substitute (b := b) n.getLast? tail
    refine ⟨n ++ s', some ']', .element hn hs', ?_⟩
    rw [List.append_assoc, substitute_subscripted hn hs hprevious, heq, List.append_assoc]
  | @field n s gap f i hn hs hgap hf =>
    obtain ⟨s', hs', heq⟩ :=
      hs.exists_substitute (b := b) n.getLast? ((gap ++ ['.']) ++ (f ++ tail))
    have hdot : IsPlain (gap ++ ['.']) := isPlain_symbol hgap isGap_nil (by decide) (by decide)
    have hlast : ∀ q : Option Char, (gap ++ ['.']).getLast?.or q = some '.' := by simp
    have hfield : substitute b (some '.') (f ++ tail) = f ++ substitute b f.getLast? tail := by
      rw [substitute_name hf (by rintro _ ⟨⟩; decide) htail,
        replacement_of_refers (.inr (.inl rfl))]
    refine ⟨n ++ (s' ++ (gap ++ '.' :: f)), f.getLast?, .field hn hs' hgap hf, ?_⟩
    have htext : n ++ (s ++ (gap ++ '.' :: f)) ++ tail =
        n ++ (s ++ ((gap ++ ['.']) ++ (f ++ tail))) := by
      simp
    rw [htext, substitute_subscripted hn hs hprevious, heq, substitute_plain hdot, hlast, hfield]
    simp

/-- A plain name becomes a number if it is bound and has no dollar sign. -/
theorem NameWord.exists_substitute {n : List Char} (hn : NameWord n) (dollar : Bool)
    (hprevious : Opens previous) (htail : Follows referenceStops tail) :
    ∃ w' q, OperandWord dollar w'
        (Operand.instantiate b dollar (.reference (.singleton (String.ofList n)))) ∧
      substitute b previous (mark dollar ++ n ++ tail) = w' ++ substitute b q tail := by
  cases dollar with
  | true =>
    -- the dollar sign makes the name a reference, which is copied
    have hdollar : IsPlain ['$'] := isPlain_singleton (by decide) (by decide)
    refine ⟨'$' :: n, n.getLast?, .reference (.singleton hn), ?_⟩
    have htext : mark true ++ n ++ tail = ['$'] ++ (n ++ tail) := by simp [mark]
    rw [htext, substitute_plain hdollar]
    show ['$'] ++ substitute b (some '$') (n ++ tail) = _
    rw [substitute_name hn (by rintro _ ⟨⟩; decide) htail.stopsName,
      replacement_of_refers (.inl rfl)]
    rfl
  | false =>
    -- without a bracket after it the name stands by itself
    have hbracket : (Text.trimStart tail).head? ≠ some '[' :=
      fun hc => htail.head?_trimStart hc (by decide)
    have hname := substitute_name (b := b) hn (fun c hc => (hprevious c hc).1)
      htail.stopsName
    rw [replacement_of_opens hprevious hbracket] at hname
    cases hlookup : b.lookup (String.ofList n) with
    | some value =>
      rw [hlookup] at hname
      refine ⟨_, _, ?_, hname⟩
      simpa [Operand.instantiate, hlookup] using OperandWord.integer (integerWord_ofInt64 value)
    | none =>
      rw [hlookup] at hname
      refine ⟨n, _, ?_, hname⟩
      have hword : OperandWord false n (.reference (.singleton (String.ofList n))) :=
        .reference (.singleton hn)
      simpa [Operand.instantiate, hlookup] using hword

/-- An operand becomes its instance. -/
theorem OperandWord.exists_substitute {dollar : Bool} {w : List Char} {o : Operand}
    (h : OperandWord dollar w o) (hprevious : Opens previous)
    (htail : Follows referenceStops tail) :
    ∃ w' q, OperandWord dollar w' (o.instantiate b dollar) ∧
      substitute b previous (w ++ tail) = w' ++ substitute b q tail := by
  cases h with
  | integer h => exact ⟨w, _, .integer h, substitute_plain h.isPlain previous tail⟩
  | @character c hc =>
    refine ⟨_, some '\'', .character hc, ?_⟩
    exact substitute_quoted (by decide) (List.forall_mem_singleton.2 hc) previous tail
  | @item w hw =>
    refine ⟨_, some '"', .item hw, ?_⟩
    have hquoted := substitute_quoted (b := b) (by decide) hw previous tail
    simpa using hquoted
  | @reference dollar w r h =>
    by_cases hr : ∃ name, r = .singleton name
    · obtain ⟨name, rfl⟩ := hr
      cases h with
      | singleton hn => exact hn.exists_substitute dollar hprevious htail
    · -- the name before a subscript is kept, so the mark is copied and only the index changes
      have hr' : ∀ name, r ≠ .singleton name := fun name heq => hr ⟨name, heq⟩
      have hinst : Operand.instantiate b dollar (.reference r) = .reference (r.instantiate b) := by
        cases r with
        | singleton name => exact absurd rfl (hr' name)
        | element | field => rfl
      have hmark : IsPlain (mark dollar) := by
        cases dollar with
        | true => exact isPlain_singleton (by decide) (by decide)
        | false => exact fun c hc => absurd hc List.not_mem_nil
      have hbefore : ∀ c, (mark dollar).getLast?.or previous = some c → isNameChar c = false := by
        cases dollar with
        | true => rintro _ ⟨⟩; decide
        | false => exact fun c hc => (hprevious c hc).1
      obtain ⟨w', q, hw', heq⟩ := h.exists_substitute (b := b) hr' hbefore
        htail.stopsName
      refine ⟨mark dollar ++ w', q, ?_, ?_⟩
      · rw [hinst]
        exact .reference hw'
      · rw [List.append_assoc, substitute_plain hmark, heq, List.append_assoc]

/-- A term becomes its instance. -/
theorem TermWord.exists_substitute {dollar : Bool} {w : List Char} {t : Term}
    (h : TermWord dollar w t) (hprevious : Opens previous) (htail : Follows termStops tail) :
    ∃ w' q, TermWord dollar w' (t.instantiate b dollar) ∧
      substitute b previous (w ++ tail) = w' ++ substitute b q tail := by
  cases h with
  | plain h =>
    obtain ⟨w', q, hw', heq⟩ := h.exists_substitute (b := b) hprevious
      (htail.mono (by simp [referenceStops, termStops]))
    exact ⟨w', q, .plain hw', heq⟩
  | @adjusted w gap₁ gap₂ v o s i h hgap₁ hgap₂ hv =>
    have hsign : IsPlain (gap₁ ++ signChar s :: gap₂) := by
      refine isPlain_symbol hgap₁ hgap₂ ?_ ?_ <;> cases s <;> decide
    -- the sign ends the operand, and the amount may start after it
    have hfollows : Follows referenceStops ((gap₁ ++ signChar s :: gap₂) ++ (v ++ tail)) := by
      rw [List.append_assoc, List.cons_append]
      refine (follows_cons ?_ ?_ ?_ _).gap_append hgap₁ <;> cases s <;> decide
    have hopens : Opens (some (signChar s)) := by
      refine opens_some ?_ ?_ ?_ <;> cases s <;> decide
    obtain ⟨w', q, hw', heq⟩ := h.exists_substitute (b := b) hprevious hfollows
    obtain ⟨v', q', hv', heq'⟩ := hv.exists_substitute (b := b)
      (hopens.after_symbol gap₁ hgap₂ q) (htail.mono (by simp [termStops]))
    refine ⟨_, q', .adjusted hw' hgap₁ hgap₂ hv', ?_⟩
    have htext : w ++ (gap₁ ++ signChar s :: (gap₂ ++ v)) ++ tail =
        w ++ ((gap₁ ++ signChar s :: gap₂) ++ (v ++ tail)) := by
      simp
    rw [htext, heq, substitute_plain hsign, heq']
    simp

end Words

end FiniteDomain
