import FiniteDomain.Proofs.Template.Expansion

/-!
# Constraint expressions as text

A constraint expression is a relation, with or without a repeater clause. The reader tries
alternatives in a fixed order and leaves unread what an optional part cannot use. Nothing is lost by
this: the texts that it accepts are those of the grammar, with gaps around them, whose trees keep
the rules on counters.

## Main definitions

* `Comparison.spellings`: the ways to write a comparison.
* `ConstraintWord`: the form of a constraint expression.

## Main results

* `ConstraintWord.readTree`: a constraint expression between gaps is read as its tree.
* `exists_constraintWord`: what was read as a tree is a constraint expression between gaps.
* `ConstraintExpr.parse_eq_ok_iff_constraintWord`: the accepted texts and their trees.
-/

namespace FiniteDomain

/-! ### The grammar -/

/-- The ways to write a comparison. -/
def Comparison.spellings : Comparison → List (List Char)
  | eq => [['='], ['=', '=']]
  | ne => [['<', '>'], ['!', '='], ['≠']]
  | lt => [['<']]
  | le => [['<', '='], ['≤']]
  | gt => [['>']]
  | ge => [['>', '='], ['≥']]

/-- The reader's table lists each spelling with its comparison. -/
theorem mem_spellings_iff {op : List Char} {c : Comparison} :
    op ∈ c.spellings ↔ (op, c) ∈ Reader.comparisonSpellings := by
  cases c <;> simp [Comparison.spellings, Reader.comparisonSpellings, or_comm]

/-- A text that is a constraint expression. -/
inductive ConstraintWord : List Char → ConstraintExpr → Prop where
  /-- Two terms with a comparison between them. -/
  | relation {dollar dollar' : Bool} {left gap₁ op gap₂ right : List Char} {l r : Term}
    {c : Comparison} (hleft : TermWord dollar left l) (hgap₁ : IsGap gap₁) (hop : op ∈ c.spellings)
    (hgap₂ : IsGap gap₂) (hright : TermWord dollar' right r) :
    ConstraintWord (left ++ (gap₁ ++ (op ++ (gap₂ ++ right)))) ⟨l, c, r, none⟩
  /-- A relation before a repeater clause. -/
  | repeated {w gap v : List Char} {l r : Term} {c : Comparison} {counters : List Counter}
    (hw : ConstraintWord w ⟨l, c, r, none⟩) (hgap : IsGap gap) (hv : RepeaterWord v counters) :
    ConstraintWord (w ++ (gap ++ v)) ⟨l, c, r, some counters⟩

/-- The text of a relation after a gap, whatever clause the relation is to be repeated with. -/
theorem ConstraintWord.relationWord {gap w : List Char} {l r : Term} {c : Comparison}
    (h : ConstraintWord w ⟨l, c, r, none⟩) (hgap : IsGap gap) (repeater : Option (List Counter)) :
    ∃ dollars, RelationWord dollars (gap ++ w) ⟨l, c, r, repeater⟩ := by
  cases h with
  | @relation dollar dollar' left gap₁ op gap₂ right _ _ _ hleft hgap₁ hop hgap₂ hright =>
    exact ⟨(dollar, dollar'), gap, left, gap₁, op, gap₂, right, rfl, hgap, hgap₁, hgap₂, hleft,
      mem_spellings_iff.1 hop, hright⟩

theorem constraintWord_of_relationWord {dollars : Bool × Bool} {text : List Char}
    {e : ConstraintExpr} (h : RelationWord dollars text e) :
    ∃ gap w, IsGap gap ∧ ConstraintWord w ⟨e.left, e.comparison, e.right, none⟩ ∧
      text = gap ++ w := by
  obtain ⟨lead, left, gap₁, op, gap₂, right, rfl, hlead, hgap₁, hgap₂, hleft, hop, hright⟩ := h
  exact ⟨lead, _, hlead, .relation hleft hgap₁ (mem_spellings_iff.2 hop) hgap₂ hright, rfl⟩

/-! ### Reading -/

/-- A constraint expression between gaps is read as its tree. -/
theorem ConstraintWord.readTree {gap w gap' : List Char} {e : ConstraintExpr}
    (h : ConstraintWord w e) (hgap : IsGap gap) (hgap' : IsGap gap') :
    ConstraintExpr.readTree (gap ++ (w ++ gap')) = .ok e := by
  cases h with
  | relation hleft hgap₁ hop hgap₂ hright =>
    obtain ⟨dollars, hword⟩ :=
      (ConstraintWord.relation hleft hgap₁ hop hgap₂ hright).relationWord hgap none
    rw [← List.append_assoc gap]
    exact hword.readTree hgap'
  | @repeated w gap₁ v l r c counters hw hgap₁ hv =>
    obtain ⟨dollars, hword⟩ := hw.relationWord hgap none
    have htext : gap ++ (w ++ (gap₁ ++ v) ++ gap') = (gap ++ w) ++ (gap₁ ++ (v ++ gap')) := by
      simp
    obtain ⟨more, hbar⟩ := hv.exists_cons
    have hskip : Text.skipLayout (gap₁ ++ (v ++ gap')) = v ++ gap' := by
      rw [skipLayout_append hgap₁, hbar]
      exact skipLayout_cons (by decide) _
    -- the relation ends before the bar
    have htail : Follows termStops (gap₁ ++ (v ++ gap')) := by
      rw [hbar]
      exact (follows_cons (by decide) (by decide) (by decide) _).gap_append hgap₁
    have hend : Follows (',' :: rangeStops) gap' := by
      simpa using (follows_nil (',' :: rangeStops)).gap_append hgap'
    rw [htext]
    refine hword.readTree_append htail fun rest hrest => ⟨Text.skipLayout gap', ?_, ?_⟩
    · exact hv.read (hrest.trans hskip) hend _
    · rw [skipLayout_skipLayout, skipLayout_eq_nil_iff.2 hgap']

/-- Without a repeater clause nothing is read. -/
theorem eq_of_readRepeater {whole cs rest : List Char}
    (h : readRepeater whole cs = .ok (none, rest)) : cs = rest := by
  rw [readRepeater] at h
  split at h
  · exact (Prod.mk.inj (Except.ok.inj h)).2
  · split at h <;> cases h

/-- What was read as a tree is a constraint expression between gaps. -/
theorem exists_constraintWord {text : List Char} {tree : ConstraintExpr}
    (h : ConstraintExpr.readTree text = .ok tree) :
    ∃ gap w gap', IsGap gap ∧ ConstraintWord w tree ∧ IsGap gap' ∧ text = gap ++ (w ++ gap') := by
  obtain ⟨relation, gap₁, rest, rest', hrelation, hgap₁, htext, hclause, hrest'⟩ :=
    exists_relationWord h
  obtain ⟨gap, w, hgap, hw, rfl⟩ := constraintWord_of_relationWord hrelation
  obtain ⟨l, c, r, repeater⟩ := tree
  cases repeater with
  | none =>
    obtain rfl := eq_of_readRepeater hclause
    refine ⟨gap, w, gap₁ ++ rest, hgap, hw, hgap₁.append hrest', ?_⟩
    rw [htext, List.append_assoc]
  | some counters =>
    obtain ⟨gap₂, v, gap₃, hgap₂, hv, hgap₃, rfl⟩ := repeaterWord_of_read hclause
    refine ⟨gap, _, gap₃ ++ rest', hgap, .repeated hw (hgap₁.append hgap₂) hv,
      hgap₃.append hrest', ?_⟩
    rw [htext]
    simp

/-- A text is accepted with a tree exactly when it is, between gaps, a constraint expression with
this tree and the tree keeps the rules on counters. -/
theorem ConstraintExpr.parse_eq_ok_iff_constraintWord {text : String} {tree : ConstraintExpr} :
    ConstraintExpr.parse text = .ok tree ↔
      (∃ gap w gap', IsGap gap ∧ ConstraintWord w tree ∧ IsGap gap' ∧
        text.toList = gap ++ (w ++ gap')) ∧ Template.CountersDeclared tree := by
  rw [Template.parse_eq_ok_iff]
  refine and_congr_left fun _ => ⟨exists_constraintWord, ?_⟩
  rintro ⟨gap, w, gap', hgap, hw, hgap', htext⟩
  rw [htext]
  exact hw.readTree hgap hgap'

end FiniteDomain
