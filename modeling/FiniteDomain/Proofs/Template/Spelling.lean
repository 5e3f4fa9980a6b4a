import FiniteDomain.Proofs.Expression.Rendering
import FiniteDomain.Proofs.Model.Replacement
import FiniteDomain.Solution.Solve

/-!
# Texts of the same tree

A text is expanded by writing numbers into it, so what it expands to could depend on how it is
spelled. Gaps, leading zeros and the choice between spellings of a comparison or a range do not
matter. A dollar sign does, before a plain name that a counter also has: with the sign the name is
that of a variable, without it the counter's number is written. The tree does not tell the two
apart, and its written form has no dollar signs.

This is the only difference there is. The loops of an expansion depend on the clause alone, and the
instances at their tuples depend on the tree and on these dollar signs.

## Main definitions

* `Template.loops`: the tuples that an expansion runs through, or its error.
* `ConstraintExpr.SameDollars`: dollar signs that agree before the names of counters.
* `ConstraintExpr.ExpandsAlike`: dollar signs that make no difference to an expansion.
* `Interchangeable`: texts that can replace each other in every model.

## Main results

* `Template.expandText_eq_map_loops`: an expansion is the loops with an instance at each tuple.
* `Template.expandText_eq_iff`: when two texts of a tree have the same expansion.
* `interchangeable_of_expandText_eq`: texts with the same expansion can replace each other.
* `Template.expandText_spelling`: the texts of a tree, its written form among them.
-/

namespace FiniteDomain

open Template

/-! ### Dollar signs that matter -/

/-- The term is a plain name that one of the counters also has. -/
def Term.NamesCounter (counters : List Counter) (t : Term) : Prop :=
  ∃ c ∈ counters, t.operand = .reference (.singleton c.name)

instance (counters : List Counter) (t : Term) : Decidable (t.NamesCounter counters) :=
  inferInstanceAs (Decidable (∃ c ∈ counters, _))

/-- Two choices of dollar signs agree before each side that names a counter. -/
def ConstraintExpr.SameDollars (e : ConstraintExpr) (counters : List Counter) (d d' : Bool × Bool) :
    Prop :=
  (e.left.NamesCounter counters → d.1 = d'.1) ∧ (e.right.NamesCounter counters → d.2 = d'.2)

instance (e : ConstraintExpr) (counters : List Counter) (d d' : Bool × Bool) :
    Decidable (e.SameDollars counters d d') :=
  inferInstanceAs (Decidable (_ ∧ _))

/-- An instance keeps a dollar sign's choice visible exactly before the name of a counter. -/
theorem Term.instantiate_eq_iff {counters : List Counter} {b : Bindings}
    (hb : b.map Prod.fst = (counters.map Counter.name).reverse) (t : Term) (d d' : Bool) :
    t.instantiate b d = t.instantiate b d' ↔ (t.NamesCounter counters → d = d') := by
  have hbound : ∀ name, name ∈ b.map Prod.fst ↔ ∃ c ∈ counters, name = c.name := by
    intro name
    simp [hb, eq_comm]
  obtain ⟨operand, adjustment⟩ := t
  simp only [Term.instantiate, Term.mk.injEq, and_true, Term.NamesCounter]
  by_cases hname : ∃ name, operand = .reference (.singleton name)
  · obtain ⟨name, rfl⟩ := hname
    simp only [Operand.reference.injEq, Reference.singleton.injEq, ← hbound]
    -- only a bound name is replaced, and only without a dollar sign
    cases hlookup : b.lookup name with
    | none =>
      have hfree : name ∉ b.map Prod.fst := fun hmem => by
        obtain ⟨value, hvalue⟩ := exists_lookup hmem
        rw [hlookup] at hvalue
        cases hvalue
      simp [Operand.instantiate, hlookup, hfree]
    | some value =>
      have hmem : name ∈ b.map Prod.fst := by
        obtain ⟨before, after, rfl, -⟩ := List.lookup_eq_some_iff.1 hlookup
        simp
      cases d <;> cases d' <;> simp [Operand.instantiate, hlookup, hmem]
  · have hsame : operand.instantiate b d = operand.instantiate b d' := by
      cases operand with
      | literal l => rfl
      | reference r =>
        cases r with
        | singleton name => exact absurd ⟨name, rfl⟩ hname
        | element | field => rfl
    refine iff_of_true hsame ?_
    rintro ⟨c, -, rfl⟩
    exact absurd ⟨c.name, rfl⟩ hname

/-- So does an instance of a relation, on each side. -/
theorem ConstraintExpr.instantiate_eq_iff {counters : List Counter} {b : Bindings}
    (hb : b.map Prod.fst = (counters.map Counter.name).reverse) (e : ConstraintExpr)
    (d d' : Bool × Bool) :
    e.instantiate b d = e.instantiate b d' ↔ e.SameDollars counters d d' := by
  simp only [ConstraintExpr.instantiate, ConstraintExpr.mk.injEq, true_and, and_true,
    Term.instantiate_eq_iff hb, ConstraintExpr.SameDollars]

namespace Template

/-! ### Loops -/

/-- The bindings of the tuples in the order of the loops, or the error of the first bound that
leaves the word. -/
def loops : List Counter → Bindings → Except ParseError (List Bindings)
  | [], b => .ok [b]
  | c :: counters, b =>
    (lowValue b c).bind fun low => (boundValue b c.high).bind fun high =>
      forEach (fun value => loops counters ((c.name, value) :: b)) (rangeSize low high) low

theorem forEach_map {α β ε : Type} (f : α → β) (body : Int64 → Except ε (List α)) (count : Nat)
    (first : Int64) :
    forEach (fun value => (body value).map (List.map f)) count first =
      (forEach body count first).map (List.map f) := by
  induction count generalizing first with
  | zero => rfl
  | succ count ih =>
    rw [forEach, forEach, ih]
    cases body first with
    | error error => rfl
    | ok here =>
      cases forEach body count (first + 1) with
      | error error => rfl
      | ok later => exact congrArg Except.ok List.map_append.symm

/-- If the text for each tuple is read as a tree, then these trees are the expansion. -/
theorem expandCounters_eq_map_loops {template : List Char} {tree : Bindings → ConstraintExpr}
    {counters : List Counter} {b : Bindings}
    (hleaf : ∀ b' : Bindings,
      b'.map Prod.fst = (counters.map Counter.name).reverse ++ b.map Prod.fst →
      ConstraintExpr.parse (String.ofList (substitute b' none template)) = .ok (tree b')) :
    expandCounters template counters b = (loops counters b).map (List.map tree) := by
  induction counters generalizing b with
  | nil =>
    rw [expandCounters, hleaf b (by simp)]
    rfl
  | cons c counters ih =>
    have hrounds : ∀ value : Int64, expandCounters template counters ((c.name, value) :: b) =
        (loops counters ((c.name, value) :: b)).map (List.map tree) :=
      fun value => ih fun b' hb' => hleaf b' (by simpa using hb')
    simp only [expandCounters_cons, loops, hrounds, forEach_map]
    cases lowValue b c with
    | error error => rfl
    | ok low => cases boundValue b c.high <;> rfl

/-- An expansion is the loops with an instance of the tree at each tuple. -/
theorem expandText_eq_map_loops {text : String} {tree : ConstraintExpr} {counters : List Counter}
    (hparse : ConstraintExpr.parse text = .ok tree) (hrepeater : tree.repeater = some counters) :
    expandText text = (loops counters []).map
      (List.map fun b => tree.instantiate b (dollars text.toList)) := by
  have hword := relationWord_of_readTree (parse_eq_ok_iff.1 hparse).1 hrepeater
  have hexpand : expandText text = expandCounters (strip text.toList) counters [] := by
    simp [expandText, hparse, expand, hrepeater, bind, Except.bind]
  rw [hexpand]
  exact expandCounters_eq_map_loops fun b hb =>
    parse_substitute hword (forall_counterUses_of_parse hparse hrepeater hb)

end Template

/-! ### Expansions -/

/-- Two choices of dollar signs make no difference to what a tree expands to: the tree is not
repeated, the clause overflows or has no tuples, or the choices agree where it matters. -/
def ConstraintExpr.ExpandsAlike (e : ConstraintExpr) (d d' : Bool × Bool) : Prop :=
  ∀ counters, e.repeater = some counters →
    Overflows counters [] ∨ tuples counters [] = [] ∨ e.SameDollars counters d d'

/-- The instances at all tuples are the same exactly when there are none or the dollar signs agree.
-/
theorem ConstraintExpr.map_tuples_eq_iff {counters : List Counter} (e : ConstraintExpr)
    (d d' : Bool × Bool) :
    ((tuples counters []).map fun b => e.instantiate b d) =
        ((tuples counters []).map fun b => e.instantiate b d') ↔
      tuples counters [] = [] ∨ e.SameDollars counters d d' := by
  have hbound : ∀ b ∈ tuples counters [], b.map Prod.fst = (counters.map Counter.name).reverse :=
    fun b hb => by simpa using map_fst_of_mem_tuples hb
  rw [List.map_inj_left]
  constructor
  · intro h
    cases htuples : tuples counters [] with
    | nil => exact .inl rfl
    | cons b more =>
      have hb : b ∈ tuples counters [] := by simp [htuples]
      exact .inr ((e.instantiate_eq_iff (hbound b hb) d d').1 (h b hb))
  · rintro (hnone | hsame) b hb
    · simp [hnone] at hb
    · exact (e.instantiate_eq_iff (hbound b hb) d d').2 hsame

/-- Two texts of a tree have the same expansion exactly when their dollar signs make no difference.
-/
theorem Template.expandText_eq_iff {text text' : String} {tree : ConstraintExpr}
    (hparse : ConstraintExpr.parse text = .ok tree)
    (hparse' : ConstraintExpr.parse text' = .ok tree) :
    expandText text' = expandText text ↔
      tree.ExpandsAlike (dollars text'.toList) (dollars text.toList) := by
  cases hrepeater : tree.repeater with
  | none =>
    have hself : ∀ t, ConstraintExpr.parse t = .ok tree → expandText t = .ok [tree] := by
      intro t ht
      simp [expandText, ht, expand, hrepeater, bind, Except.bind]
    refine iff_of_true ((hself text' hparse').trans (hself text hparse).symm) ?_
    intro counters hcounters
    simp [hrepeater] at hcounters
  | some counters =>
    have hcondition : tree.ExpandsAlike (dollars text'.toList) (dollars text.toList) ↔
        Overflows counters [] ∨ tuples counters [] = [] ∨
          tree.SameDollars counters (dollars text'.toList) (dollars text.toList) := by
      simp [ConstraintExpr.ExpandsAlike, hrepeater]
    have hloops := expandText_eq_map_loops hparse hrepeater
    have hloops' := expandText_eq_map_loops hparse' hrepeater
    have houtcome := expandText_outcome hparse hrepeater
    have houtcome' := expandText_outcome hparse' hrepeater
    rw [hcondition]
    cases hresult : loops counters [] with
    | error error =>
      -- both texts meet the same bound first
      rw [hloops, hresult] at houtcome
      rw [hloops, hloops', hresult]
      exact iff_of_true rfl (.inl houtcome.1)
    | ok bs =>
      rw [hloops, hresult] at houtcome
      rw [hloops', hresult] at houtcome'
      obtain ⟨hfits, htrees⟩ := houtcome
      rw [hloops, hloops', hresult, or_iff_right hfits, ← tree.map_tuples_eq_iff]
      show Except.ok _ = Except.ok _ ↔ _
      rw [Except.ok.injEq, htrees, houtcome'.2]

/-! ### Written forms -/

/-- The dollar signs of a relation are found where its two sides start. -/
theorem RelationWord.dollars_append {d : Bool × Bool} {text tail : List Char} {e : ConstraintExpr}
    (h : RelationWord d text e) : dollars (text ++ tail) = d := by
  obtain ⟨lead, left, gap₁, op, gap₂, right, rfl, hlead, hgap₁, hgap₂, hleft, hop, hright⟩ := h
  obtain ⟨rest, hread, hrest⟩ := hleft.read (follows_spelling hgap₁ hop (gap₂ ++ (right ++ tail)))
  have hcomparison := padded_comparison_append hgap₁ hop hgap₂ hright hrest
  obtain ⟨a, as, rfl, hlayout, -, -, ha⟩ := hleft.exists_cons
  obtain ⟨b, bs, rfl, -, -, -, hb⟩ := hright.exists_cons
  have hstart : Text.skipLayout
      (lead ++ (a :: as ++ (gap₁ ++ (op ++ (gap₂ ++ b :: bs)))) ++ tail) =
        a :: as ++ (gap₁ ++ (op ++ (gap₂ ++ (b :: bs ++ tail)))) := by
    rw [List.append_assoc, skipLayout_append hlead]
    simpa using skipLayout_cons hlayout _
  have hside : rightSide (a :: as ++ (gap₁ ++ (op ++ (gap₂ ++ (b :: bs ++ tail))))) =
      b :: bs ++ tail := by
    simp only [rightSide, hread, hcomparison]
  rw [dollars, hstart, hside]
  exact Prod.ext ha hb

/-- A tree is written without dollar signs. -/
theorem ConstraintExpr.dollars_render {text : String} {tree : ConstraintExpr}
    (h : ConstraintExpr.parse text = .ok tree) : dollars tree.render.toList = (false, false) := by
  obtain ⟨_, _, _, _, hword, -⟩ := exists_relationWord (parse_eq_ok_iff.1 h).1
  obtain ⟨lead, left, gap₁, op, gap₂, right, -, -, -, -, hleft, -, hright⟩ := hword
  obtain ⟨l, c, r, repeater⟩ := tree
  have hrelation : RelationWord (false, false)
      (l.render.toList ++ ([' '] ++ (c.symbol.toList ++ ([' '] ++ r.render.toList))))
      ⟨l, c, r, repeater⟩ :=
    ⟨[], _, _, _, _, _, rfl, isGap_nil, isGap_space, isGap_space, hleft.render,
      mem_spellings_iff.1 (symbol_mem_spellings c), hright.render⟩
  obtain ⟨tail, htail⟩ : ∃ tail, (ConstraintExpr.mk l c r repeater).render.toList =
      l.render.toList ++ ([' '] ++ (c.symbol.toList ++ ([' '] ++ r.render.toList))) ++ tail := by
    cases repeater with
    | none => exact ⟨[], by simp [ConstraintExpr.render]⟩
    | some counters => exact ⟨(renderRepeater counters).toList, by simp [ConstraintExpr.render]⟩
  rw [htail]
  exact hrelation.dollars_append

/-! ### Models -/

/-- In every model, a constraint with the first text can be given the second one instead: the report
on the model, its network and its answer stay as they are. -/
def Interchangeable (text text' : String) : Prop :=
  ∀ (m : Model) (before after : List ModelConstraint) (name : String),
    m.constraints = before ++ .expression name text :: after →
      (m.withConstraints (before ++ .expression name text' :: after)).validate = m.validate ∧
      Network.build (m.withConstraints (before ++ .expression name text' :: after)) =
        Network.build m ∧
      ∀ limit, (m.withConstraints (before ++ .expression name text' :: after)).solve limit =
        m.solve limit

/-- Texts with the same expansion can replace each other. -/
theorem interchangeable_of_expandText_eq {text text' : String}
    (h : expandText text' = expandText text) : Interchangeable text text' := by
  intro m before after name hm
  -- validation and construction look at the text only through its expansion
  have hfindings : m.constraintFindings (.expression name text') =
      m.constraintFindings (.expression name text) := by
    rw [Model.constraintFindings, Model.constraintFindings, h]
  have hadd : ∀ net, Network.addModelConstraint m net (.expression name text') =
      Network.addModelConstraint m net (.expression name text) := by
    intro net
    rw [Network.addModelConstraint, Network.addModelConstraint, Network.relationsOf,
      Network.relationsOf, h]
  have hvalidate : (m.withConstraints (before ++ .expression name text' :: after)).validate =
      m.validate := by
    have hwith : ∀ cs, (m.withConstraints cs).findings =
        m.declarationFindings ++ cs.flatMap m.constraintFindings := by
      intro cs
      rw [← funext (m.constraintFindings_withConstraints cs)]
      rfl
    have hself : m.findings = m.declarationFindings ++ m.constraints.flatMap m.constraintFindings :=
      hwith m.constraints
    rw [Model.validate, Model.validate, hwith, hself, hm]
    simp [hfindings]
  have hbuild : Network.build (m.withConstraints (before ++ .expression name text' :: after)) =
      Network.build m := by
    have hself := Network.build_withConstraints m m.constraints
    rw [m.withConstraints_self, hm] at hself
    rw [Network.build_withConstraints, hself]
    simp only [List.foldlM_append, List.foldlM_cons, hadd]
  refine ⟨hvalidate, hbuild, fun limit => ?_⟩
  rw [Model.solve, Model.solve, hvalidate, hbuild, Model.isEmpty_withConstraints]

/-- A text that is accepted and another text of the same tree have the same expansion exactly when
their dollar signs make no difference, and then they can replace each other in every model. The same
holds of the text and the written form of its tree, which has no dollar signs, as long as the least
word is not an offset of a bound. -/
theorem Template.expandText_spelling {text : String} {tree : ConstraintExpr}
    (hparse : ConstraintExpr.parse text = .ok tree) :
    (∀ text', ConstraintExpr.parse text' = .ok tree →
      (expandText text' = expandText text ↔
        tree.ExpandsAlike (dollars text'.toList) (dollars text.toList)) ∧
      (tree.ExpandsAlike (dollars text'.toList) (dollars text.toList) →
        Interchangeable text text')) ∧
    ((∀ c ∈ tree.repeater.getD [], ∀ b ∈ c.bounds, b.offset ≠ Int64.minValue) →
      (expandText tree.render = expandText text ↔
        tree.ExpandsAlike (false, false) (dollars text.toList)) ∧
      (tree.ExpandsAlike (false, false) (dollars text.toList) →
        Interchangeable text tree.render)) := by
  have hspelling : ∀ text', ConstraintExpr.parse text' = .ok tree →
      (expandText text' = expandText text ↔
        tree.ExpandsAlike (dollars text'.toList) (dollars text.toList)) ∧
      (tree.ExpandsAlike (dollars text'.toList) (dollars text.toList) →
        Interchangeable text text') := by
    intro text' hparse'
    have hiff := expandText_eq_iff hparse hparse'
    exact ⟨hiff, fun h => interchangeable_of_expandText_eq (hiff.2 h)⟩
  refine ⟨hspelling, fun hleast => ?_⟩
  have hwritten := hspelling tree.render (parse_render_of_parse hparse hleast)
  rwa [ConstraintExpr.dollars_render hparse] at hwritten

/-- The counter of the clause is named on the left, and a variable on the right. -/
def echoText : String :=
  "i <= $y - i | i IN 1 range 2"

/-- Another spelling, without the dollar sign. -/
def echoText' : String :=
  "i≤y- i| i in 1 .. 02"

/-- The tree of both texts. -/
def echoTree : ConstraintExpr :=
  ⟨⟨.reference (.singleton "i"), none⟩, .le,
    ⟨.reference (.singleton "y"), some ⟨.minus, .counter "i"⟩⟩,
    some [⟨"i", some ⟨.literal 1, 0⟩, ⟨.literal 2, 0⟩⟩]⟩

/-- The dollar sign stands before a name that is not a counter, so it does not matter. -/
theorem Template.expandText_spelling_echoText :
    ConstraintExpr.parse echoText = .ok echoTree ∧ ConstraintExpr.parse echoText' = .ok echoTree ∧
      expandText echoText' = expandText echoText ∧
      echoTree.render = "i <= y - i | i in 1..2" ∧
      expandText echoTree.render = expandText echoText ∧
      Interchangeable echoText echoTree.render := by
  have hparse : ConstraintExpr.parse echoText = .ok echoTree := by decide +kernel
  have hparse' : ConstraintExpr.parse echoText' = .ok echoTree := by decide +kernel
  have hdollars : dollars echoText.toList = (false, true) := by decide +kernel
  have hdollars' : dollars echoText'.toList = (false, false) := by decide +kernel
  have hleast : ∀ c ∈ echoTree.repeater.getD [], ∀ b ∈ c.bounds, b.offset ≠ Int64.minValue := by
    decide +kernel
  have halike : echoTree.ExpandsAlike (false, false) (false, true) := by
    rintro counters ⟨⟩
    exact .inr (.inr (by decide))
  obtain ⟨hspelling, hwritten⟩ := expandText_spelling hparse
  refine ⟨hparse, hparse', (hspelling echoText' hparse').1.2 ?_, by decide +kernel,
    (hwritten hleast).1.2 ?_, (hwritten hleast).2 ?_⟩
  · rwa [hdollars, hdollars']
  · rwa [hdollars]
  · rwa [hdollars]

/-- The dollar sign keeps the name a variable's while the clause has a counter of the same name. -/
def maskedText : String :=
  "$i = 1 | i in 1..2"

/-- Its tree. -/
def maskedTree : ConstraintExpr :=
  ⟨⟨.reference (.singleton "i"), none⟩, .eq, ⟨.literal (.integer 1), none⟩,
    some [⟨"i", some ⟨.literal 1, 0⟩, ⟨.literal 2, 0⟩⟩]⟩

/-- A variable with the name of the counter. -/
def maskedModel (text : String) : Model where
  name := "masked"
  vars := [.singleton ⟨"i", "1..3"⟩]
  sharedDomains := []
  bundles := []
  tables := []
  constraints := [.expression "one" text]

/-- The written form is a text of the same tree and says something else: the numbers 1 and 2 are
compared with 1, and not the variable. -/
theorem Template.expandText_differs_maskedText :
    ConstraintExpr.parse maskedText = .ok maskedTree ∧
      maskedTree.render = "i = 1 | i in 1..2" ∧
      ConstraintExpr.parse maskedTree.render = .ok maskedTree ∧
      expandText maskedText ≠ expandText maskedTree.render ∧
      ((maskedModel maskedText).solve none).toOption.map SolveResult.status = some .success ∧
      ((maskedModel maskedTree.render).solve none).toOption.map SolveResult.status =
        some .fail := by
  refine ⟨?_, ?_, ?_, ?_, ?_, ?_⟩ <;> decide +kernel

end FiniteDomain
