import FiniteDomain.Proofs.Expression.Rendering
import FiniteDomain.Proofs.Model.Replacement
import FiniteDomain.Proofs.Network.Anonymous

/-!
# Templates and what they stand for

A template can be replaced, at its place in a model, by one constraint for each tree that it expands
to, written out under any name. The model stays valid, or not valid, as it was; and a valid one is
solved with the same answer or the same error, down to the counts of the search.

The two constructions add the same relations in the same order. They differ in names, which
`Network.anonymous` erases.

## Main definitions

* `WritesOut`: constraints that are the trees of a list, written out.

## Main results

* `Model.constraintFindings_writtenOut`: nothing is wrong with a template exactly when nothing is
  wrong with any of its trees.
* `Network.build_writtenOut`: the networks are the same but for names.
* `Model.solve_writtenOut`: validity and answer stay.
-/

namespace FiniteDomain

/-- Constraints that are the given trees in order, each written out under some name. -/
def WritesOut (written : List ModelConstraint) (trees : List ConstraintExpr) : Prop :=
  List.Forall₂ (fun c tree => ∃ name, c = .expression name tree.render) written trees

/-! ### Validity -/

namespace Model

variable {m : Model}

theorem subscriptFindings_eq_nil_congr (name name' unknown : String) (size : UInt64) (i : Index) :
    subscriptFindings name unknown size i = [] ↔ subscriptFindings name' unknown size i = [] := by
  cases i with
  | counter => rfl
  | literal k =>
    rw [subscriptFindings, subscriptFindings]
    split <;> simp

theorem fieldFindings_eq_nil_congr (name name' : String) (b : Bucket) (field : String) :
    m.fieldFindings name b field = [] ↔ m.fieldFindings name' b field = [] := by
  rw [fieldFindings, fieldFindings]
  cases m.bundle? b.bundle with
  | none => rfl
  | some bundle =>
    dsimp only
    split <;> simp

/-- Whether there is a finding on a reference does not depend on the constraint's name. -/
theorem referenceFindings_eq_nil_congr (name name' : String) (r : Reference) :
    m.referenceFindings name r = [] ↔ m.referenceFindings name' r = [] := by
  rw [referenceFindings, referenceFindings]
  cases m.variableNamed? r.name with
  | none => simp
  | some v =>
    cases r with
    | singleton => cases v <;> simp
    | element unknown i =>
      cases v with
      | aggregate a => exact subscriptFindings_eq_nil_congr name name' unknown _ i
      | singleton | bucket => simp
    | field unknown i field =>
      cases v with
      | bucket b =>
        simp only [List.append_eq_nil_iff]
        exact and_congr (subscriptFindings_eq_nil_congr name name' unknown b.size i)
          (fieldFindings_eq_nil_congr name name' b field)
      | singleton | aggregate => simp

/-- Nothing is wrong with an expression exactly when nothing is wrong with the references of its
trees, under whatever name they are looked at. -/
theorem constraintFindings_eq_nil_iff {name text : String} {trees : List ConstraintExpr}
    (h : Template.expandText text = .ok trees) (name' : String) :
    m.constraintFindings (.expression name text) = [] ↔
      ∀ tree ∈ trees, ∀ r ∈ tree.references, m.referenceFindings name' r = [] := by
  rw [constraintFindings, h]
  simp only [List.flatMap_eq_nil_iff, referenceFindings_eq_nil_congr name name']

/-- Nothing is wrong with a template exactly when nothing is wrong with what it stands for. -/
theorem constraintFindings_writtenOut (name : String) {text : String}
    {trees : List ConstraintExpr} (h : Template.expandText text = .ok trees)
    {written : List ModelConstraint} (hwritten : WritesOut written trees) :
    (∀ c ∈ written, m.constraintFindings c = []) ↔
      m.constraintFindings (.expression name text) = [] := by
  have hself : ∀ tree ∈ trees, Template.expandText tree.render = .ok [tree] :=
    fun _ htree => expandText_render h htree
  rw [constraintFindings_eq_nil_iff h name]
  clear h
  induction hwritten with
  | nil => simp
  | @cons c tree written trees hc hwritten ih =>
    obtain ⟨name', rfl⟩ := hc
    obtain ⟨htree, htrees⟩ := List.forall_mem_cons.1 hself
    rw [List.forall_mem_cons, List.forall_mem_cons, constraintFindings_eq_nil_iff htree name,
      List.forall_mem_singleton]
    exact and_congr_right fun _ => ih htrees

end Model

/-! ### Construction -/

namespace Network

variable {m : Model}

theorem relationsOf_eq_ok {text : String} {trees : List ConstraintExpr}
    (h : Template.expandText text = .ok trees) : relationsOf text = .ok trees := by
  rw [relationsOf, h]
  rfl

/-- Adding trees that are written out adds their relations one by one. -/
theorem foldlM_writtenOut {written : List ModelConstraint} {trees : List ConstraintExpr}
    (hself : ∀ tree ∈ trees, Template.expandText tree.render = .ok [tree])
    (hwritten : WritesOut written trees) (net : Network) :
    (written.map ModelConstraint.anonymous).foldlM (addModelConstraint m) net =
      trees.foldlM (addRelation "") net := by
  induction hwritten generalizing net with
  | nil => rfl
  | @cons c tree written trees hc hwritten ih =>
    obtain ⟨name, rfl⟩ := hc
    obtain ⟨htree, htrees⟩ := List.forall_mem_cons.1 hself
    have hfirst : addModelConstraint m net (.expression "" tree.render) =
        addRelation "" net tree := by
      rw [addModelConstraint, relationsOf_eq_ok htree]
      show [tree].foldlM (addRelation "") net = _
      rw [List.foldlM_cons]
      exact bind_pure _
    rw [List.map_cons, List.foldlM_cons, List.foldlM_cons, ModelConstraint.anonymous, hfirst]
    exact bind_congr fun net' => ih htrees net'

/-- A template and what it stands for lead to the same network, but for names. -/
theorem build_writtenOut (name : String) {before after written : List ModelConstraint}
    {text : String} {trees : List ConstraintExpr} (h : Template.expandText text = .ok trees)
    (hwritten : WritesOut written trees) :
    (build (m.withConstraints (before ++ (written ++ after)))).map anonymous =
      (build (m.withConstraints (before ++ .expression name text :: after))).map anonymous := by
  rw [build_withConstraints, build_withConstraints]
  cases Builder.declareAll m with
  | error error => rfl
  | ok b =>
    show ((before ++ (written ++ after)).foldlM (addModelConstraint m) b.network).map anonymous =
      ((before ++ .expression name text :: after).foldlM (addModelConstraint m) b.network).map
        anonymous
    -- up to the template and after it the constraints are the same
    rw [← foldlM_anonymous, ← foldlM_anonymous, List.map_append, List.map_append, List.map_append,
      List.map_cons, List.foldlM_append, List.foldlM_append]
    refine bind_congr fun net => ?_
    have htemplate : addModelConstraint m net (ModelConstraint.expression name text).anonymous =
        trees.foldlM (addRelation "") net := by
      rw [ModelConstraint.anonymous, addModelConstraint, relationsOf_eq_ok h]
      rfl
    rw [List.foldlM_append, List.foldlM_cons, htemplate,
      foldlM_writtenOut (fun tree htree => expandText_render h htree) hwritten]

end Network

/-! ### Solving -/

/-- Models whose networks are the same but for names are given the same answer. -/
theorem Network.bind_answer_anonymous (limit : Option Nat) (x : Except SolveError Network) :
    x.map Network.anonymous >>= Network.answer limit = x >>= Network.answer limit := by
  cases x with
  | error error => rfl
  | ok net => exact net.answer_anonymous limit

/-- An expression constraint of a model, replaced at its place by the trees that it expands to,
written out under any names, leaves the model valid or not as it was. A valid model is solved as
before, within every limit: with the same status, snapshot and statistics, or the same error. -/
theorem Model.solve_writtenOut {m : Model} {before after written : List ModelConstraint}
    {name text : String} {trees : List ConstraintExpr}
    (hm : m.constraints = before ++ .expression name text :: after)
    (hexpand : Template.expandText text = .ok trees) (hwritten : WritesOut written trees) :
    (m.withConstraints (before ++ (written ++ after))).validate.isValid = m.validate.isValid ∧
      (m.validate.isValid = true → ∀ limit,
        (m.withConstraints (before ++ (written ++ after))).solve limit = m.solve limit) := by
  have hsame : m = m.withConstraints (before ++ .expression name text :: after) := by
    rw [← hm, withConstraints_self]
  have hvalid : (m.withConstraints (before ++ (written ++ after))).validate.isValid =
      m.validate.isValid := by
    rw [hsame, Bool.eq_iff_iff]
    -- validity is that of the declarations and of each constraint by itself
    show (m.withConstraints (before ++ (written ++ after))).validate.isValid = true ↔ _
    rw [isValid_withConstraints_iff, isValid_withConstraints_iff]
    simp only [List.forall_mem_append, List.forall_mem_cons,
      constraintFindings_writtenOut name hexpand hwritten]
  refine ⟨hvalid, fun h limit => ?_⟩
  rw [solve_of_isValid (hvalid.trans h), solve_of_isValid h, isEmpty_withConstraints]
  split
  case isTrue => rfl
  case isFalse =>
    -- networks that differ in names of constraints answer alike
    rw [← Network.bind_answer_anonymous limit, Network.build_writtenOut name hexpand hwritten,
      Network.bind_answer_anonymous, ← hsame]

/-- Three different heights, of which the first is not the least and the last exceeds each of the
others by more than its place. -/
def stairModel : Model where
  name := "stairs"
  vars := [.aggregate ⟨"h", "1..5", [⟨"h1", none⟩, ⟨"h2", none⟩, ⟨"h3", none⟩]⟩]
  sharedDomains := []
  bundles := []
  tables := []
  constraints := [.allDifferent "differ" "h", .expression "below" "h[i] + i < $h[ 3 ] | i in 2",
    .expression "start" "h[1] <> 1"]

/-- What the template of `stairModel` stands for. -/
def stairTrees : List ConstraintExpr :=
  [⟨⟨.reference (.element "h" (.literal 1)), some ⟨.plus, .literal 1⟩⟩, .lt,
      ⟨.reference (.element "h" (.literal 3)), none⟩, none⟩,
    ⟨⟨.reference (.element "h" (.literal 2)), some ⟨.plus, .literal 2⟩⟩, .lt,
      ⟨.reference (.element "h" (.literal 3)), none⟩, none⟩]

/-- The template of `stairModel` is written out between its other constraints. -/
theorem Model.solve_writtenOut_stairModel :
    Template.expandText "h[i] + i < $h[ 3 ] | i in 2" = .ok stairTrees ∧
      stairModel.validate.isValid = true ∧
      (stairModel.withConstraints [.allDifferent "differ" "h",
        .expression "one" "h[1] + 1 < h[3]", .expression "" "h[2] + 2 < h[3]",
        .expression "start" "h[1] <> 1"]).solve (some 9) = stairModel.solve (some 9) := by
  have hexpand : Template.expandText "h[i] + i < $h[ 3 ] | i in 2" = .ok stairTrees := by
    decide +kernel
  have hvalid : stairModel.validate.isValid = true := by decide +kernel
  have hwritten : WritesOut [.expression "one" "h[1] + 1 < h[3]", .expression "" "h[2] + 2 < h[3]"]
      stairTrees :=
    .cons ⟨"one", by decide +kernel⟩ (.cons ⟨"", by decide +kernel⟩ .nil)
  have hplace : stairModel.constraints = [.allDifferent "differ" "h"] ++
      .expression "below" "h[i] + i < $h[ 3 ] | i in 2" :: [.expression "start" "h[1] <> 1"] := rfl
  exact ⟨hexpand, hvalid, (Model.solve_writtenOut hplace hexpand hwritten).2 hvalid (some 9)⟩

end FiniteDomain
