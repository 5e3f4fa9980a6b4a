import FiniteDomain.Proofs.Outcome
import FiniteDomain.Proofs.Search.Step
import FiniteDomain.Solution.Solve

/-!
# Names of constraints do not matter

Each constraint of a network carries the name of the constraint of the model that it comes from, to
be shown with it. Erasing the names goes along with every step of the construction, and a network
without names is searched and read back like the one with them. So two constructions that differ in
names only lead to the same answer.

## Main definitions

* `Network.anonymous`, `ModelConstraint.anonymous`: without names.
* `Network.answer`: what is answered once a network is built.

## Main results

* `Network.addModelConstraint_anonymous`: adding a constraint without its name.
* `Search.search_anonymous`: the search makes the same choices and the same counts.
* `Network.answer_anonymous`: the answer is the same.
-/

namespace FiniteDomain

/-- The constraint without its name. -/
def BinaryConstraint.anonymous (c : BinaryConstraint) : BinaryConstraint :=
  { c with name := "" }

/-- The constraint without its name. -/
def ModelConstraint.anonymous : ModelConstraint → ModelConstraint
  | .expression _ text => .expression "" text
  | .allDifferent _ text => .allDifferent "" text

/-- The effect without the name of the constraint that it adds. -/
def Effect.anonymous : Effect → Effect
  | .relate c => .relate c.anonymous
  | .prune unknown keep => .prune unknown keep
  | .nothing => .nothing
  | .contradiction => .contradiction

namespace Network

/-- The network without the names of its constraints. -/
def anonymous (net : Network) : Network :=
  { net with constraints := net.constraints.map BinaryConstraint.anonymous }

/-! ### Construction -/

theorem anonymous_addConstraint (net : Network) (c : BinaryConstraint) :
    (net.addConstraint c).anonymous = net.anonymous.addConstraint c.anonymous := by
  -- the new constraint gets the same number
  simp [anonymous, addConstraint, BinaryConstraint.anonymous]

/-- An effect without its name does to a network without names what it does with them. -/
theorem anonymous_apply (net : Network) (effect : Effect) :
    (net.apply effect).anonymous = net.anonymous.apply effect.anonymous := by
  cases effect with
  | relate c => exact net.anonymous_addConstraint c
  | prune | nothing | contradiction => rfl

/-- Sides are resolved by unknowns alone. -/
theorem side_anonymous (net : Network) (t : Term) : net.anonymous.side t = net.side t :=
  rfl

/-- The effect of a relation takes the name of the constraint along and depends on it in no other
way. -/
theorem effectOf_anonymous (net : Network) (name : String) (e : ConstraintExpr) :
    net.anonymous.effectOf "" e = (net.effectOf name e).map Effect.anonymous := by
  rw [effectOf, effectOf, side_anonymous, side_anonymous]
  -- the name is reached only where both sides are unknowns
  cases net.side e.left with
  | error error => rfl
  | ok left =>
    cases net.side e.right with
    | error error => rfl
    | ok right =>
      cases left with
      | unknown a offsetA dA =>
        cases right with
        | unknown b offsetB dB =>
          show (if a = b then _ else _ : Except SolveError Effect) =
            Except.map Effect.anonymous (if a = b then _ else _)
          split <;> rfl
        | literal value =>
          show (dA.literalKey value).bind _ = ((dA.literalKey value).bind _).map _
          cases dA.literalKey value <;> rfl
      | literal value =>
        cases right with
        | unknown b offsetB dB =>
          show (dB.literalKey value).bind _ = ((dB.literalKey value).bind _).map _
          cases dB.literalKey value <;> rfl
        | literal value' =>
          show (constantKey e value).bind _ = ((constantKey e value).bind _).map _
          cases constantKey e value with
          | error error => rfl
          | ok l =>
            show (constantKey e value').bind _ = ((constantKey e value').bind _).map _
            cases constantKey e value' with
            | error error => rfl
            | ok r =>
              show Except.ok (if e.comparison.holds l r then Effect.nothing else .contradiction) =
                .ok (Effect.anonymous (if e.comparison.holds l r then .nothing else .contradiction))
              split <;> rfl

/-- Whether a relation is accepted depends on no name of a constraint. -/
theorem addRelation_anonymous (name : String) (net : Network) (e : ConstraintExpr) :
    addRelation "" net.anonymous e = (addRelation name net e).map anonymous := by
  rw [addRelation, addRelation, effectOf_anonymous net name]
  cases net.effectOf name e with
  | error error => rfl
  | ok effect => exact congrArg Except.ok (net.anonymous_apply effect).symm

/-- An all-different constraint relates the same pairs under any name. -/
theorem addAllDifferent_anonymous (m : Model) (name target : String) (net : Network) :
    addAllDifferent m "" target net.anonymous =
      (addAllDifferent m name target net).map anonymous := by
  have hpairs (ps : List ((Nat × Nat) × (Nat × Nat))) (net : Network) :
      ps.foldl (fun net pair => net.addConstraint (differ "" target pair.1 pair.2))
          net.anonymous =
        (ps.foldl (fun net pair => net.addConstraint (differ name target pair.1 pair.2))
          net).anonymous := by
    -- one pair after the other, since each changes the network
    induction ps generalizing net with
    | nil => rfl
    | cons pair ps ih =>
      obtain ⟨left, right⟩ := pair
      have hfirst : net.anonymous.addConstraint (differ "" target left right) =
          (net.addConstraint (differ name target left right)).anonymous :=
        (net.anonymous_addConstraint (differ name target left right)).symm
      simp only [List.foldl_cons, hfirst]
      exact ih _
  have helements (a : Aggregate) :
      net.anonymous.elementNumbers target a = net.elementNumbers target a := rfl
  rw [addAllDifferent, addAllDifferent]
  cases m.aggregate? target with
  | none => rfl
  | some a =>
    dsimp only
    rw [helements]
    cases net.elementNumbers target a with
    | error error => rfl
    | ok elements => exact congrArg Except.ok (hpairs (pairs elements) net)

/-- Adding a constraint of a model without its name to a network without names. -/
theorem addModelConstraint_anonymous (m : Model) (net : Network) (c : ModelConstraint) :
    addModelConstraint m net.anonymous c.anonymous =
      (addModelConstraint m net c).map anonymous := by
  cases c with
  | expression name text =>
    show (relationsOf text).bind _ = ((relationsOf text).bind _).map _
    cases relationsOf text with
    | error error => rfl
    | ok relations =>
      exact foldlM_map_state (fun net e => addRelation_anonymous name net e) relations net
  | allDifferent name text => exact addAllDifferent_anonymous m name _ net

/-- Adding the constraints of a model without their names. -/
theorem foldlM_anonymous (m : Model) (cs : List ModelConstraint) (net : Network) :
    (cs.map ModelConstraint.anonymous).foldlM (addModelConstraint m) net.anonymous =
      (cs.foldlM (addModelConstraint m) net).map anonymous := by
  rw [List.foldlM_map]
  exact foldlM_map_state (addModelConstraint_anonymous m) cs net

end Network

/-! ### Search -/

namespace Search

variable {net : Network}

/-- A check depends on the ends of a constraint and on its comparison. -/
theorem verdict?_anonymous : verdict? net.anonymous = verdict? net := by
  funext unknown position a number
  have hget : net.anonymous.constraints[number]? =
      (net.constraints[number]?).map BinaryConstraint.anonymous := Array.getElem?_map ..
  rw [verdict?, verdict?, hget]
  cases net.constraints[number]? <;> rfl

/-- The search counts constraints by their numbers and never looks at a name. -/
theorem search_anonymous (limit : Option Nat) :
    search net.anonymous limit = search net limit := by
  refine search_congr ?_ ?_ ?_ verdict?_anonymous limit <;> rfl

end Search

/-! ### Answers -/

/-- The answer that a network is searched for. -/
def Network.answer (limit : Option Nat) (net : Network) : Except SolveError SolveResult := do
  let outcome ← Search.search net limit
  net.conclude outcome

/-- The answer of a network names no constraint. -/
theorem Network.answer_anonymous (limit : Option Nat) (net : Network) :
    net.anonymous.answer limit = net.answer limit := by
  rw [answer, answer, Search.search_anonymous]
  rfl

/-- A valid model without variables is answered at once, any other by its network. -/
theorem Model.solve_of_isValid {m : Model} (h : m.validate.isValid = true) (limit : Option Nat) :
    m.solve limit = if m.isEmpty then .ok ⟨.success, .empty, .zero, []⟩
      else Network.build m >>= Network.answer limit := by
  simp only [solve, h, Bool.not_true, Bool.false_eq_true, if_false]
  rfl

end FiniteDomain
