import FiniteDomain.Proofs.Model.Validity

/-!
# Other constraints on the same variables

A model with its list of constraints replaced has the same unknowns with the same domains. It is
valid if nothing was wrong with the other declarations and nothing is wrong with the new
constraints.

## Main definitions

* `Model.withConstraints`: the model with another list of constraints.

## Main results

* `Model.isValid_withConstraints_iff`: when such a model is valid.
* `Network.build_withConstraints`: the network of such a model.
-/

namespace FiniteDomain

namespace Model

/-- The model with another list of constraints. -/
def withConstraints (m : Model) (cs : List ModelConstraint) : Model :=
  { m with constraints := cs }

variable (m : Model) (cs : List ModelConstraint)

theorem withConstraints_self : m.withConstraints m.constraints = m :=
  rfl

/-- A model is empty by its variables, whatever its constraints are. -/
theorem isEmpty_withConstraints : (m.withConstraints cs).isEmpty = m.isEmpty :=
  rfl

/-- What is found wrong with a constraint depends on the variables alone. -/
theorem constraintFindings_withConstraints (c : ModelConstraint) :
    (m.withConstraints cs).constraintFindings c = m.constraintFindings c := by
  cases c <;> rfl

/-- The findings on everything but the constraints. -/
def declarationFindings : List Finding :=
  m.nameFindings ++ m.sharedDomains.flatMap m.sharedDomainFindings ++
    m.vars.flatMap m.variableFindings ++ m.bundles.flatMap m.bundleFindings

variable {m cs}

/-- A model with other constraints is valid when nothing is wrong with the declarations that stay
and with the new constraints. -/
theorem isValid_withConstraints_iff :
    (m.withConstraints cs).validate.isValid = true ↔
      m.declarationFindings = [] ∧ ∀ c ∈ cs, m.constraintFindings c = [] := by
  have hfindings : (m.withConstraints cs).findings = m.declarationFindings ++
      cs.flatMap (m.withConstraints cs).constraintFindings := rfl
  rw [isValid_iff, hfindings, List.append_eq_nil_iff, List.flatMap_eq_nil_iff]
  simp only [constraintFindings_withConstraints]

end Model

namespace Network

variable (m : Model) (cs : List ModelConstraint)

/-- A constraint is added by the declarations of the model, whatever its other constraints are. -/
theorem addModelConstraint_withConstraints :
    addModelConstraint (m.withConstraints cs) = addModelConstraint m := by
  funext net c
  cases c <;> rfl

/-- The unknowns are declared as before, and then the new constraints are added. -/
theorem build_withConstraints :
    build (m.withConstraints cs) = (Builder.declareAll m).bind fun b =>
      cs.foldlM (addModelConstraint m) b.network := by
  rw [← addModelConstraint_withConstraints m cs]
  rfl

end Network

end FiniteDomain
