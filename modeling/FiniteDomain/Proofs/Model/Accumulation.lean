import FiniteDomain.Proofs.Model.Replacement

/-!
# How reports accumulate

A report lists each finding once. What is found wrong with a constraint depends on the variables and
bundles of the model, so that further constraints add findings at the end of the report and take
none away, and the order of the constraints decides the order of the findings only.

## Main results

* `Model.constraintFindings_congr`: what the findings on a constraint depend on.
* `Model.findings_validate_append`: the report with further constraints.
* `Model.mem_findings_validate_of_perm`: the findings with the constraints in another order.
* `Model.validate_accumulates`: all of this for one model.
-/

namespace FiniteDomain.Model

variable {m m' : Model}

/-- The findings on a reference depend on the variables and bundles only. -/
theorem referenceFindings_congr (hvars : m'.vars = m.vars) (hbundles : m'.bundles = m.bundles) :
    m'.referenceFindings = m.referenceFindings := by
  funext constraint r
  simp only [referenceFindings, fieldFindings, variableNamed?, bundle?, hvars, hbundles]

/-- The findings on a constraint depend on the variables and bundles only. -/
theorem constraintFindings_congr (hvars : m'.vars = m.vars) (hbundles : m'.bundles = m.bundles) :
    m'.constraintFindings = m.constraintFindings := by
  funext c
  cases c with
  | expression name text =>
    simp only [constraintFindings, referenceFindings_congr hvars hbundles]
  | allDifferent name text => simp only [constraintFindings, variableNamed?, hvars]

variable (m)

/-- The findings with other constraints are those on the declarations and those on each of them. -/
theorem findings_withConstraints (cs : List ModelConstraint) :
    (m.withConstraints cs).findings =
      m.declarationFindings ++ cs.flatMap m.constraintFindings := by
  have hsame : (m.withConstraints cs).constraintFindings = m.constraintFindings :=
    funext (m.constraintFindings_withConstraints cs)
  rw [← hsame]
  rfl

theorem mem_findings_validate {f : Finding} : f ∈ m.validate.findings ↔ f ∈ m.findings :=
  List.mem_eraseDups

/-- Further constraints add the findings on them that were not made before, each once. -/
theorem findings_validate_append (cs : List ModelConstraint) :
    (m.withConstraints (m.constraints ++ cs)).validate.findings =
      m.validate.findings ++
        ((cs.flatMap m.constraintFindings).filter (· ∉ m.validate.findings)).eraseDups := by
  have hfindings : (m.withConstraints (m.constraints ++ cs)).findings =
      m.findings ++ cs.flatMap m.constraintFindings := by
    rw [findings_withConstraints, List.flatMap_append, ← List.append_assoc]
    rfl
  show (m.withConstraints (m.constraints ++ cs)).findings.eraseDups = _
  rw [hfindings, List.eraseDups_append, List.removeAll]
  congr 2
  refine List.filter_congr fun f _ => ?_
  simp [mem_findings_validate]

/-- The order of the constraints does not matter for what is found. -/
theorem mem_findings_validate_of_perm {cs : List ModelConstraint} (hperm : cs.Perm m.constraints)
    (f : Finding) : f ∈ (m.withConstraints cs).validate.findings ↔ f ∈ m.validate.findings := by
  rw [mem_findings_validate, mem_findings_validate, findings_withConstraints]
  show f ∈ m.declarationFindings ++ _ ↔ f ∈ m.declarationFindings ++ _
  rw [List.mem_append, List.mem_append, (hperm.flatMap_right m.constraintFindings).mem_iff]

/-- Reports accumulate. No finding is listed twice. With one more constraint the report goes on with
the findings on it that are not listed yet, and these findings depend on the constraint and on the
variables and bundles of the model only. In another order the constraints give the same findings,
and so the same verdict. -/
theorem validate_accumulates :
    m.validate.findings.Nodup ∧
      (∀ c, (m.withConstraints (m.constraints ++ [c])).validate.findings =
        m.validate.findings ++
          ((m.constraintFindings c).filter (· ∉ m.validate.findings)).eraseDups) ∧
      (∀ m' : Model, m'.vars = m.vars → m'.bundles = m.bundles →
        ∀ c, m'.constraintFindings c = m.constraintFindings c) ∧
      ∀ cs, cs.Perm m.constraints →
        (∀ f, f ∈ (m.withConstraints cs).validate.findings ↔ f ∈ m.validate.findings) ∧
          (m.withConstraints cs).validate.isValid = m.validate.isValid := by
  refine ⟨nodup_eraseDups m.findings, ?_, ?_, ?_⟩
  · intro c
    rw [findings_validate_append, List.flatMap_singleton]
  · intro m' hvars hbundles c
    rw [constraintFindings_congr hvars hbundles]
  · intro cs hperm
    have hmem := m.mem_findings_validate_of_perm hperm
    refine ⟨hmem, ?_⟩
    -- a report without findings is one that has no member
    rw [Bool.eq_iff_iff, Report.isValid, Report.isValid, List.isEmpty_iff, List.isEmpty_iff,
      List.eq_nil_iff_forall_not_mem, List.eq_nil_iff_forall_not_mem]
    exact forall_congr' fun f => not_congr (hmem f)

/-- A model with an unknown that is missing and a target of the wrong kind. -/
def faultyModel : Model where
  name := "faulty"
  vars := [.singleton ⟨"x", "1..3"⟩]
  sharedDomains := []
  bundles := []
  tables := []
  constraints := [.expression "low" "y < x", .allDifferent "differ" "x"]

/-- A constraint on two missing unknowns adds one finding to those on `faultyModel`, whatever its
other constraints are, and the constraints in reverse have the same findings. -/
theorem validate_accumulates_faultyModel :
    (faultyModel.withConstraints
        (faultyModel.constraints ++ [.expression "low" "y = z"])).validate.findings =
      faultyModel.validate.findings ++ [.missingVariable "low" "z"] ∧
    (faultyModel.withConstraints []).constraintFindings (.expression "low" "y = z") =
      faultyModel.constraintFindings (.expression "low" "y = z") ∧
    faultyModel.constraints.reverse.Perm faultyModel.constraints ∧
    ∀ f, f ∈ (faultyModel.withConstraints faultyModel.constraints.reverse).validate.findings ↔
      f ∈ faultyModel.validate.findings := by
  obtain ⟨-, happend, hdepends, hperm⟩ := faultyModel.validate_accumulates
  have hreverse := List.reverse_perm faultyModel.constraints
  -- the finding on `y` is in the report already
  have hnew : ((faultyModel.constraintFindings (.expression "low" "y = z")).filter
      (· ∉ faultyModel.validate.findings)).eraseDups = [.missingVariable "low" "z"] := by
    decide +kernel
  refine ⟨?_, hdepends (faultyModel.withConstraints []) rfl rfl _, hreverse, (hperm _ hreverse).1⟩
  rw [happend, hnew]

end FiniteDomain.Model
