import FiniteDomain.Model.Basic
import FiniteDomain.Model.Finding
import FiniteDomain.Template.Expansion

/-!
# Validating models

Validation looks at every declaration of a model on its own and lists all findings: repeated names,
then shared domains, variables, fields of bundles, and constraints, each group in order of
declaration. A finding that is made again is listed once, at its first place.

* `Model.validate`: the report on a model.
* `Model.constraintFindings`: the findings on one constraint.
-/

namespace FiniteDomain.Model

variable (m : Model)

/-- Names that are declared again: of variables, shared domains and bundles. -/
def nameFindings : List Finding :=
  (repetitions (m.vars.map Variable.name) ++
    repetitions (m.sharedDomains.map SharedDomain.name) ++
    repetitions (m.bundles.map Bundle.name)).map .duplicateName

/-- The finding on an expression that was read, if it cannot be evaluated. -/
def evaluationFindings (subject : String) (tree : DomainExpr) : List Finding :=
  match Domain.evaluate m.context tree with
  | .ok _ => []
  | .error error => [.domain subject error]

/-- The findings on a shared domain. -/
def sharedDomainFindings (d : SharedDomain) : List Finding :=
  match DomainExpr.parse d.expression with
  | .error error => [.parse d.name error]
  | .ok (.shared _) => [.domain d.name (.nestedShared d.name)]
  | .ok tree => m.evaluationFindings d.name tree

/-- The findings on the domain expression of `subject`. A shared domain only has to exist: its own
expression is looked at where it is declared. -/
def domainFindings (subject text : String) : List Finding :=
  match DomainExpr.parse text with
  | .error error => [.parse subject error]
  | .ok (.shared name) =>
    if (m.sharedDomain? name).isSome then [] else [.missingSharedDomain subject name]
  | .ok tree => m.evaluationFindings subject tree

/-- The findings on the override of an element. -/
def overrideFindings (e : Element) : List Finding :=
  match e.domainOverride with
  | none => []
  | some text => m.domainFindings e.name text

/-- The findings on a variable. -/
def variableFindings : Variable → List Finding
  | .singleton v => m.domainFindings v.name v.domain
  | .aggregate v => m.domainFindings v.name v.domain ++ v.elements.flatMap m.overrideFindings
  | .bucket v => if (m.bundle? v.bundle).isSome then [] else [.missingBundle v.name v.bundle]

/-- The findings on the fields of a bundle. -/
def bundleFindings (b : Bundle) : List Finding :=
  b.singletons.flatMap fun s => m.domainFindings (b.name ++ "." ++ s.name) s.domain

/-- The finding on a subscript of a variable of the given size, if it lies outside. -/
def subscriptFindings (constraint unknown : String) (size : UInt64) : Index → List Finding
  | .literal i =>
    if i < 1 ∨ size.toInt64 < i then [.subscriptOutOfRange constraint unknown i size] else []
  | .counter _ => []

/-- The finding on a field of a bucket whose bundle exists, if the bundle does not have the field.
-/
def fieldFindings (constraint : String) (b : Bucket) (field : String) : List Finding :=
  match m.bundle? b.bundle with
  | none => []
  | some bundle =>
    if (bundle.field? field).isSome then [] else [.missingField constraint b.name field]

/-- The findings on a reference in a constraint. -/
def referenceFindings (constraint : String) (r : Reference) : List Finding :=
  match m.variableNamed? r.name with
  | none => [.missingVariable constraint r.name]
  | some v =>
    match r, v with
    | .singleton _, .singleton _ => []
    | .singleton name, _ => [.wrongKind constraint name Kind.singleton.text]
    | .element name i, .aggregate a =>
      subscriptFindings constraint name (UInt64.ofNat a.size) i
    | .element name _, _ => [.wrongKind constraint name Kind.aggregate.text]
    | .field name i field, .bucket b =>
      subscriptFindings constraint name b.size i ++ m.fieldFindings constraint b field
    | .field name _ _, _ => [.wrongKind constraint name Kind.bucket.text]

/-- The findings on a constraint. -/
def constraintFindings : ModelConstraint → List Finding
  | .expression name text =>
    match Template.expandText text with
    | .error error => [.parse name error]
    | .ok trees =>
      trees.flatMap fun tree => tree.references.flatMap (m.referenceFindings name)
  | .allDifferent name text =>
    match m.variableNamed? (allDifferentTarget text) with
    | none => [.missingVariable name (allDifferentTarget text)]
    | some (.aggregate _) => []
    | some _ => [.notAnAggregate (allDifferentTarget text)]

/-- All findings on a model, repetitions included. -/
def findings : List Finding :=
  m.nameFindings ++ m.sharedDomains.flatMap m.sharedDomainFindings ++
    m.vars.flatMap m.variableFindings ++ m.bundles.flatMap m.bundleFindings ++
    m.constraints.flatMap m.constraintFindings

/-- The report on a model: every finding once, in the order of first occurrence. -/
def validate : Report :=
  ⟨m.findings.eraseDups⟩

end FiniteDomain.Model
