import FiniteDomain.Domain.Evaluation
import FiniteDomain.Model.Variable

/-!
# Models

A model declares variables, shared domains, bundles, tables and constraints. All expressions are
kept as texts until the model is validated or solved. Look-ups by name find the first declaration.

* `Model.context`: the model as the context of its domain expressions.
-/

namespace FiniteDomain

/-- A domain expression with a name, referred to as `$name`. -/
structure SharedDomain where
  /-- The name without the dollar sign. -/
  name : String
  /-- The domain expression. -/
  expression : String
  deriving DecidableEq

/-- A constraint of a model. -/
inductive ModelConstraint where
  /-- A constraint expression, possibly a template. -/
  | expression (name expression : String)
  /-- The elements of an aggregate, optionally written with a dollar sign, take different values. -/
  | allDifferent (name aggregate : String)
  deriving DecidableEq

namespace ModelConstraint

/-- The constraint's name. -/
def name : ModelConstraint → String
  | expression name _ => name
  | allDifferent name _ => name

/-- The text that the constraint was declared with. -/
def text : ModelConstraint → String
  | expression _ text => text
  | allDifferent _ text => text

end ModelConstraint

/-- A text without its leading dollar sign, if it has one. -/
def dropDollar (s : String) : String :=
  match s.toList with
  | '$' :: rest => String.ofList rest
  | _ => s

/-- The name of the aggregate that an all-different constraint is on. -/
def allDifferentTarget (aggregate : String) : String :=
  dropDollar (Text.trim aggregate)

/-- A constraint satisfaction model. -/
structure Model where
  /-- The model's name. -/
  name : String
  /-- The variables in order of declaration. -/
  vars : List Variable
  /-- The shared domains in order of declaration. -/
  sharedDomains : List SharedDomain
  /-- The bundles in order of declaration. -/
  bundles : List Bundle
  /-- The tables in order of declaration. -/
  tables : List Table
  /-- The constraints in order of declaration. -/
  constraints : List ModelConstraint
  deriving DecidableEq

namespace Model

/-- A model that declares nothing. -/
def new (name : String) : Model :=
  ⟨name, [], [], [], [], []⟩

/-- A model without variables. -/
def isEmpty (m : Model) : Bool :=
  m.vars.isEmpty

/-- The first variable of a name. -/
def variableNamed? (m : Model) (name : String) : Option Variable :=
  m.vars.find? fun v => v.name == name

/-- The first shared domain of a name. -/
def sharedDomain? (m : Model) (name : String) : Option SharedDomain :=
  m.sharedDomains.find? fun d => d.name == name

/-- The first bundle of a name. -/
def bundle? (m : Model) (name : String) : Option Bundle :=
  m.bundles.find? fun b => b.name == name

/-- The first table of a name. -/
def table? (m : Model) (name : String) : Option Table :=
  m.tables.find? fun t => t.name == name

/-- The first variable of a name, if it is a bucket. -/
def bucket? (m : Model) (name : String) : Option Bucket :=
  (m.variableNamed? name).bind Variable.bucket?

/-- The first variable of a name, if it is an aggregate. -/
def aggregate? (m : Model) (name : String) : Option Aggregate :=
  (m.variableNamed? name).bind Variable.aggregate?

/-- The model as the context of its domain expressions. -/
def context (m : Model) : Context where
  sharedDomain name := (m.sharedDomain? name).map SharedDomain.expression
  table name := (m.table? name).map Table.source
  aggregateSize name := (m.aggregate? name).map Aggregate.size

end Model

end FiniteDomain
