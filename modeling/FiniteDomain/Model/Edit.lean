import FiniteDomain.Model.Basic

/-!
# Editing models

The operations that change a model. Each checks its arguments first and either returns the changed
model or rejects the edit, leaving the caller with the model as it was. Names are trimmed; variables
share one name space. Constraints get generated names.

* `Edit`: an edit as a value, and `Edit.apply`.
* `Draft`: a model under construction that remembers its first rejected edit.
-/

namespace FiniteDomain

/-- The trimmed name, which must not be empty. -/
def requireName (name : String) : Except ModelError String :=
  if Text.isBlankText name then .error .emptyName else .ok (Text.trim name)

/-- The expression as it is, which must not be blank. -/
def requireExpression (owner expression : String) : Except ModelError String :=
  if Text.isBlankText expression then .error (.emptyExpression owner) else .ok expression

/-- Adds a field to those of a bundle. -/
def addField (fields : List Singleton) (field : String × String) :
    Except ModelError (List Singleton) := do
  let name ← requireName field.1
  if fields.any fun s => s.name == name then throw (.duplicateName name)
  let domain ← requireExpression name field.2
  return fields ++ [⟨name, domain⟩]

/-- Changes the first variable of a name. -/
def updateVariable (name : String) (change : Variable → Except ModelError Variable) :
    List Variable → Except ModelError (List Variable)
  | [] => .error (.unknownVariable name)
  | v :: vs =>
    if v.name == name then do
      let v ← change v
      return v :: vs
    else do
      let vs ← updateVariable name change vs
      return v :: vs

/-- Takes the first item that satisfies `p` out of a list. -/
def takeFirst? {α : Type} (p : α → Bool) : List α → Option (α × List α)
  | [] => none
  | a :: as =>
    if p a then some (a, as) else (takeFirst? p as).map fun (b, rest) => (b, a :: rest)

namespace Model

variable (m : Model)

/-- The trimmed name of a new variable, which must not be taken. -/
def requireFreshVariable (name : String) : Except ModelError String := do
  let name ← requireName name
  if (m.variableNamed? name).isSome then throw (.duplicateName name)
  return name

/-- Declares a singleton. -/
def addSingleton (name domain : String) : Except ModelError Model := do
  let name ← m.requireFreshVariable name
  let domain ← requireExpression name domain
  return { m with vars := m.vars ++ [.singleton ⟨name, domain⟩] }

/-- Declares an aggregate. -/
def addAggregate (name : String) (size : Nat) (domain : String) : Except ModelError Model := do
  let name ← m.requireFreshVariable name
  let domain ← requireExpression name domain
  let a ← Aggregate.new name size domain
  return { m with vars := m.vars ++ [.aggregate a] }

/-- Declares a bundle of fields with their domains. -/
def addBundle (name : String) (fields : List (String × String)) : Except ModelError Model := do
  let name ← requireName name
  if (m.bundle? name).isSome then throw (.duplicateName name)
  let singletons ← fields.foldlM addField []
  return { m with bundles := m.bundles ++ [⟨name, singletons⟩] }

/-- Declares a bucket of a declared bundle. -/
def addBucket (name bundle : String) (size : UInt64) : Except ModelError Model := do
  let name ← m.requireFreshVariable name
  if (m.bundle? bundle).isNone then throw (.unknownBundle bundle)
  let b ← Bucket.new name bundle size
  return { m with vars := m.vars ++ [.bucket b] }

/-- Declares a shared domain; its name may be given with the dollar sign. -/
def addSharedDomain (name expression : String) : Except ModelError Model := do
  let name ← requireName name
  let name := dropDollar name
  if (m.sharedDomain? name).isSome then throw (.duplicateName name)
  let expression ← requireExpression name expression
  return { m with sharedDomains := m.sharedDomains ++ [⟨name, expression⟩] }

/-- Declares a table. Its trimmed name must not be taken; the table keeps its name as given. -/
def addTable (table : Table) : Except ModelError Model := do
  let name ← requireName table.name
  if (m.table? name).isSome then throw (.duplicateName name)
  return { m with tables := m.tables ++ [table] }

/-- The generated name with a number. -/
def constraintName (n : Nat) : String :=
  "constraint" ++ Decimal.ofNat n

/-- The first generated name that no constraint has, counting from one more than the number of
constraints. Among as many names and one more, one is free. -/
def nextConstraintName : String :=
  let count := m.constraints.length
  (((List.range' (count + 1) (count + 1)).map constraintName).find? fun name =>
    m.constraints.all fun c => c.name != name).getD ""

/-- Adds a constraint expression and returns its generated name. -/
def addExpression (expression : String) : Except ModelError (String × Model) := do
  let name := m.nextConstraintName
  let expression ← requireExpression name expression
  return (name, { m with constraints := m.constraints ++ [.expression name expression] })

/-- Adds an all-different constraint on an aggregate and returns its generated name. -/
def addAllDifferent (aggregate : String) : Except ModelError (String × Model) := do
  let name := m.nextConstraintName
  let aggregate ← requireExpression name aggregate
  return (name, { m with constraints := m.constraints ++ [.allDifferent name aggregate] })

/-- Deletes the first variable of a name and returns it. -/
def deleteVariable (name : String) : Except ModelError (Variable × Model) :=
  match takeFirst? (fun v => v.name == name) m.vars with
  | none => .error (.unknownVariable name)
  | some (v, rest) => .ok (v, { m with vars := rest })

/-- Deletes the first shared domain of a name and returns it. -/
def deleteSharedDomain (name : String) : Except ModelError (SharedDomain × Model) :=
  match takeFirst? (fun d => d.name == name) m.sharedDomains with
  | none => .error (.unknownSharedDomain name)
  | some (d, rest) => .ok (d, { m with sharedDomains := rest })

/-- Deletes the first constraint of a name and returns it. -/
def deleteConstraint (name : String) : Except ModelError (ModelConstraint × Model) :=
  match takeFirst? (fun c => c.name == name) m.constraints with
  | none => .error (.unknownConstraint name)
  | some (c, rest) => .ok (c, { m with constraints := rest })

/-- Renames a variable; the new name must not be taken, not even by the variable itself. -/
def renameVariable (name newName : String) : Except ModelError Model := do
  let newName ← m.requireFreshVariable newName
  let vars ← updateVariable name (fun v => .ok (v.rename newName)) m.vars
  return { m with vars }

/-- Changes the first variable of a name, which must be an aggregate. -/
def updateAggregate (name : String) (change : Aggregate → Except ModelError Aggregate) :
    Except ModelError Model := do
  let vars ← updateVariable name (fun
    | .aggregate a => (change a).map .aggregate
    | _ => .error (.wrongKind name .aggregate)) m.vars
  return { m with vars }

/-- Resizes an aggregate. -/
def resizeAggregate (name : String) (size : Nat) : Except ModelError Model :=
  m.updateAggregate name fun a => a.resize size

/-- Resizes a bucket. -/
def resizeBucket (name : String) (size : UInt64) : Except ModelError Model := do
  let vars ← updateVariable name (fun
    | .bucket b => (b.resize size).map .bucket
    | _ => .error (.wrongKind name .bucket)) m.vars
  return { m with vars }

/-- Gives one element of an aggregate a domain expression of its own. -/
def overrideDomain (name : String) (index : Nat) (domain : String) : Except ModelError Model := do
  let domain ← requireExpression name domain
  m.updateAggregate name fun a => a.overrideDomain index domain

end Model

/-- An edit of a model. -/
inductive Edit where
  /-- Declares a singleton. -/
  | addSingleton (name domain : String)
  /-- Declares an aggregate. -/
  | addAggregate (name : String) (size : Nat) (domain : String)
  /-- Declares a bundle. -/
  | addBundle (name : String) (fields : List (String × String))
  /-- Declares a bucket. -/
  | addBucket (name bundle : String) (size : UInt64)
  /-- Declares a shared domain. -/
  | addSharedDomain (name expression : String)
  /-- Declares a table. -/
  | addTable (table : Table)
  /-- Adds a constraint expression. -/
  | addExpression (expression : String)
  /-- Adds an all-different constraint. -/
  | addAllDifferent (aggregate : String)
  /-- Deletes a variable. -/
  | deleteVariable (name : String)
  /-- Deletes a shared domain. -/
  | deleteSharedDomain (name : String)
  /-- Deletes a constraint. -/
  | deleteConstraint (name : String)
  /-- Renames a variable. -/
  | renameVariable (name newName : String)
  /-- Resizes an aggregate. -/
  | resizeAggregate (name : String) (size : Nat)
  /-- Resizes a bucket. -/
  | resizeBucket (name : String) (size : UInt64)
  /-- Overrides the domain of an element. -/
  | overrideDomain (name : String) (index : Nat) (domain : String)

/-- The model after an edit. -/
def Edit.apply (m : Model) : Edit → Except ModelError Model
  | addSingleton name domain => m.addSingleton name domain
  | addAggregate name size domain => m.addAggregate name size domain
  | addBundle name fields => m.addBundle name fields
  | addBucket name bundle size => m.addBucket name bundle size
  | addSharedDomain name expression => m.addSharedDomain name expression
  | addTable table => m.addTable table
  | addExpression expression => (m.addExpression expression).map Prod.snd
  | addAllDifferent aggregate => (m.addAllDifferent aggregate).map Prod.snd
  | deleteVariable name => (m.deleteVariable name).map Prod.snd
  | deleteSharedDomain name => (m.deleteSharedDomain name).map Prod.snd
  | deleteConstraint name => (m.deleteConstraint name).map Prod.snd
  | renameVariable name newName => m.renameVariable name newName
  | resizeAggregate name size => m.resizeAggregate name size
  | resizeBucket name size => m.resizeBucket name size
  | overrideDomain name index domain => m.overrideDomain name index domain

/-- A model under construction. -/
structure Draft where
  /-- The model after the edits accepted so far. -/
  model : Model
  /-- The reason of the first rejected edit. -/
  rejection : Option ModelError

namespace Draft

/-- The draft of a model that declares nothing. -/
def new (name : String) : Draft :=
  ⟨.new name, none⟩

/-- Applies an edit, unless an earlier one was rejected. -/
def edit (d : Draft) (e : Edit) : Draft :=
  match d.rejection with
  | some _ => d
  | none =>
    match e.apply d.model with
    | .ok model => { d with model }
    | .error error => { d with rejection := some error }

/-- The finished model, or the reason of the first rejected edit. -/
def build (d : Draft) : Except ModelError Model :=
  match d.rejection with
  | some error => .error error
  | none => .ok d.model

end Draft

end FiniteDomain
