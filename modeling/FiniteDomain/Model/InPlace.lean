import FiniteDomain.Model.Edit

/-!
# Editing in place

The edits of a model that is kept in a store. A change reads the store and writes it part by part.
A rejection ends the change at once, and what has been written until then stays written: whether a
rejected change leaves the store as it was depends on the order of its checks and writes.

* `InPlace`: a change of a stored value that may be rejected.
* `InPlace.onVariable`: a change of one variable of a stored model.
* `Edit.perform`: an edit of a stored model.
-/

namespace FiniteDomain

/-- A change of a stored value that answers or is rejected. Writes are kept in both cases. -/
abbrev InPlace (σ α : Type) : Type :=
  ExceptT ModelError (StateM σ) α

namespace InPlace

variable {σ τ α : Type}

/-- The answer to a change, or the reason of its rejection, and the stored value after it. -/
def run (change : InPlace σ α) (s : σ) : Except ModelError α × σ :=
  StateT.run (ExceptT.run change) s

/-- Changes the first variable of a name among others, which keep their places. -/
def onFirst (name : String) (change : InPlace Variable α) :
    List Variable → Except ModelError α × List Variable
  | [] => (.error (.unknownVariable name), [])
  | v :: vs =>
    if v.name == name then
      let (answer, v) := change.run v
      (answer, v :: vs)
    else
      let (answer, vs) := onFirst name change vs
      (answer, v :: vs)

/-- Changes the first variable of a name in a model. -/
def onVariable (name : String) (change : InPlace Variable α) : InPlace Model α :=
  ExceptT.mk fun m =>
    let (answer, vars) := onFirst name change m.vars
    (answer, { m with vars })

/-- Changes a variable as what it is by its kind; it must be of this kind. -/
def onKind (kind : Kind) (part? : Variable → Option τ) (whole : τ → Variable) (name : String)
    (change : InPlace τ α) : InPlace Variable α :=
  ExceptT.mk fun v =>
    match part? v with
    | some part =>
      let (answer, part) := change.run part
      (answer, whole part)
    | none => (.error (.wrongKind name kind), v)

/-- Changes a variable that must be an aggregate. -/
def onAggregate (name : String) (change : InPlace Aggregate α) : InPlace Variable α :=
  onKind .aggregate Variable.aggregate? .aggregate name change

/-- Changes a variable that must be a bucket. -/
def onBucket (name : String) (change : InPlace Bucket α) : InPlace Variable α :=
  onKind .bucket Variable.bucket? .bucket name change

/-! ### Variables -/

/-- Cuts an aggregate down to its first `size` elements, then adds fresh ones up to `size`. -/
def resizeElements (size : Nat) : InPlace Aggregate Unit := do
  if size = 0 then throw (.invalidSize size)
  modify fun a => { a with elements := a.elements.take size }
  modify fun a =>
    { a with elements := a.elements ++ Aggregate.freshElements a.name a.elements.length size }

/-- Renames an aggregate, then its elements. -/
def renameElements (name : String) : InPlace Aggregate Unit := do
  modify fun a => { a with name }
  modify fun a =>
    { a with
      elements := a.elements.mapIdx fun i e =>
        { e with name := Aggregate.elementName a.name (i + 1) } }

/-- Gives the element at an index, counted from 1, a domain expression of its own. -/
def overrideElement (index : Nat) (domain : String) : InPlace Aggregate Unit := do
  let a ← get
  if index = 0 ∨ a.size < index then throw (.indexOutOfRange index a.size)
  set { a with
    elements := a.elements.modify (index - 1) fun e => { e with domainOverride := some domain } }

/-- Changes the number of copies of a bucket. -/
def resizeCopies (size : UInt64) : InPlace Bucket Unit := do
  if size = 0 then throw (.invalidSize size.toNat)
  modify fun b => { b with size }

/-- Renames a variable, an aggregate together with its elements. -/
def rename (name : String) : InPlace Variable Unit := do
  match ← get with
  | .singleton v => set (Variable.singleton { v with name })
  | .aggregate a => onAggregate a.name (renameElements name)
  | .bucket b => set (Variable.bucket { b with name })

/-! ### Models -/

/-- Declares a variable. -/
def pushVariable (v : Variable) : InPlace Model Unit :=
  modify fun m => { m with vars := m.vars ++ [v] }

/-- Declares a singleton. -/
def addSingleton (name domain : String) : InPlace Model Unit := do
  let name ← (← get).requireFreshVariable name
  let domain ← requireExpression name domain
  pushVariable (.singleton ⟨name, domain⟩)

/-- Declares an aggregate. -/
def addAggregate (name : String) (size : Nat) (domain : String) : InPlace Model Unit := do
  let name ← (← get).requireFreshVariable name
  let domain ← requireExpression name domain
  let a ← Aggregate.new name size domain
  pushVariable (.aggregate a)

/-- Declares a bundle, whose fields are collected first. -/
def addBundle (name : String) (fields : List (String × String)) : InPlace Model Unit := do
  let name ← requireName name
  if ((← get).bundle? name).isSome then throw (.duplicateName name)
  let singletons ← (fields.foldlM addField [] : Except ModelError (List Singleton))
  modify fun m => { m with bundles := m.bundles ++ [⟨name, singletons⟩] }

/-- Declares a bucket of a declared bundle. -/
def addBucket (name bundle : String) (size : UInt64) : InPlace Model Unit := do
  let name ← (← get).requireFreshVariable name
  if ((← get).bundle? bundle).isNone then throw (.unknownBundle bundle)
  let b ← Bucket.new name bundle size
  pushVariable (.bucket b)

/-- Declares a shared domain; its name may be given with the dollar sign. -/
def addSharedDomain (name expression : String) : InPlace Model Unit := do
  let name ← requireName name
  let name := dropDollar name
  if ((← get).sharedDomain? name).isSome then throw (.duplicateName name)
  let expression ← requireExpression name expression
  modify fun m => { m with sharedDomains := m.sharedDomains ++ [⟨name, expression⟩] }

/-- Declares a table under its name as given. -/
def addTable (table : Table) : InPlace Model Unit := do
  let name ← requireName table.name
  if ((← get).table? name).isSome then throw (.duplicateName name)
  modify fun m => { m with tables := m.tables ++ [table] }

/-- Adds a constraint, which is made from its generated name and its text, and answers the name. -/
def addConstraint (constraint : String → String → ModelConstraint) (text : String) :
    InPlace Model String := do
  let name := (← get).nextConstraintName
  let text ← requireExpression name text
  modify fun m => { m with constraints := m.constraints ++ [constraint name text] }
  return name

/-- Takes the first item that satisfies `p` out of a collection of a model and answers it. -/
def deleteFirst (items : Model → List α) (withItems : Model → List α → Model) (p : α → Bool)
    (missing : ModelError) : InPlace Model α := do
  match takeFirst? p (items (← get)) with
  | none => throw missing
  | some (a, rest) =>
    modify fun m => withItems m rest
    return a

/-- Deletes the first variable of a name and answers it. -/
def deleteVariable (name : String) : InPlace Model Variable :=
  deleteFirst Model.vars (fun m vars => { m with vars }) (fun v => v.name == name)
    (.unknownVariable name)

/-- Deletes the first shared domain of a name and answers it. -/
def deleteSharedDomain (name : String) : InPlace Model SharedDomain :=
  deleteFirst Model.sharedDomains (fun m sharedDomains => { m with sharedDomains })
    (fun d => d.name == name) (.unknownSharedDomain name)

/-- Deletes the first constraint of a name and answers it. -/
def deleteConstraint (name : String) : InPlace Model ModelConstraint :=
  deleteFirst Model.constraints (fun m constraints => { m with constraints })
    (fun c => c.name == name) (.unknownConstraint name)

/-- Renames a variable; the new name must not be taken, not even by the variable itself. -/
def renameVariable (name newName : String) : InPlace Model Unit := do
  let newName ← (← get).requireFreshVariable newName
  onVariable name (rename newName)

/-- Resizes an aggregate. -/
def resizeAggregate (name : String) (size : Nat) : InPlace Model Unit :=
  onVariable name (onAggregate name (resizeElements size))

/-- Resizes a bucket. -/
def resizeBucket (name : String) (size : UInt64) : InPlace Model Unit :=
  onVariable name (onBucket name (resizeCopies size))

/-- Gives one element of an aggregate a domain expression of its own. -/
def overrideDomain (name : String) (index : Nat) (domain : String) : InPlace Model Unit := do
  let domain ← requireExpression name domain
  onVariable name (onAggregate name (overrideElement index domain))

end InPlace

/-- An edit of a stored model. -/
def Edit.perform : Edit → InPlace Model Unit
  | addSingleton name domain => InPlace.addSingleton name domain
  | addAggregate name size domain => InPlace.addAggregate name size domain
  | addBundle name fields => InPlace.addBundle name fields
  | addBucket name bundle size => InPlace.addBucket name bundle size
  | addSharedDomain name expression => InPlace.addSharedDomain name expression
  | addTable table => InPlace.addTable table
  | addExpression expression => discard (InPlace.addConstraint .expression expression)
  | addAllDifferent aggregate => discard (InPlace.addConstraint .allDifferent aggregate)
  | deleteVariable name => discard (InPlace.deleteVariable name)
  | deleteSharedDomain name => discard (InPlace.deleteSharedDomain name)
  | deleteConstraint name => discard (InPlace.deleteConstraint name)
  | renameVariable name newName => InPlace.renameVariable name newName
  | resizeAggregate name size => InPlace.resizeAggregate name size
  | resizeBucket name size => InPlace.resizeBucket name size
  | overrideDomain name index domain => InPlace.overrideDomain name index domain

end FiniteDomain
