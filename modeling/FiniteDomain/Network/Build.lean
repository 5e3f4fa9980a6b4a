import FiniteDomain.Domain.Resolver
import FiniteDomain.Model.Basic
import FiniteDomain.Network.Basic
import FiniteDomain.Template.Expansion

/-!
# Building networks

The network of a model is built without validating the model first. The unknowns come in three
groups: singletons, elements of aggregates, fields of buckets, each in order of declaration. Then
the constraints are added in order. A relation between two different unknowns becomes a binary
constraint; one that involves a single unknown, on both sides or with a constant, rules out
candidates at once; one between constants is decided. The first error ends the construction.

## Main definitions

* `Network.effectOf`: what a relation does to a network.
* `Network.build`: the network of a model.
-/

namespace FiniteDomain

/-- An unknown that a model declares, with its domain still a text. -/
structure Declaration where
  /-- The name shown for the unknown. -/
  name : String
  /-- How the model addresses it. -/
  key : UnknownKey
  /-- Its domain expression. -/
  domain : String

/-- The unknown of a singleton. -/
def Singleton.declaration (s : Singleton) : Declaration :=
  ⟨s.name, .singleton s.name, s.domain⟩

/-- The unknowns of an aggregate. -/
def Aggregate.declarations (a : Aggregate) : List Declaration :=
  a.elements.mapIdx fun i e =>
    ⟨e.name, .element a.name (i + 1), e.domainOverride.getD a.domain⟩

/-- The unknowns of one copy of a bucket's bundle. -/
def Bucket.copyDeclarations (b : Bucket) (bundle : Bundle) (copy : UInt64) : List Declaration :=
  bundle.singletons.map fun s =>
    ⟨b.name ++ "[" ++ Decimal.ofUInt64 copy ++ "]." ++ s.name, .field b.name copy s.name, s.domain⟩

namespace Model

/-- The singletons of a model. -/
def singletons (m : Model) : List Singleton :=
  m.vars.filterMap fun
    | .singleton s => some s
    | _ => none

/-- The aggregates of a model. -/
def aggregates (m : Model) : List Aggregate :=
  m.vars.filterMap Variable.aggregate?

/-- The buckets of a model. -/
def buckets (m : Model) : List Bucket :=
  m.vars.filterMap Variable.bucket?

end Model

/-- A network under construction. -/
structure Builder where
  /-- The domain texts resolved so far. -/
  resolver : Resolver
  /-- The network so far. -/
  network : Network

namespace Builder

/-- Adds a declared unknown, with all positions of its domain as candidates. -/
def declare (b : Builder) (d : Declaration) : Except SolveError Builder := do
  let (domain, resolver) ← b.resolver.resolve d.domain
  return ⟨resolver, b.network.addUnknown
    ⟨d.name, d.key, domain, domain.positions, domain.positions_ascending⟩⟩

/-- Adds the unknowns of `count` copies of a bucket's bundle, from the copy numbered `next` on. -/
def declareCopies (bucket : Bucket) (bundle : Bundle) :
    (count : Nat) → (next : UInt64) → Builder → Except SolveError Builder
  | 0, _, b => .ok b
  | count + 1, next, b => do
    let b ← (bucket.copyDeclarations bundle next).foldlM declare b
    declareCopies bucket bundle count (next + 1) b

/-- Adds the unknowns of a bucket, whose bundle must exist. -/
def declareBucket (m : Model) (b : Builder) (bucket : Bucket) : Except SolveError Builder :=
  match m.bundle? bucket.bundle with
  | none => .error (.missingBundle bucket.name bucket.bundle)
  | some bundle => declareCopies bucket bundle bucket.size.toNat 1 b

/-- Adds all unknowns of a model to the empty network. -/
def declareAll (m : Model) : Except SolveError Builder := do
  let b ← (m.singletons.map Singleton.declaration).foldlM declare ⟨.new m.context, .empty⟩
  let b ← (m.aggregates.flatMap Aggregate.declarations).foldlM declare b
  m.buckets.foldlM (declareBucket m) b

end Builder

/-- One side of a relation after its references are resolved. -/
inductive Side where
  /-- An unknown of the network with an offset and its domain. -/
  | unknown (number : Nat) (offset : Int64) (domain : Domain)
  /-- A constant. -/
  | literal (value : Literal)
  deriving DecidableEq

/-- The offset that an adjustment amounts to. -/
def Adjustment.offset (a : Adjustment) : Except SolveError Int64 :=
  match a.amount, a.sign with
  | .counter name, _ => .error (.unsupported (.unexpandedAdjustment name))
  | .literal k, .plus => .ok k
  | .literal k, .minus =>
    match Word.negExact? k with
    | some offset => .ok offset
    | none => .error (.unsupported (.offsetOverflow k))

/-- The offset of a term. -/
def Term.offset (t : Term) : Except SolveError Int64 :=
  match t.adjustment with
  | none => .ok 0
  | some a => a.offset

/-- The key that a reference addresses; a negative subscript addresses nothing. -/
def Reference.key (r : Reference) : Except SolveError UnknownKey :=
  match r with
  | .singleton name => .ok (.singleton name)
  | .element aggregate (.literal i) =>
    if i < 0 then .error (.unknownVariable r.render)
    else .ok (.element aggregate i.toNatClampNeg)
  | .field bucket (.literal i) name =>
    if i < 0 then .error (.unknownVariable r.render)
    else .ok (.field bucket i.toUInt64 name)
  | .element _ (.counter _) => .error (.unsupported (.unexpandedSubscript r.render))
  | .field _ (.counter _) _ => .error (.unsupported (.unexpandedSubscript r.render))

/-- The value of a constant that is compared with a constant. -/
def constantKey (e : ConstraintExpr) : Literal → Except SolveError Int64
  | .integer value => .ok value
  | .character c => .ok (Domain.codePoint c)
  | .item _ => .error (.unsupported (.itemConstants e.render))

/-- What a relation does to a network. -/
inductive Effect where
  /-- Only candidates of the unknown whose keys satisfy `keep` are left. -/
  | prune (unknown : Nat) (keep : Int64 → Bool)
  /-- A constraint between two unknowns is added. -/
  | relate (constraint : BinaryConstraint)
  /-- Nothing, since the relation is true. -/
  | nothing
  /-- The network has no solution, since the relation is false. -/
  | contradiction

namespace Network

/-- The number and the unknown that a reference is to. -/
def resolve (net : Network) (r : Reference) : Except SolveError (Nat × Unknown) := do
  let key ← r.key
  match net.lookup key with
  | none => .error (.unknownVariable r.render)
  | some number =>
    match net.unknowns[number]? with
    | none => .error (.unknownVariable r.render)
    | some u => .ok (number, u)

/-- Adding the offset to the least or the greatest key of the domain leaves the word. Keys ascend
with positions, so no key in between leaves the word when these two do not. -/
def overflows (d : Domain) (offset : Int64) : Bool :=
  (Word.addExact? (d.key 1) offset).isNone || (Word.addExact? (d.key d.sizeWord) offset).isNone

/-- Resolves one side of a relation. -/
def side (net : Network) (t : Term) : Except SolveError Side :=
  match t.operand with
  | .reference r => do
    let (number, u) ← net.resolve r
    let offset ← t.offset
    if overflows u.domain offset then
      throw (.unsupported (.overflow t.render u.domain.render))
    return .unknown number offset u.domain
  | .literal value =>
    if t.adjustment.isSome then .error (.unsupported (.adjustedLiteral t.render))
    else .ok (.literal value)

/-- What a relation of the model's constraint `name` does to the network. -/
def effectOf (net : Network) (name : String) (e : ConstraintExpr) : Except SolveError Effect := do
  let left ← net.side e.left
  let right ← net.side e.right
  match left, right with
  | .unknown a offsetA _, .unknown b offsetB _ =>
    if a = b then
      return .prune a fun key => e.comparison.holds (key + offsetA) (key + offsetB)
    else
      return .relate ⟨a, offsetA, e.comparison, b, offsetB, name, e.render⟩
  | .unknown a offset d, .literal value =>
    let constant ← d.literalKey value
    return .prune a fun key => e.comparison.holds (key + offset) constant
  | .literal value, .unknown a offset d =>
    let constant ← d.literalKey value
    return .prune a fun key => e.comparison.holds constant (key + offset)
  | .literal l, .literal r =>
    let l ← constantKey e l
    let r ← constantKey e r
    return if e.comparison.holds l r then .nothing else .contradiction

/-- The network after an effect. -/
def apply (net : Network) : Effect → Network
  | .prune unknown keep => net.prune unknown keep
  | .relate c => net.addConstraint c
  | .nothing => net
  | .contradiction => { net with contradiction := true }

/-- Adds a relation of the model's constraint `name`. -/
def addRelation (name : String) (net : Network) (e : ConstraintExpr) :
    Except SolveError Network := do
  let effect ← net.effectOf name e
  return net.apply effect

/-- All pairs of an earlier and a later item of a list. -/
def pairs {α : Type} : List α → List (α × α)
  | [] => []
  | a :: as => as.map (fun b => (a, b)) ++ pairs as

/-- The index and the number of every element of an aggregate. -/
def elementNumbers (net : Network) (target : String) (a : Aggregate) :
    Except SolveError (List (Nat × Nat)) :=
  (List.range' 1 a.size).mapM fun index =>
    match net.lookup (.element a.name index) with
    | some number => .ok (index, number)
    | none => .error (.unknownVariable (target ++ "[" ++ Decimal.ofNat index ++ "]"))

/-- The constraint that two elements of an aggregate differ. -/
def differ (name target : String) (left right : Nat × Nat) : BinaryConstraint :=
  ⟨left.2, 0, .ne, right.2, 0, name, target ++ "[" ++ Decimal.ofNat left.1 ++ "] <> " ++ target ++
    "[" ++ Decimal.ofNat right.1 ++ "]"⟩

/-- Adds the constraints that the elements of an aggregate differ pairwise. -/
def addAllDifferent (m : Model) (name target : String) (net : Network) :
    Except SolveError Network :=
  match m.aggregate? target with
  | none => .error (.unknownVariable target)
  | some a => do
    let elements ← net.elementNumbers target a
    return (pairs elements).foldl
      (fun net (left, right) => net.addConstraint (differ name target left right)) net

/-- The relations that a constraint text stands for. -/
def relationsOf (text : String) : Except SolveError (List ConstraintExpr) :=
  (Template.expandText text).mapError .parse

/-- Adds a constraint of the model. -/
def addModelConstraint (m : Model) (net : Network) : ModelConstraint → Except SolveError Network
  | .expression name text => do
    let relations ← relationsOf text
    relations.foldlM (addRelation name) net
  | .allDifferent name text => addAllDifferent m name (allDifferentTarget text) net

/-- The network of a model. -/
def build (m : Model) : Except SolveError Network := do
  let b ← Builder.declareAll m
  m.constraints.foldlM (addModelConstraint m) b.network

end Network

end FiniteDomain
