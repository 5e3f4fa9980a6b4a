import FiniteDomain.Domain.Basic

/-!
# Constraint networks

A network holds numbered unknowns, each with its domain and the positions that are still candidates,
and numbered binary constraints between the keys of two unknowns.

## Main definitions

* `BinaryConstraint.holds`: a constraint on two keys.
* `Network.addUnknown`, `Network.addConstraint`, `Network.prune`: the steps networks are made of.
* `Network.lookup`: the unknown that a key addresses; of several, the one added last.
* `Network.isInfeasible`: the network has no solution for a reason found while it was built.
-/

namespace FiniteDomain

/-- How an unknown is addressed from the model. -/
inductive UnknownKey where
  /-- A singleton by name. -/
  | singleton (name : String)
  /-- An element of an aggregate, counted from 1. -/
  | element (aggregate : String) (index : Nat)
  /-- A field of a copy of a bundle, copies counted from 1. -/
  | field (bucket : String) (copy : UInt64) (field : String)
  deriving DecidableEq

/-- An unknown of a network. -/
structure Unknown where
  /-- The name shown for the unknown. -/
  name : String
  /-- How the model addresses it. -/
  key : UnknownKey
  /-- Its domain. -/
  domain : Domain
  /-- The positions in the domain that are not ruled out, in ascending order. -/
  candidates : List Int64
  /-- The candidates ascend. -/
  ascending : candidates.Pairwise (· < ·)

/-- The comparison of two unknowns, each with an offset added to its key. -/
structure BinaryConstraint where
  /-- The unknown on the left. -/
  left : Nat
  /-- What is added to its key. -/
  leftOffset : Int64
  /-- The comparison. -/
  comparison : Comparison
  /-- The unknown on the right. -/
  right : Nat
  /-- What is added to its key. -/
  rightOffset : Int64
  /-- The name of the model's constraint that this one comes from. -/
  name : String
  /-- The constraint as text. -/
  description : String

namespace BinaryConstraint

/-- Whether the constraint holds of a left and a right key. -/
def holds (c : BinaryConstraint) (leftKey rightKey : Int64) : Bool :=
  c.comparison.holds (leftKey + c.leftOffset) (rightKey + c.rightOffset)

/-- The unknown at the other end, if `unknown` is at one end. -/
def other? (c : BinaryConstraint) (unknown : Nat) : Option Nat :=
  if c.left = unknown then some c.right
  else if c.right = unknown then some c.left
  else none

/-- Whether the constraint holds when `unknown` has the key `key` and the other end `otherKey`. -/
def holdsFor (c : BinaryConstraint) (unknown : Nat) (key otherKey : Int64) : Bool :=
  if c.left = unknown then c.holds key otherKey else c.holds otherKey key

end BinaryConstraint

/-- A network of unknowns and binary constraints. -/
structure Network where
  /-- The unknowns; an unknown's number is its place. -/
  unknowns : Array Unknown
  /-- The constraints; a constraint's number is its place. -/
  constraints : Array BinaryConstraint
  /-- For each unknown the numbers of the constraints it takes part in. -/
  incidence : Array (Array Nat)
  /-- The numbers of the unknowns by key, the latest first. -/
  index : List (UnknownKey × Nat)
  /-- A relation between constants was false. -/
  contradiction : Bool

namespace Network

/-- The network without unknowns. -/
def empty : Network :=
  ⟨#[], #[], #[], [], false⟩

/-- The unknown that a key addresses. -/
def lookup (net : Network) (key : UnknownKey) : Option Nat :=
  net.index.lookup key

/-- The key that comparisons use for a position of an unknown. -/
def keyOf (net : Network) (unknown : Nat) (position : Int64) : Int64 :=
  match net.unknowns[unknown]? with
  | some u => u.domain.key position
  | none => position

/-- The numbers of the constraints that an unknown takes part in. -/
def constraintsOf (net : Network) (unknown : Nat) : List Nat :=
  (net.incidence[unknown]?.getD #[]).toList

/-- The candidates of an unknown. -/
def candidatesOf (net : Network) (unknown : Nat) : List Int64 :=
  match net.unknowns[unknown]? with
  | some u => u.candidates
  | none => []

/-- The network has no solution: a relation between constants is false, or an unknown has no
candidate. -/
def isInfeasible (net : Network) : Bool :=
  net.contradiction || net.unknowns.any fun u => u.candidates.isEmpty

/-- Adds an unknown. -/
def addUnknown (net : Network) (u : Unknown) : Network :=
  { net with
    unknowns := net.unknowns.push u
    incidence := net.incidence.push #[]
    index := (u.key, net.unknowns.size) :: net.index }

/-- Adds a constraint and notes it at both its unknowns. -/
def addConstraint (net : Network) (c : BinaryConstraint) : Network :=
  let number := net.constraints.size
  { net with
    constraints := net.constraints.push c
    incidence := (net.incidence.modify c.left (·.push number)).modify c.right (·.push number) }

/-- Keeps the candidates of an unknown whose keys satisfy `keep`. -/
def prune (net : Network) (unknown : Nat) (keep : Int64 → Bool) : Network :=
  { net with
    unknowns := net.unknowns.modify unknown fun u =>
      { u with
        candidates := u.candidates.filter fun position => keep (u.domain.key position)
        ascending := u.ascending.filter _ } }

end Network

end FiniteDomain
