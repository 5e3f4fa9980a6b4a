import Std.Data.TreeMap

/-!
# Search statistics

Counters of a search: nodes visited, backtracks, and for each constraint how often it was checked
and how often it failed.
-/

namespace FiniteDomain

/-- How often a constraint was checked and how often it failed. -/
structure Tally where
  /-- The number of checks. -/
  checks : Nat
  /-- The number of checks that failed. -/
  rejections : Nat
  deriving DecidableEq

/-- One more check. -/
def Tally.count (t : Tally) (satisfied : Bool) : Tally :=
  ⟨t.checks + 1, if satisfied then t.rejections else t.rejections + 1⟩

/-- The counters of a search. -/
structure Statistics where
  /-- The number of nodes visited. -/
  nodes : Nat
  /-- The number of nodes given up, the root apart. -/
  backtracks : Nat
  /-- The number of checks. -/
  checks : Nat
  /-- The tallies of the constraints that were checked. -/
  tallies : Std.TreeMap Nat Tally

namespace Statistics

/-- Nothing counted yet. -/
def zero : Statistics :=
  ⟨0, 0, 0, ∅⟩

/-- Counts a node. -/
def visit (s : Statistics) : Statistics :=
  { s with nodes := s.nodes + 1 }

/-- Counts a backtrack. -/
def backtrack (s : Statistics) : Statistics :=
  { s with backtracks := s.backtracks + 1 }

/-- The tally of a constraint. -/
def tally (s : Statistics) (constraint : Nat) : Tally :=
  s.tallies[constraint]?.getD ⟨0, 0⟩

/-- Counts a check of a constraint. -/
def record (s : Statistics) (constraint : Nat) (satisfied : Bool) : Statistics :=
  { s with
    checks := s.checks + 1
    tallies := s.tallies.insert constraint ((s.tally constraint).count satisfied) }

/-- The tallies in ascending order of constraints. -/
def toList (s : Statistics) : List (Nat × Tally) :=
  s.tallies.toList

end Statistics

end FiniteDomain
