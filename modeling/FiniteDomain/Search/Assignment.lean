import Std.Data.TreeMap

/-!
# Assignments

Positions chosen for unknowns so far. Extending an assignment leaves the one extended as it was.
-/

namespace FiniteDomain

/-- The positions chosen for some unknowns. -/
structure Assignment where
  /-- The position of each unknown that has one. -/
  values : Std.TreeMap Nat Int64

namespace Assignment

/-- The assignment without any choice. -/
def empty : Assignment :=
  ⟨∅⟩

/-- The position chosen for an unknown. -/
def get? (a : Assignment) (unknown : Nat) : Option Int64 :=
  a.values[unknown]?

/-- The assignment with a position chosen for an unknown. -/
def assign (a : Assignment) (unknown : Nat) (position : Int64) : Assignment :=
  ⟨a.values.insert unknown position⟩

/-- The number of unknowns that have a position. -/
def size (a : Assignment) : Nat :=
  a.values.size

/-- The choices in ascending order of unknowns. -/
def toList (a : Assignment) : List (Nat × Int64) :=
  a.values.toList

/-- Two assignments make the same choices. -/
def sameAs (a b : Assignment) : Bool :=
  a.toList == b.toList

/-- Each of the first `count` unknowns has a position. -/
def isComplete (a : Assignment) (count : Nat) : Bool :=
  (List.range count).all fun unknown => (a.get? unknown).isSome

/-- Nothing is chosen at the start. -/
@[simp]
theorem get?_empty (unknown : Nat) : empty.get? unknown = none := by
  simp [empty, get?]

/-- A choice is found again and leaves the others as they were. -/
theorem get?_assign (a : Assignment) (unknown other : Nat) (position : Int64) :
    (a.assign unknown position).get? other =
      if unknown = other then some position else a.get? other := by
  simp [assign, get?, Std.TreeMap.getElem?_insert]

end Assignment

end FiniteDomain
