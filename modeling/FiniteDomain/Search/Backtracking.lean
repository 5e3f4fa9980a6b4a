import FiniteDomain.Network.Basic
import FiniteDomain.Search.Assignment
import FiniteDomain.Search.Statistics
import FiniteDomain.SolveError

/-!
# Chronological backtracking

The search assigns the unknowns in the order of their numbers and tries the candidates of each in
ascending order. A candidate is checked against the constraints to unknowns assigned before, in
their order, up to the first that fails. Nothing is propagated to later unknowns.

The state of the search is a stack of frames, one for each unknown under consideration. A step looks
for the next consistent candidate of the top frame and either opens a frame for the next unknown or
gives the top frame up. The steps are bounded: a candidate of a frame outweighs the whole frame
opened for it.

## Main definitions

* `Search.step`: one step.
* `Search.run`: all steps to the end.
* `Search.search`: the search on a network, with an optional limit on the number of nodes.
-/

namespace FiniteDomain.Search

variable (net : Network) (limit : Option Nat)

/-- Whether a position of an unknown agrees with the unknowns assigned before, as far as the given
constraints tell, and the checks that this took. -/
def consistent (unknown : Nat) (position : Int64) (a : Assignment) :
    List Nat → Statistics → Bool × Statistics
  | [], s => (true, s)
  | number :: numbers, s =>
    match net.constraints[number]? with
    | none => consistent unknown position a numbers s
    | some c =>
      match (c.other? unknown).bind fun other => (a.get? other).map (net.keyOf other) with
      | none => consistent unknown position a numbers s
      | some otherKey =>
        let satisfied := c.holdsFor unknown (net.keyOf unknown position) otherKey
        let s := s.record number satisfied
        if satisfied then consistent unknown position a numbers s else (false, s)

/-- The first consistent position among the given ones with those after it, and the checks that this
took. -/
def nextChoice (unknown : Nat) (a : Assignment) :
    List Int64 → Statistics → Option (Int64 × List Int64) × Statistics
  | [], s => (none, s)
  | position :: rest, s =>
    match consistent net unknown position a (net.constraintsOf unknown) s with
    | (true, s) => (some (position, rest), s)
    | (false, s) => nextChoice unknown a rest s

/-- An unknown under consideration. -/
structure Frame where
  /-- The unknown. -/
  unknown : Nat
  /-- The candidates not tried yet. -/
  remaining : List Int64
  /-- The assignment of the unknowns before it. -/
  assignment : Assignment

/-- The state of a search. -/
structure State where
  /-- The unknowns under consideration, the latest first. -/
  stack : List Frame
  /-- The counters so far. -/
  statistics : Statistics

/-- Where a search stands. -/
inductive Progress where
  /-- There is more to do. -/
  | running (state : State)
  /-- Every unknown has a position. -/
  | found (assignment : Assignment) (statistics : Statistics)
  /-- There is no candidate left. -/
  | exhausted (statistics : Statistics)
  /-- More nodes were visited than allowed. -/
  | abandoned (limit : Nat)

/-- Opens a frame for an unknown and counts it as a node. -/
def enter (unknown : Nat) (a : Assignment) (below : List Frame) (s : Statistics) : Progress :=
  let s := s.visit
  match limit with
  | some bound =>
    if bound < s.nodes then .abandoned bound
    else .running ⟨⟨unknown, net.candidatesOf unknown, a⟩ :: below, s⟩
  | none => .running ⟨⟨unknown, net.candidatesOf unknown, a⟩ :: below, s⟩

/-- One step of the search. -/
def step (s : State) : Progress :=
  match s.stack with
  | [] => .exhausted s.statistics
  | frame :: below =>
    match nextChoice net frame.unknown frame.assignment frame.remaining s.statistics with
    | (none, statistics) =>
      .running ⟨below, if below.isEmpty then statistics else statistics.backtrack⟩
    | (some (position, rest), statistics) =>
      let a := frame.assignment.assign frame.unknown position
      if net.unknowns.size ≤ frame.unknown + 1 then .found a statistics
      else
        enter net limit (frame.unknown + 1) a ({ frame with remaining := rest } :: below) statistics

/-! ### The bound on the number of steps -/

/-- The weight of a candidate of an unknown, given the numbers of candidates of the unknowns after
it. It exceeds the weight of the frame for the next unknown. -/
def candidateWeight : List Nat → Nat
  | [] => 2
  | count :: counts => count * candidateWeight counts + 2

/-- The numbers of candidates of the unknowns from a number on. -/
def candidateCounts (unknown : Nat) : List Nat :=
  (net.unknowns.toList.drop unknown).map fun u => u.candidates.length

/-- The weight of a frame: that of its candidates and one more. -/
def Frame.weight (frame : Frame) : Nat :=
  frame.remaining.length * candidateWeight (candidateCounts net (frame.unknown + 1)) + 1

/-- The weight of a stack: that of its frames. -/
def stackWeight : List Frame → Nat
  | [] => 0
  | frame :: below => frame.weight net + stackWeight below

/-- The weight of what is left to do. -/
def Progress.weight : Progress → Nat
  | running s => stackWeight net s.stack + 1
  | _ => 0

/-- A choice leaves fewer candidates. -/
theorem length_nextChoice_lt {unknown : Nat} {a : Assignment} {position : Int64}
    {candidates rest : List Int64} {s t : Statistics}
    (h : nextChoice net unknown a candidates s = (some (position, rest), t)) :
    rest.length < candidates.length := by
  induction candidates generalizing s with
  | nil => simp [nextChoice] at h
  | cons c cs ih =>
    rw [nextChoice] at h
    split at h
    · obtain ⟨⟨_, rfl⟩, _⟩ : (c = position ∧ cs = rest) ∧ _ = t := by simpa using h
      simp
    · exact Nat.lt_succ_of_lt (ih h)

/-- A candidate outweighs the frame for the next unknown. -/
theorem weight_frame_lt (unknown : Nat) (a : Assignment) :
    Frame.weight net ⟨unknown, net.candidatesOf unknown, a⟩ <
      candidateWeight (candidateCounts net unknown) := by
  unfold Frame.weight candidateCounts Network.candidatesOf
  rcases Nat.lt_or_ge unknown net.unknowns.size with h | h
  · rw [List.drop_eq_getElem_cons (i := unknown) (by simpa using h)]
    simp [h, candidateWeight]
  · have hnil : net.unknowns.toList.drop unknown = [] := List.drop_eq_nil_of_le (by simpa using h)
    rw [hnil]
    simp [h, candidateWeight]

/-- Opening a frame weighs the frame and what lies below it. -/
theorem weight_enter_le (unknown : Nat) (a : Assignment) (below : List Frame) (s : Statistics) :
    (enter net limit unknown a below s).weight net ≤
      Frame.weight net ⟨unknown, net.candidatesOf unknown, a⟩ + stackWeight net below + 1 := by
  unfold enter
  dsimp only
  split
  · split <;> simp [Progress.weight, stackWeight]
  · simp [Progress.weight, stackWeight]

/-- Each step lessens the weight. -/
theorem weight_step_lt (s : State) :
    (step net limit s).weight net < (Progress.running s).weight net := by
  unfold step
  split
  · simp [Progress.weight]
  · next frame below hs =>
    split
    · simp [Progress.weight, stackWeight, hs, Frame.weight]
    · next position rest statistics hc =>
      have hlen := length_nextChoice_lt net hc
      dsimp only
      split
      · simp [Progress.weight]
      · -- the new frame weighs less than the one candidate that its parent gives up for it
        refine Nat.lt_of_le_of_lt (weight_enter_le ..) ?_
        have hw := weight_frame_lt net (frame.unknown + 1)
          (frame.assignment.assign frame.unknown position)
        have hmul := Nat.mul_le_mul_right
          (candidateWeight (candidateCounts net (frame.unknown + 1))) hlen
        simp only [Progress.weight, stackWeight, hs]
        unfold Frame.weight at hw ⊢
        simp only [Nat.succ_mul] at hmul
        dsimp only at hw ⊢
        omega

/-- All steps to the end of the search. -/
def run : Progress → Except SolveError (Option Assignment × Statistics)
  | .running s => run (step net limit s)
  | .found a s => .ok (some a, s)
  | .exhausted s => .ok (none, s)
  | .abandoned bound => .error (.limitReached bound)
termination_by p => p.weight net
decreasing_by exact weight_step_lt net limit s

/-- Searches a network for its first solution. A network that is known to have none is not searched;
one without unknowns has the empty solution. -/
def search : Except SolveError (Option Assignment × Statistics) :=
  if net.isInfeasible then .ok (none, .zero)
  else if net.unknowns.isEmpty then .ok (some .empty, .zero)
  else run net limit (enter net limit 0 .empty [] .zero)

end FiniteDomain.Search
