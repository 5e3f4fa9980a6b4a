import FiniteDomain.Search.Backtracking

/-!
# Steps of a search

A step looks for the next candidate of the top frame that no check turns down. The check of a
constraint says whether a position satisfies it, or nothing while the other end has no position. So
a search depends on what the checks say and on nothing else about the constraints, and the choice of
a candidate changes the counters by records of checks only.

## Main definitions

* `Search.verdict?`: what the check of a constraint says.

## Main results

* `Search.consistent_cons`: trying a position, in terms of what the checks say.
* `Search.nextChoice_invariant`: what the record of a check keeps, the choice of a position keeps.
* `Search.step_cases`: what a step can do.
* `Search.search_congr`: networks whose checks say the same are searched alike.
-/

namespace FiniteDomain.Search

variable (net : Network)

/-- What the constraint with a number says about a position of an unknown: whether it is satisfied,
or nothing if it is not a constraint of this unknown or its other end has no position. -/
def verdict? (unknown : Nat) (position : Int64) (a : Assignment) (number : Nat) : Option Bool := do
  let c ← net.constraints[number]?
  let other ← c.other? unknown
  let otherPosition ← a.get? other
  return c.holdsFor unknown (net.keyOf unknown position) (net.keyOf other otherPosition)

/-- A constraint that says nothing is passed over; one that says something is counted, and ends the
checks if it is violated. -/
theorem consistent_cons (unknown : Nat) (position : Int64) (a : Assignment) (number : Nat)
    (numbers : List Nat) (s : Statistics) :
    consistent net unknown position a (number :: numbers) s =
      match verdict? net unknown position a number with
      | none => consistent net unknown position a numbers s
      | some true => consistent net unknown position a numbers (s.record number true)
      | some false => (false, s.record number false) := by
  -- what the check finds out, one thing after another, is what the verdict is made of
  rw [consistent, verdict?]
  cases net.constraints[number]? with
  | none => rfl
  | some c =>
    dsimp only [Option.bind_eq_bind, Option.bind_some]
    cases c.other? unknown with
    | none => rfl
    | some other =>
      dsimp only [Option.bind_some]
      cases a.get? other with
      | none => rfl
      | some q =>
        dsimp only [Option.map_some, Option.bind_some]
        cases c.holdsFor unknown (net.keyOf unknown position) (net.keyOf other q) <;> rfl

variable {net}

/-- What says something is a constraint of the network. -/
theorem lt_of_verdict? {unknown : Nat} {position : Int64} {a : Assignment} {number : Nat}
    {satisfied : Bool} (h : verdict? net unknown position a number = some satisfied) :
    number < net.constraints.size := by
  rw [verdict?, Option.bind_eq_bind, Option.bind_eq_some_iff] at h
  obtain ⟨c, hc, -⟩ := h
  exact (Array.getElem?_eq_some_iff.1 hc).1

/-! ### Counting -/

section

variable {P : Statistics → Prop} (hrecord : ∀ s number satisfied, number < net.constraints.size →
  P s → P (s.record number satisfied))

include hrecord

/-- What the record of a check keeps, trying a position keeps. -/
theorem consistent_invariant (unknown : Nat) (position : Int64) (a : Assignment)
    (numbers : List Nat) {s : Statistics} (hs : P s) :
    P (consistent net unknown position a numbers s).2 := by
  induction numbers generalizing s with
  | nil => exact hs
  | cons number numbers ih =>
    rw [consistent_cons]
    cases hverdict : verdict? net unknown position a number with
    | none => exact ih hs
    | some satisfied =>
      have hnext := hrecord s number satisfied (lt_of_verdict? hverdict) hs
      cases satisfied with
      | true => exact ih hnext
      | false => exact hnext

/-- What the record of a check keeps, the choice of a position keeps. -/
theorem nextChoice_invariant (unknown : Nat) (a : Assignment) (candidates : List Int64)
    {s : Statistics} (hs : P s) : P (nextChoice net unknown a candidates s).2 := by
  induction candidates generalizing s with
  | nil => exact hs
  | cons position rest ih =>
    have hnext := consistent_invariant hrecord unknown position a (net.constraintsOf unknown) hs
    rw [nextChoice]
    -- a position that is turned down leaves its checks to the choice among the others
    rcases hc : consistent net unknown position a (net.constraintsOf unknown) s with ⟨_ | _, t⟩
    · rw [hc] at hnext
      exact ih hnext
    · rwa [hc] at hnext

end

/-- The choice of a position opens no node and gives none up. -/
theorem nextChoice_visits (net : Network) (unknown : Nat) (a : Assignment)
    (candidates : List Int64) (s : Statistics) :
    (nextChoice net unknown a candidates s).2.nodes = s.nodes ∧
      (nextChoice net unknown a candidates s).2.backtracks = s.backtracks :=
  nextChoice_invariant (P := fun t => t.nodes = s.nodes ∧ t.backtracks = s.backtracks)
    (fun _ _ _ _ h => h) unknown a candidates ⟨rfl, rfl⟩

/-! ### What a step can do -/

/-- A step ends the search at an empty stack, gives the top frame up when none of its candidates is
left, or chooses a position: for the last unknown, which completes the assignment, or for another
one, which opens the frame of the next. Only the last can be cut off by a limit. -/
theorem step_cases (net : Network) (s : State) :
    (s.stack = [] ∧ ∀ limit, step net limit s = .exhausted s.statistics) ∨
    ∃ frame below choice t, s.stack = frame :: below ∧
      nextChoice net frame.unknown frame.assignment frame.remaining s.statistics = (choice, t) ∧
      ((choice = none ∧ ∀ limit, step net limit s =
        .running ⟨below, if below.isEmpty then t else t.backtrack⟩) ∨
      ∃ position rest, choice = some (position, rest) ∧
        ((net.unknowns.size ≤ frame.unknown + 1 ∧ ∀ limit, step net limit s =
          .found (frame.assignment.assign frame.unknown position) t) ∨
        (frame.unknown + 1 < net.unknowns.size ∧ ∀ limit, step net limit s =
          enter net limit (frame.unknown + 1) (frame.assignment.assign frame.unknown position)
            ({ frame with remaining := rest } :: below) t))) := by
  rcases hstack : s.stack with _ | ⟨frame, below⟩
  · exact .inl ⟨rfl, fun limit => by rw [step, hstack]⟩
  · -- the limit is looked at only where a new frame is opened
    rcases hchoice : nextChoice net frame.unknown frame.assignment frame.remaining s.statistics with
      ⟨_ | ⟨position, rest⟩, t⟩
    · refine .inr ⟨frame, below, none, t, rfl, hchoice, .inl ⟨rfl, fun limit => ?_⟩⟩
      simp only [step, hstack, hchoice]
    · refine .inr ⟨frame, below, _, t, rfl, hchoice, .inr ⟨position, rest, rfl, ?_⟩⟩
      rcases Nat.lt_or_ge (frame.unknown + 1) net.unknowns.size with hmore | hlast
      · refine .inr ⟨hmore, fun limit => ?_⟩
        simp only [step, hstack, hchoice, if_neg (Nat.not_le_of_gt hmore)]
      · refine .inl ⟨hlast, fun limit => ?_⟩
        simp only [step, hstack, hchoice, if_pos hlast]

/-! ### Networks whose checks say the same -/

section

variable {net' : Network}

/-- How a node is entered depends on the unknowns alone. -/
theorem enter_congr (hunknowns : net.unknowns = net'.unknowns) (limit : Option Nat) :
    enter net limit = enter net' limit := by
  funext unknown a below s
  simp only [enter, Network.candidatesOf, hunknowns]

variable (hunknowns : net.unknowns = net'.unknowns)
  (hcontradiction : net.contradiction = net'.contradiction)
  (hincidence : net.incidence = net'.incidence)
  (hverdict : verdict? net = verdict? net')

include hverdict

/-- Networks with the same verdicts accept the same positions. -/
theorem consistent_congr : consistent net = consistent net' := by
  funext unknown position a numbers
  induction numbers with
  | nil => rfl
  | cons number numbers ih =>
    funext s
    rw [consistent_cons, consistent_cons, hverdict, ih]

include hincidence

theorem nextChoice_congr : nextChoice net = nextChoice net' := by
  have hnumbers : net.constraintsOf = net'.constraintsOf := by
    funext unknown
    rw [Network.constraintsOf, Network.constraintsOf, hincidence]
  funext unknown a candidates
  induction candidates with
  | nil => rfl
  | cons position rest ih =>
    funext s
    rw [nextChoice, nextChoice, consistent_congr hverdict, hnumbers, ih]

include hunknowns

/-- Networks with the same unknowns and the same verdicts take the same steps. -/
theorem step_congr (limit : Option Nat) : step net limit = step net' limit := by
  funext s
  rw [step, step, nextChoice_congr hincidence hverdict, enter_congr hunknowns, hunknowns]

/-- Networks that take the same steps run alike. -/
theorem run_congr (limit : Option Nat) : run net limit = run net' limit := by
  funext p
  -- the induction is on the run in the first network, whose steps are those in the other
  induction p using run.induct net limit with
  | case1 s ih => rw [run, run, ih, step_congr hunknowns hincidence hverdict]
  | case2 a s => rw [run, run]
  | case3 s => rw [run, run]
  | case4 bound => rw [run, run]

include hcontradiction

/-- Networks whose checks say the same are searched alike: the same positions are tried and the same
checks are counted. -/
theorem search_congr (limit : Option Nat) : search net limit = search net' limit := by
  have hinfeasible : net.isInfeasible = net'.isInfeasible := by
    rw [Network.isInfeasible, Network.isInfeasible, hunknowns, hcontradiction]
  rw [search, search, hinfeasible, enter_congr hunknowns,
    run_congr hunknowns hincidence hverdict, hunknowns]

end

end FiniteDomain.Search
