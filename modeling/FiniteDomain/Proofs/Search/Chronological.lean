import FiniteDomain.Proofs.Network.WellFormed
import FiniteDomain.Proofs.Search.Recursive
import FiniteDomain.Proofs.Search.Step
import Mathlib.Data.List.Basic

/-!
# Chronological backtracking as it is specified

The specification of the search is a recursive procedure on the unknowns that have no position yet,
in the order of their numbers. To visit an unknown is to try its candidates in ascending order: a
candidate is checked against the constraints to the unknowns that have positions, up to the first
that is violated, and if none is, the procedure goes on with the other unknowns. A visit fails when
all candidates have failed, which is a backtrack unless the visit is the first one.

The search on a stack of frames returns what the procedure returns and counts what it counts. It is
not started on a network that is infeasible from the start.

## Main definitions

* `Search.checksOf`, `Search.performed`: the checks that a candidate is put to.
* `Search.attempt`, `Search.explore`: the procedure.

## Main results

* `Search.consistent_eq`: a candidate is tried by the checks of the specification.
* `Search.run_explore`: the procedure in terms of the recursion of `Search.visit`.
* `Search.stackSearch_eq_explore`: the search on a stack is the procedure.
-/

namespace FiniteDomain.Search

variable (net : Network)

/-! ### The procedure -/

/-- The constraints of an unknown to unknowns that have positions, in the order in which the unknown
lists them, each with whether the positions satisfy it. -/
def checksOf (unknown : Nat) (a : Assignment) : List (Nat × Bool) :=
  (net.constraintsOf unknown).filterMap fun number => do
    let c ← net.constraints[number]?
    let p ← a.get? c.left
    let q ← a.get? c.right
    return (number, c.holds (net.keyOf c.left p) (net.keyOf c.right q))

/-- The checks up to the first that is violated, and this one. -/
def performed (checks : List (Nat × Bool)) : List (Nat × Bool) :=
  checks.takeWhile (·.2) ++ (checks.dropWhile (·.2)).take 1

/-- The counters after some checks. -/
def recordAll (s : Statistics) (checks : List (Nat × Bool)) : Statistics :=
  checks.foldl (fun s check => s.record check.1 check.2) s

/-- Tries a position of an unknown: makes its checks and, if none is violated, goes on with the
unknowns after it by `descend`. -/
def attempt (descend : Assignment → StateM Statistics (Option Assignment)) (unknown : Nat)
    (a : Assignment) (position : Int64) : StateM Statistics (Option Assignment) := do
  let b := a.assign unknown position
  let checks := checksOf net unknown b
  modify fun s => recordAll s (performed checks)
  if checks.all (·.2) then descend b else return none

/-- Chronological backtracking: extends an assignment to the given unknowns, one after another, by
the first of their candidates that lead to an assignment of all. -/
def explore : List Nat → Assignment → StateM Statistics (Option Assignment)
  | [], a => return some a
  | unknown :: later, a => do
    modify Statistics.visit
    let found ← (net.candidatesOf unknown).findSomeM? (attempt net (explore later) unknown a)
    -- a visit that fails is a backtrack, unless it is that of the first unknown
    if found.isNone && unknown != 0 then modify Statistics.backtrack
    return found

variable {net}

/-! ### Checks -/

theorem performed_satisfied (number : Nat) (checks : List (Nat × Bool)) :
    performed ((number, true) :: checks) = (number, true) :: performed checks := by
  simp [performed]

theorem performed_violated (number : Nat) (checks : List (Nat × Bool)) :
    performed ((number, false) :: checks) = [(number, false)] := by
  simp [performed]

/-- Trying a position performs the checks that say something, in their order. -/
theorem consistent_eq_performed (unknown : Nat) (position : Int64) (a : Assignment)
    (numbers : List Nat) (s : Statistics) :
    let checks := numbers.filterMap fun number =>
      (verdict? net unknown position a number).map fun satisfied => (number, satisfied)
    consistent net unknown position a numbers s =
      (checks.all (·.2), recordAll s (performed checks)) := by
  induction numbers generalizing s with
  | nil => rfl
  | cons number numbers ih =>
    dsimp only at ih ⊢
    rw [consistent_cons]
    -- a constraint to an unknown without a position says nothing and is not counted
    cases hverdict : verdict? net unknown position a number with
    | none =>
      rw [List.filterMap_cons_none (by rw [hverdict]; rfl)]
      exact ih s
    | some satisfied =>
      rw [List.filterMap_cons_some (by rw [hverdict]; rfl)]
      cases satisfied with
      | true =>
        rw [performed_satisfied, List.all_cons, Bool.true_and]
        exact ih _
      | false =>
        rw [performed_violated]
        rfl

/-- A constraint of an unknown says something exactly when both its ends have positions, and then it
says whether these satisfy it. -/
theorem verdict?_eq (hnet : net.WellFormed) {unknown : Nat} (hlt : unknown < net.unknowns.size)
    {number : Nat} (hnumber : number ∈ net.constraintsOf unknown) (position : Int64)
    (a : Assignment) :
    verdict? net unknown position a number = (net.constraints[number]?).bind fun c =>
      ((a.assign unknown position).get? c.left).bind fun p =>
        ((a.assign unknown position).get? c.right).map fun q =>
          c.holds (net.keyOf c.left p) (net.keyOf c.right q) := by
  obtain ⟨c, hc, hends⟩ := (hnet.mem_constraintsOf unknown hlt number).1 hnumber
  have hne := hnet.left_ne_right c (Array.mem_of_getElem? hc)
  simp only [verdict?, hc, Option.bind_eq_bind, Option.bind_some, Assignment.get?_assign]
  -- the unknown is at one end, and the position of the other end is that of the assignment
  rcases hends with rfl | rfl
  · simp only [BinaryConstraint.other?, BinaryConstraint.holdsFor, if_pos, if_neg hne,
      Option.bind_some]
    cases a.get? c.right <;> rfl
  · simp only [BinaryConstraint.other?, BinaryConstraint.holdsFor, if_pos, if_neg hne,
      if_neg hne.symm, Option.bind_some]
    cases a.get? c.left <;> rfl

/-- A candidate is tried by the checks of the specification. -/
theorem consistent_eq (hnet : net.WellFormed) {unknown : Nat} (hlt : unknown < net.unknowns.size)
    (position : Int64) (a : Assignment) (s : Statistics) :
    consistent net unknown position a (net.constraintsOf unknown) s =
      ((checksOf net unknown (a.assign unknown position)).all (·.2),
        recordAll s (performed (checksOf net unknown (a.assign unknown position)))) := by
  have hchecks : checksOf net unknown (a.assign unknown position) =
      (net.constraintsOf unknown).filterMap fun number =>
        (verdict? net unknown position a number).map fun satisfied => (number, satisfied) := by
    refine List.filterMap_congr fun number hnumber => ?_
    rw [verdict?_eq hnet hlt hnumber]
    cases net.constraints[number]? with
    | none => rfl
    | some c =>
      dsimp only [Option.bind_eq_bind, Option.bind_some]
      cases (a.assign unknown position).get? c.left with
      | none => rfl
      | some p =>
        dsimp only [Option.bind_some]
        cases (a.assign unknown position).get? c.right <;> rfl
  rw [hchecks]
  exact consistent_eq_performed unknown position a (net.constraintsOf unknown) s

/-! ### Visits -/

/-- What a visit returns and counts, given what came of its candidates. -/
def conclude (unknown : Nat) : Option Assignment × Statistics → Option Assignment × Statistics
  | (some b, s) => (some b, s)
  | (none, s) => (none, if unknown = 0 then s else s.backtrack)

/-- The first candidate is tried before the others. -/
theorem run_findSomeM?_cons (f : Int64 → StateM Statistics (Option Assignment))
    (position : Int64) (rest : List Int64) (s : Statistics) :
    ((position :: rest).findSomeM? f).run s =
      match (f position).run s with
      | (some b, t) => (some b, t)
      | (none, t) => (rest.findSomeM? f).run t := by
  rw [List.findSomeM?_cons, StateT.run_bind]
  rcases (f position).run s with ⟨_ | b, t⟩ <;> rfl

theorem run_explore_cons (unknown : Nat) (later : List Nat) (a : Assignment) (s : Statistics) :
    (explore net (unknown :: later) a).run s = conclude unknown
      (((net.candidatesOf unknown).findSomeM? (attempt net (explore net later) unknown a)).run
        s.visit) := by
  have hvisit : (modify Statistics.visit : StateM Statistics PUnit).run s = (⟨⟩, s.visit) := rfl
  rw [explore, StateT.run_bind, hvisit]
  show (StateT.run (_ >>= _) s.visit : Id _) = _
  rw [StateT.run_bind]
  rcases ((net.candidatesOf unknown).findSomeM? (attempt net (explore net later) unknown a)).run
    s.visit with ⟨_ | b, t⟩
  · by_cases hroot : unknown = 0
    · subst hroot
      rfl
    · have hne : (unknown != 0) = true := by simpa using hroot
      simp only [conclude, if_neg hroot, hne]
      rfl
  · rfl

/-- A position is tried as the recursion tries it. -/
theorem run_attempt (hnet : net.WellFormed) {unknown : Nat} (hlt : unknown < net.unknowns.size)
    (descend : Assignment → StateM Statistics (Option Assignment)) (a : Assignment)
    (position : Int64) (s : Statistics) :
    (attempt net descend unknown a position).run s =
      match consistent net unknown position a (net.constraintsOf unknown) s with
      | (true, t) => (descend (a.assign unknown position)).run t
      | (false, t) => (none, t) := by
  rw [consistent_eq hnet hlt, attempt]
  cases (checksOf net unknown (a.assign unknown position)).all (·.2) <;> rfl

/-- The procedure visits unknowns as the recursion does, but counts the backtrack for a visit that
fails at the end of the visit. -/
theorem run_explore (hnet : net.WellFormed) (left : Nat) {unknown : Nat}
    (hleft : unknown + left = net.unknowns.size) (a : Assignment) (s : Statistics) :
    (explore net (List.range' unknown left) a).run s =
      conclude unknown (visit net left unknown a s) := by
  induction left generalizing unknown a s with
  | zero => rfl
  | succ left ih =>
    rw [List.range'_succ, run_explore_cons, visit]
    congr 1
    -- the candidates are tried one by one, the counters passed on from each to the next
    generalize s.visit = s
    generalize net.candidatesOf unknown = candidates
    induction candidates generalizing s with
    | nil => rfl
    | cons position rest ihRest =>
      rw [run_findSomeM?_cons, run_attempt hnet (by omega), tryCandidates]
      rcases consistent net unknown position a (net.constraintsOf unknown) s with ⟨_ | _, t⟩
      · exact ihRest t
      · dsimp only
        rw [ih (by omega)]
        rcases visit net left (unknown + 1) (a.assign unknown position) t with ⟨_ | b, t'⟩
        · -- the visit below was not that of the first unknown
          simp only [conclude, Nat.succ_ne_zero, if_false]
          exact ihRest t'.backtrack
        · rfl

/-- The search on a stack is the procedure. -/
theorem stackSearch_eq_explore (hnet : net.WellFormed) :
    stackSearch net none =
      .ok ((explore net (List.range net.unknowns.size) .empty).run .zero) := by
  have hroot (outcome : Option Assignment × Statistics) : conclude 0 outcome = outcome := by
    rcases outcome with ⟨_ | b, t⟩ <;> rfl
  rw [List.range_eq_range', run_explore hnet net.unknowns.size (Nat.zero_add _), hroot,
    stackSearch_eq_visit]

/-- On a well-formed network the search on a stack returns what recursive chronological backtracking
returns and counts what it counts. So does the search, except that a network that is infeasible from
the start is not searched: there is then no assignment, and nothing is counted. -/
theorem search_eq_explore_unless_infeasible (hnet : net.WellFormed) :
    stackSearch net none =
      .ok ((explore net (List.range net.unknowns.size) .empty).run .zero) ∧
    (net.isInfeasible = false → search net none =
      .ok ((explore net (List.range net.unknowns.size) .empty).run .zero)) ∧
    (net.isInfeasible = true → search net none = .ok (none, .zero)) := by
  refine ⟨stackSearch_eq_explore hnet, fun hfeasible => ?_, fun hinfeasible => ?_⟩
  · rw [search_eq_stackSearch, if_neg (by simp [hfeasible]), stackSearch_eq_explore hnet]
  · exact search_of_infeasible hinfeasible none

/-- Three unknowns over `1..2` that are to differ pairwise. -/
def pigeons : Network :=
  let u (name : String) : Unknown := ⟨name, .singleton name, .intRange 1 2, [1, 2], by decide⟩
  let differ (i j : Nat) : BinaryConstraint := ⟨i, 0, .ne, j, 0, "", ""⟩
  (((((Network.empty.addUnknown (u "x")).addUnknown (u "y")).addUnknown (u "z")).addConstraint
    (differ 0 1)).addConstraint (differ 1 2)).addConstraint (differ 0 2)

/-- The search on `pigeons` fails as the procedure does, after five visits, all but the first of
which were backtracks. -/
theorem search_eq_explore_unless_infeasible_pigeons :
    pigeons.WellFormed ∧ pigeons.isInfeasible = false ∧
      ∃ s, search pigeons none = .ok (none, s) ∧ s.nodes = 5 ∧ s.backtracks = 4 := by
  have hnet : pigeons.WellFormed := by
    refine .addConstraint (.addConstraint (.addConstraint (.addUnknown (.addUnknown (.addUnknown
      Network.wellFormed_empty ?_ _) ?_ _) ?_ _) ?_ ?_ ?_ ?_) ?_ ?_ ?_ ?_) ?_ ?_ ?_ ?_ <;>
      decide +kernel
  have hfeasible : pigeons.isInfeasible = false := by decide +kernel
  obtain ⟨-, hsearch, -⟩ := search_eq_explore_unless_infeasible hnet
  -- the procedure, unlike the search, can be evaluated
  have hcounts : ∀ outcome,
      (explore pigeons (List.range pigeons.unknowns.size) .empty).run .zero = outcome →
        outcome.1.isNone = true ∧ outcome.2.nodes = 5 ∧ outcome.2.backtracks = 4 := by
    rintro _ rfl
    decide +kernel
  generalize (explore pigeons (List.range pigeons.unknowns.size) .empty).run .zero = outcome
    at hsearch hcounts
  obtain ⟨found, s⟩ := outcome
  obtain ⟨hnone, hnodes, hbacktracks⟩ := hcounts _ rfl
  obtain rfl : found = none := by simpa using hnone
  exact ⟨hnet, hfeasible, s, hsearch hfeasible, hnodes, hbacktracks⟩

/-- An unknown over `1..2` whose candidates are all ruled out, as it is to be greater than 5. -/
def barren : Network :=
  (Network.empty.addUnknown ⟨"x", .singleton "x", .intRange 1 2, [1, 2], by decide⟩).prune 0
    fun key => Comparison.gt.holds (key + 0) 5

/-- On `barren`, which is infeasible from the start, the procedure visits the unknown before it
fails, while the search counts nothing. -/
theorem search_differs_barren :
    barren.WellFormed ∧ search barren none = .ok (none, .zero) ∧
      ((explore barren (List.range barren.unknowns.size) .empty).run .zero).2.nodes = 1 ∧
      search barren none ≠
        .ok ((explore barren (List.range barren.unknowns.size) .empty).run .zero) := by
  have hnet : barren.WellFormed := (Network.wellFormed_empty.addUnknown rfl _).prune 0 _
  have hsearch : search barren none = .ok (none, .zero) :=
    search_of_infeasible (by decide +kernel) none
  have hnodes :
      ((explore barren (List.range barren.unknowns.size) .empty).run .zero).2.nodes = 1 := by
    decide +kernel
  refine ⟨hnet, hsearch, hnodes, ?_⟩
  rw [hsearch]
  intro h
  rw [← Except.ok.inj h] at hnodes
  cases hnodes

end FiniteDomain.Search
