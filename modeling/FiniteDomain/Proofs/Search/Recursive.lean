import FiniteDomain.Search.Backtracking

/-!
# Recursive backtracking

Chronological backtracking as a recursion over the unknowns: visit the next unknown, try its
candidates in ascending order, descend on each that agrees with the unknowns assigned before, and
count a backtrack for each descent that fails. The search on a stack of frames makes the same
choices and the same counts.

## Main definitions

* `Search.tryCandidates`: tries candidates of one unknown, descending on each consistent one.
* `Search.visit`: the recursion over the unknowns that are left.
* `Search.stackSearch`: the search on a stack of frames, on whatever network.

## Main results

* `run_frame`: running a stack first settles its top frame as the recursion does, then goes on with
  the frames below.
* `stackSearch_eq_visit`, `search_eq_visit`: without a limit the search is the recursion from the
  first unknown.
* `exists_search_none`: without a limit the search always ends.
-/

namespace FiniteDomain.Search

variable (net : Network)

/-- Tries the given candidates of an unknown in order, with `descend` for the unknowns after it, up
to the first that leads to an assignment of all. -/
def tryCandidates (descend : Assignment → Statistics → Option Assignment × Statistics)
    (unknown : Nat) (a : Assignment) :
    List Int64 → Statistics → Option Assignment × Statistics
  | [], s => (none, s)
  | position :: rest, s =>
    match consistent net unknown position a (net.constraintsOf unknown) s with
    | (false, s) => tryCandidates descend unknown a rest s
    | (true, s) =>
      match descend (a.assign unknown position) s with
      | (some b, s) => (some b, s)
      | (none, s) => tryCandidates descend unknown a rest s.backtrack

/-- Visits the unknowns from a number on, of which `left` are left. -/
def visit : (left : Nat) → (unknown : Nat) → Assignment → Statistics →
    Option Assignment × Statistics
  | 0, _, a, s => (some a, s)
  | left + 1, unknown, a, s =>
    tryCandidates net (visit left (unknown + 1)) unknown a (net.candidatesOf unknown) s.visit

/-- The search on a stack of frames, whether or not the network is known to be infeasible. -/
def stackSearch (limit : Option Nat) : Except SolveError (Option Assignment × Statistics) :=
  if net.unknowns.isEmpty then .ok (some .empty, .zero)
  else run net limit (enter net limit 0 .empty [] .zero)

/-- A network is searched on a stack, unless it is known to be infeasible. -/
theorem search_eq_stackSearch (limit : Option Nat) :
    search net limit = if net.isInfeasible then .ok (none, .zero) else stackSearch net limit :=
  rfl

/-- A running search goes on with its next step. -/
theorem run_running (limit : Option Nat) (s : State) :
    run net limit (.running s) = run net limit (step net limit s) := by
  rw [run]

/-- Without a limit a frame can always be opened. -/
theorem enter_none (unknown : Nat) (a : Assignment) (below : List Frame) (s : Statistics) :
    enter net none unknown a below s =
      .running ⟨⟨unknown, net.candidatesOf unknown, a⟩ :: below, s.visit⟩ :=
  rfl

/-- A frame without candidates is given up. -/
theorem step_nil (unknown : Nat) (a : Assignment) (below : List Frame) (s : Statistics) :
    step net none ⟨⟨unknown, [], a⟩ :: below, s⟩ =
      .running ⟨below, if below.isEmpty then s else s.backtrack⟩ :=
  rfl

variable {net}

/-- A candidate that is not consistent only costs its checks. -/
theorem step_inconsistent {unknown : Nat} {position : Int64} {rest : List Int64} {a : Assignment}
    {below : List Frame} {s t : Statistics}
    (h : consistent net unknown position a (net.constraintsOf unknown) s = (false, t)) :
    step net none ⟨⟨unknown, position :: rest, a⟩ :: below, s⟩ =
      step net none ⟨⟨unknown, rest, a⟩ :: below, t⟩ := by
  simp only [step, nextChoice, h]

/-- A consistent candidate of the last unknown completes the assignment. -/
theorem step_last {unknown : Nat} {position : Int64} {rest : List Int64} {a : Assignment}
    {below : List Frame} {s t : Statistics} (hlast : net.unknowns.size ≤ unknown + 1)
    (h : consistent net unknown position a (net.constraintsOf unknown) s = (true, t)) :
    step net none ⟨⟨unknown, position :: rest, a⟩ :: below, s⟩ =
      .found (a.assign unknown position) t := by
  simp only [step, nextChoice, h, if_pos hlast]

/-- A consistent candidate of another unknown opens the frame of the next one. -/
theorem step_descend {unknown : Nat} {position : Int64} {rest : List Int64} {a : Assignment}
    {below : List Frame} {s t : Statistics} (hmore : unknown + 1 < net.unknowns.size)
    (h : consistent net unknown position a (net.constraintsOf unknown) s = (true, t)) :
    step net none ⟨⟨unknown, position :: rest, a⟩ :: below, s⟩ =
      .running ⟨⟨unknown + 1, net.candidatesOf (unknown + 1), a.assign unknown position⟩ ::
        ⟨unknown, rest, a⟩ :: below, t.visit⟩ := by
  simp only [step, nextChoice, h, if_neg (Nat.not_le_of_gt hmore), enter_none]

/-- Running a stack settles its top frame as the recursion does: an assignment that the recursion
finds ends the run, and otherwise the frame is given up. -/
theorem run_frame (left : Nat) {unknown : Nat} (hleft : unknown + left + 1 = net.unknowns.size)
    (candidates : List Int64) (a : Assignment) (below : List Frame) (s : Statistics) :
    run net none (.running ⟨⟨unknown, candidates, a⟩ :: below, s⟩) =
      match tryCandidates net (visit net left (unknown + 1)) unknown a candidates s with
      | (some b, t) => .ok (some b, t)
      | (none, t) => run net none (.running ⟨below, if below.isEmpty then t else t.backtrack⟩) := by
  -- the outer induction is on the unknowns below this one, the inner on the candidates left
  induction left generalizing unknown candidates a below s with
  | zero =>
    induction candidates generalizing s with
    | nil => rw [run_running, step_nil, tryCandidates]
    | cons position rest ih =>
      rcases hc : consistent net unknown position a (net.constraintsOf unknown) s with ⟨_ | _, t⟩
      · rw [run_running, step_inconsistent hc, ← run_running, ih t, tryCandidates, hc]
      · rw [run_running, step_last (by omega) hc, run, tryCandidates, hc]
        simp only [visit]
  | succ left ihLeft =>
    induction candidates generalizing s with
    | nil => rw [run_running, step_nil, tryCandidates]
    | cons position rest ih =>
      rcases hc : consistent net unknown position a (net.constraintsOf unknown) s with ⟨_ | _, t⟩
      · rw [run_running, step_inconsistent hc, ← run_running, ih t, tryCandidates, hc]
      · rw [run_running, step_descend (by omega) hc, ihLeft (by omega), tryCandidates, hc]
        simp only [visit]
        rcases tryCandidates net (visit net left (unknown + 1 + 1)) (unknown + 1)
          (a.assign unknown position) (net.candidatesOf (unknown + 1)) t.visit with ⟨_ | b, t'⟩
        -- the descent failed: the stack is back at this frame, one backtrack later
        · exact ih t'.backtrack
        · rfl

/-- Without a limit, the search on a stack is the recursion from the first unknown. -/
theorem stackSearch_eq_visit (net : Network) :
    stackSearch net none = .ok (visit net net.unknowns.size 0 .empty .zero) := by
  rw [stackSearch]
  split
  case isTrue hempty =>
    have hsize : net.unknowns.size = 0 := by simpa using hempty
    rw [hsize, visit]
  case isFalse hempty =>
    obtain ⟨left, hleft⟩ : ∃ left, net.unknowns.size = left + 1 :=
      Nat.exists_eq_succ_of_ne_zero (by simpa using hempty)
    rw [enter_none, run_frame left (by omega), hleft, visit]
    rcases tryCandidates net (visit net left (0 + 1)) 0 .empty (net.candidatesOf 0)
      Statistics.zero.visit with ⟨_ | b, t⟩
    · show run net none (.running ⟨[], t⟩) = .ok (none, t)
      rw [run_running, step, run]
    · rfl

/-- Without a limit, a network that is not infeasible from the start is searched by the recursion
from its first unknown. -/
theorem search_eq_visit (hfeasible : net.isInfeasible = false) :
    search net none = .ok (visit net net.unknowns.size 0 .empty .zero) := by
  rw [search_eq_stackSearch, if_neg (by simp [hfeasible]), stackSearch_eq_visit]

/-- What the search through such a network finds is what the recursion finds. -/
theorem fst_visit_of_search (hfeasible : net.isInfeasible = false) {found : Option Assignment}
    {statistics : Statistics} (h : search net none = .ok (found, statistics)) :
    (visit net net.unknowns.size 0 .empty .zero).1 = found := by
  rw [search_eq_visit hfeasible] at h
  exact congrArg Prod.fst (Except.ok.inj h)

/-- A network that is infeasible from the start is not searched. -/
theorem search_of_infeasible (h : net.isInfeasible = true) (limit : Option Nat) :
    search net limit = .ok (none, .zero) := by
  rw [search, if_pos h]

/-- The search without a limit always ends. -/
theorem exists_search_none (net : Network) :
    ∃ found statistics, search net none = .ok (found, statistics) := by
  cases hfeasible : net.isInfeasible with
  | true => exact ⟨none, .zero, search_of_infeasible hfeasible none⟩
  | false => exact ⟨_, _, search_eq_visit hfeasible⟩

end FiniteDomain.Search
