import FiniteDomain.Proofs.Search.Recursive
import FiniteDomain.Proofs.Search.Step
import Mathlib.Algebra.Ring.Nat

/-!
# The counters of a search balance

Every node that a search visits is on the stack or was given up, and every node given up but the
root was counted as a backtrack. So the nodes exceed the backtracks by the depth of the stack, which
at the end is the number of unknowns, or one after a failure. Every check is counted once in all and
once for its constraint, so that the tallies add up to the number of checks.

Both are invariants of the states that a search passes through, whether or not it has a limit.

## Main definitions

* `Statistics.AddsUp`: the tallies of the constraints of a network add up to the checks.
* `Search.State.Balanced`, `Search.Progress.Balanced`: the balance of nodes and backtracks.

## Main results

* `Statistics.AddsUp.record`: a check keeps the tallies adding up.
* `Search.balanced_step`, `Search.balanced_run`: steps and runs keep the balance.
* `Search.search_balances`: the counters at the end of a search without a limit.
-/

namespace FiniteDomain

namespace Statistics

/-- The tallies are those of constraints of the network, none has more rejections than checks, and
together they make up the number of checks. -/
structure AddsUp (net : Network) (s : Statistics) : Prop where
  /-- Every check was counted for one constraint. -/
  checks_eq : s.checks = (s.toList.map fun entry => entry.2.checks).sum
  /-- Only checks are rejections. -/
  rejections_le : ∀ entry ∈ s.toList, entry.2.rejections ≤ entry.2.checks
  /-- Only constraints of the network are checked. -/
  number_lt : ∀ entry ∈ s.toList, entry.1 < net.constraints.size

variable {net : Network} {s : Statistics}

/-- Before the first check all counters are 0. -/
theorem addsUp_zero : zero.AddsUp net := by
  have hnil : zero.toList = [] := rfl
  refine ⟨?_, ?_, ?_⟩
  · rw [hnil]
    rfl
  · simp [hnil]
  · simp [hnil]

/-- The tallies of the other constraints. -/
def others (s : Statistics) (number : Nat) : List (Nat × Tally) :=
  s.toList.filter fun entry => ¬ number == entry.1

theorem mem_toList_iff {entry : Nat × Tally} :
    entry ∈ s.toList ↔ s.tallies[entry.1]? = some entry.2 :=
  Std.TreeMap.mem_toList_iff_getElem?_eq_some

/-- A check changes the tally of its constraint and leaves the others. -/
theorem toList_record_perm (s : Statistics) (number : Nat) (satisfied : Bool) :
    (s.record number satisfied).toList.Perm
      ((number, (s.tally number).count satisfied) :: s.others number) :=
  Std.TreeMap.toList_insert_perm

/-- The checks of a constraint and those of the others are all checks. -/
theorem sum_checks_eq (s : Statistics) (number : Nat) :
    (s.toList.map fun entry => entry.2.checks).sum =
      (s.tally number).checks + ((s.others number).map fun entry => entry.2.checks).sum := by
  cases htally : s.tallies[number]? with
  | none =>
    -- the constraint has no tally yet, so that all tallies are those of others
    have hall : s.others number = s.toList := by
      refine List.filter_eq_self.2 fun entry hentry => ?_
      have hne : number ≠ entry.1 := by
        rintro rfl
        rw [mem_toList_iff.1 hentry] at htally
        cases htally
      simpa using hne
    rw [hall, tally, htally]
    simp
  | some t =>
    -- putting the tally of the constraint in again changes nothing
    have hsame : (s.tallies.insert number t).Equiv s.tallies := by
      refine .of_forall_constGet?_eq fun n => ?_
      rw [Std.TreeMap.getElem?_insert]
      split
      case isTrue heq => rw [← htally, Std.LawfulEqCmp.eq_of_compare heq]
      case isFalse => rfl
    have hperm : s.toList.Perm ((number, t) :: s.others number) := by
      have hinsert : (s.tallies.insert number t).toList.Perm ((number, t) :: s.others number) :=
        Std.TreeMap.toList_insert_perm
      rwa [hsame.toList_eq] at hinsert
    rw [(hperm.map fun entry => entry.2.checks).sum_nat, tally, htally]
    simp

/-- A check of a constraint of the network is counted once in all and once in its tally. -/
theorem AddsUp.record (h : s.AddsUp net) {number : Nat} (hnumber : number < net.constraints.size)
    (satisfied : Bool) : (s.record number satisfied).AddsUp net := by
  have hperm := s.toList_record_perm number satisfied
  have hothers : s.others number ⊆ s.toList := fun _ hentry => (List.mem_filter.1 hentry).1
  -- the tally before the check, which may be the empty one, has no more rejections than checks
  have htally : (s.tally number).rejections ≤ (s.tally number).checks := by
    rw [tally]
    cases hget : s.tallies[number]? with
    | none => exact Nat.le_refl 0
    | some t => exact h.rejections_le (number, t) (mem_toList_iff.2 hget)
  refine ⟨?_, ?_, ?_⟩
  · calc (s.record number satisfied).checks = s.checks + 1 := rfl
      _ = (s.tally number).checks + 1 +
          ((s.others number).map fun entry => entry.2.checks).sum := by
        rw [h.checks_eq, s.sum_checks_eq number]
        omega
      _ = ((s.record number satisfied).toList.map fun entry => entry.2.checks).sum := by
        rw [(hperm.map fun entry => entry.2.checks).sum_nat]
        rfl
  · intro entry hentry
    rcases List.mem_cons.1 (hperm.mem_iff.1 hentry) with rfl | hentry
    · cases satisfied with
      | true => exact Nat.le_succ_of_le htally
      | false => exact Nat.succ_le_succ htally
    · exact h.rejections_le entry (hothers hentry)
  · intro entry hentry
    rcases List.mem_cons.1 (hperm.mem_iff.1 hentry) with rfl | hentry
    · exact hnumber
    · exact h.number_lt entry (hothers hentry)

end Statistics

namespace Search

variable {net : Network} {limit : Option Nat}

/-! ### The stack -/

/-- The frames of a stack are those of the first unknowns, the latest on top. -/
def Numbered : List Frame → Prop
  | [] => True
  | frame :: below => frame.unknown = below.length ∧ Numbered below

/-- What holds of the states that a search passes through: each node counted is on the stack, or it
was counted as a backtrack, or it was the root and was given up last. -/
structure State.Balanced (net : Network) (s : State) : Prop where
  /-- The frames are those of the first unknowns. -/
  numbered : Numbered s.stack
  /-- There are no more frames than unknowns. -/
  length_le : s.stack.length ≤ net.unknowns.size
  /-- The tallies add up. -/
  addsUp : s.statistics.AddsUp net
  /-- The nodes that were not counted as backtracks are on the stack, the root apart. -/
  nodes_eq : s.statistics.nodes = s.statistics.backtracks + max 1 s.stack.length

/-- Where a search stands, its counters balance. -/
def Progress.Balanced (net : Network) : Progress → Prop
  | running s => s.Balanced net
  | found _ s => s.AddsUp net ∧ s.nodes = s.backtracks + net.unknowns.size
  | exhausted s => s.AddsUp net ∧ s.nodes = s.backtracks + 1
  | abandoned _ => True

/-! ### Steps -/

/-- A check adds 1 to the total and to the tally of its constraint. -/
theorem addsUp_nextChoice {s : Statistics} (hs : s.AddsUp net) (unknown : Nat) (a : Assignment)
    (candidates : List Int64) : (nextChoice net unknown a candidates s).2.AddsUp net :=
  nextChoice_invariant (fun _ _ satisfied hnumber ht => ht.record hnumber satisfied) unknown a
    candidates hs

/-- Opening the frame of the next unknown keeps the balance, since it counts the node that it puts
on the stack. -/
theorem balanced_enter {unknown : Nat} {below : List Frame} (hbelow : Numbered below)
    (hunknown : unknown = below.length) (hlt : unknown < net.unknowns.size) {s : Statistics}
    (hs : s.AddsUp net) (hnodes : s.nodes = s.backtracks + below.length) (a : Assignment) :
    (enter net limit unknown a below s).Balanced net := by
  have hbalanced : State.Balanced net
      ⟨⟨unknown, net.candidatesOf unknown, a⟩ :: below, s.visit⟩ := by
    refine ⟨⟨hunknown, hbelow⟩, ?_, ⟨hs.checks_eq, hs.rejections_le, hs.number_lt⟩, ?_⟩
    · simp only [List.length_cons]
      omega
    · simp only [Statistics.visit, List.length_cons]
      omega
  unfold enter
  cases limit with
  | none => exact hbalanced
  | some bound =>
    dsimp only
    split
    · trivial
    · exact hbalanced

/-- A step keeps the balance. -/
theorem balanced_step {s : State} (h : s.Balanced net) : (step net limit s).Balanced net := by
  have hnumbered := h.numbered
  have hlength := h.length_le
  have hnodes := h.nodes_eq
  obtain ⟨hstack, hstep⟩ | ⟨frame, below, choice, t, hstack, hchoice, hcase⟩ := step_cases net s
  · rw [hstep]
    refine ⟨h.addsUp, ?_⟩
    simpa [hstack] using hnodes
  rw [hstack] at hnumbered hlength hnodes
  simp only [List.length_cons] at hlength hnodes
  obtain ⟨hframe, hbelow⟩ := hnumbered
  -- the checks that the choice took are in the tallies and count neither nodes nor backtracks
  have ht := addsUp_nextChoice h.addsUp frame.unknown frame.assignment frame.remaining
  obtain ⟨hnodes', hbacktracks'⟩ :=
    nextChoice_visits net frame.unknown frame.assignment frame.remaining s.statistics
  rw [hchoice] at ht hnodes' hbacktracks'
  dsimp only at ht hnodes' hbacktracks'
  obtain ⟨-, hstep⟩ | ⟨position, rest, -, ⟨hlast, hstep⟩ | ⟨hmore, hstep⟩⟩ := hcase
  · -- the top frame is given up, which is a backtrack unless it was the root
    rw [hstep]
    cases below with
    | nil =>
      refine ⟨hbelow, Nat.zero_le _, ht, ?_⟩
      simp only [List.isEmpty_nil, if_true, List.length_nil] at hnodes ⊢
      omega
    | cons next below =>
      refine ⟨hbelow, Nat.le_of_succ_le hlength, ⟨ht.checks_eq, ht.rejections_le, ht.number_lt⟩, ?_⟩
      simp only [List.isEmpty_cons, Bool.false_eq_true, if_false, Statistics.backtrack,
        List.length_cons] at hnodes ⊢
      omega
  · -- the frames are those of all unknowns
    rw [hstep]
    refine ⟨ht, ?_⟩
    omega
  · -- the frame that is opened is that of the unknown after the top one
    have hnext : Numbered ({ frame with remaining := rest } :: below) := ⟨hframe, hbelow⟩
    rw [hstep]
    refine balanced_enter hnext ?_ hmore ht ?_ _
    · rw [List.length_cons, hframe]
    · rw [List.length_cons]
      omega

/-! ### Runs -/

/-- The counters at the end of a run that starts with a balance: after a success there is a node for
each unknown that was not given up, and after a failure the root alone is not a backtrack. -/
theorem balanced_run {p : Progress} (hp : p.Balanced net) {found : Option Assignment}
    {t : Statistics} (h : run net limit p = .ok (found, t)) :
    t.AddsUp net ∧ t.nodes = t.backtracks + if found.isSome then net.unknowns.size else 1 := by
  induction p using run.induct net limit with
  | case1 s ih =>
    rw [run_running] at h
    exact ih (balanced_step hp) h
  | case2 a s =>
    rw [run] at h
    cases h
    exact hp
  | case3 s =>
    rw [run] at h
    cases h
    exact hp
  | case4 bound =>
    rw [run] at h
    cases h

/-- The counters of a search without a limit balance. The checks are the sum of the tallies, no
constraint has more rejections than checks, and only constraints of the network have tallies. A
search that succeeds has visited as many nodes as there were backtracks and as there are unknowns;
one that fails has visited one node more than there were backtracks. Nothing is counted for a
network that is infeasible from the start or has no unknowns. -/
theorem search_balances (net : Network) :
    ∃ found statistics, search net none = .ok (found, statistics) ∧
      (net.isInfeasible = false → 0 < net.unknowns.size →
        (found.isSome = true → statistics.nodes = statistics.backtracks + net.unknowns.size) ∧
        (found = none → statistics.nodes = statistics.backtracks + 1)) ∧
      statistics.AddsUp net ∧
      (net.isInfeasible = true ∨ net.unknowns.size = 0 → statistics = .zero) := by
  obtain ⟨found, t, hsearch⟩ := exists_search_none net
  refine ⟨found, t, hsearch, ?_⟩
  rw [search] at hsearch
  by_cases hinfeasible : net.isInfeasible = true
  · rw [if_pos hinfeasible] at hsearch
    cases hsearch
    simp [hinfeasible, Statistics.addsUp_zero]
  rw [if_neg hinfeasible] at hsearch
  by_cases hempty : net.unknowns.isEmpty = true
  · rw [if_pos hempty] at hsearch
    cases hsearch
    have hsize : net.unknowns.size = 0 := by simpa using hempty
    simp [hsize, Statistics.addsUp_zero]
  rw [if_neg hempty] at hsearch
  have hsize : 0 < net.unknowns.size := Array.size_pos_iff.2 (by simpa using hempty)
  -- the search starts with the root on the stack
  have hstart : (enter net none 0 .empty [] .zero).Balanced net :=
    balanced_enter (show Numbered [] from trivial) rfl hsize Statistics.addsUp_zero rfl _
  obtain ⟨haddsUp, hnodes⟩ := balanced_run hstart hsearch
  refine ⟨fun _ _ => ⟨fun hfound => ?_, fun hfound => ?_⟩, haddsUp, fun hnone => ?_⟩
  · rwa [if_pos hfound] at hnodes
  · rwa [hfound] at hnodes
  · rcases hnone with hnone | hnone
    · exact absurd hnone hinfeasible
    · omega

end Search

end FiniteDomain
