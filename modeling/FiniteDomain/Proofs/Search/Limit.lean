import FiniteDomain.Proofs.Search.Recursive
import FiniteDomain.Proofs.Search.Step

/-!
# Searches with a limit

A limit on the number of nodes only cuts a search off. The search with a limit makes the steps of
the search without one as long as these stay within the limit, and the first step that does not is
the last one. Nodes are never uncounted, so a search is cut off exactly when the one without a limit
visits more nodes than allowed.

## Main definitions

* `Progress.nodes`: the nodes counted so far.
* `Progress.cut`: what a limit makes of a step that is made without one.

## Main results

* `step_none_cases`: which steps a limit can cut off.
* `step_some`, `run_cut`: steps and runs with a limit, in terms of those without.
* `search_some`: the search with a limit, in terms of the one without.
* `search_limit_iff`: when a search is cut off, and that it ends alike otherwise.
-/

namespace FiniteDomain.Search

variable {net : Network} {limit : Option Nat} {bound : Nat}

/-- The nodes counted so far; a search that was cut off does not tell. -/
def Progress.nodes : Progress → Nat
  | running s => s.statistics.nodes
  | found _ s => s.nodes
  | exhausted s => s.nodes
  | abandoned _ => 0

/-- What a limit leaves of a step: a step that counts more nodes than allowed is cut off. -/
def Progress.cut (bound : Nat) (p : Progress) : Progress :=
  if bound < p.nodes then .abandoned bound else p

/-! ### Steps -/

theorem enter_some (unknown : Nat) (a : Assignment) (below : List Frame) (s : Statistics) :
    enter net (some bound) unknown a below s = (enter net none unknown a below s).cut bound :=
  rfl

/-- Without a limit, a step counts the node that it opens or none at all. -/
theorem step_none_cases (net : Network) (s : State) :
    ((step net none s).nodes = s.statistics.nodes ∧
      ∀ bound, step net (some bound) s = step net none s) ∨
    (step net none s).nodes = s.statistics.nodes + 1 ∧
      ∀ bound, step net (some bound) s = (step net none s).cut bound := by
  obtain ⟨-, hstep⟩ | ⟨frame, below, choice, t, -, hchoice, hcase⟩ := step_cases net s
  · exact .inl ⟨by rw [hstep, Progress.nodes], fun bound => by rw [hstep, hstep]⟩
  · obtain ⟨hnodes, -⟩ :=
      nextChoice_visits net frame.unknown frame.assignment frame.remaining s.statistics
    rw [hchoice] at hnodes
    obtain ⟨-, hstep⟩ | ⟨position, rest, -, ⟨-, hstep⟩ | ⟨-, hstep⟩⟩ := hcase
    · refine .inl ⟨?_, fun bound => by rw [hstep, hstep]⟩
      rw [hstep, Progress.nodes]
      dsimp only
      split <;> exact hnodes
    · exact .inl ⟨by rw [hstep, Progress.nodes, hnodes], fun bound => by rw [hstep, hstep]⟩
    · refine .inr ⟨?_, fun bound => by rw [hstep, hstep, enter_some]⟩
      rw [hstep, enter_none, Progress.nodes]
      exact congrArg (· + 1) hnodes

/-- Within its limit, a search makes the step that it makes without one, unless that is cut off. -/
theorem step_some {s : State} (hs : s.statistics.nodes ≤ bound) :
    step net (some bound) s = (step net none s).cut bound := by
  obtain ⟨hnodes, hstep⟩ | ⟨-, hstep⟩ := step_none_cases net s
  · rw [hstep, Progress.cut, if_neg (by omega)]
  · exact hstep bound

/-- No step uncounts a node. -/
theorem nodes_le_step (s : State) : s.statistics.nodes ≤ (step net none s).nodes := by
  obtain ⟨hnodes, -⟩ | ⟨hnodes, -⟩ := step_none_cases net s <;> omega

/-! ### Runs -/

/-- No run uncounts a node. -/
theorem nodes_le_run {p : Progress} {found : Option Assignment} {t : Statistics}
    (h : run net none p = .ok (found, t)) : p.nodes ≤ t.nodes := by
  induction p using run.induct net none with
  | case1 s ih =>
    rw [run_running] at h
    exact Nat.le_trans (nodes_le_step s) (ih h)
  | case2 a s =>
    rw [run] at h
    cases h
    exact Nat.le_refl _
  | case3 s =>
    rw [run] at h
    cases h
    exact Nat.le_refl _
  | case4 bound => exact Nat.zero_le _

/-- With a limit, a run goes on like the run without one, up to the first step that is cut off. -/
theorem run_cut {p : Progress} {found : Option Assignment} {t : Statistics}
    (h : run net none p = .ok (found, t)) :
    run net (some bound) (p.cut bound) =
      if bound < t.nodes then .error (.limitReached bound) else .ok (found, t) := by
  -- the induction is on the run without a limit, which the other follows until it is cut off
  induction p using run.induct net none with
  | case1 s ih =>
    rw [Progress.cut]
    split
    case isTrue hcut =>
      -- the nodes that were too many are still counted at the end
      have hle := nodes_le_run h
      rw [run, if_pos (by omega)]
    case isFalse hwithin =>
      rw [run_running] at h ⊢
      rw [step_some (Nat.le_of_not_lt hwithin)]
      exact ih h
  | case2 a s =>
    rw [run] at h
    cases h
    rw [Progress.cut]
    split <;> simp_all [run, Progress.nodes]
  | case3 s =>
    rw [run] at h
    cases h
    rw [Progress.cut]
    split <;> simp_all [run, Progress.nodes]
  | case4 _ =>
    rw [run] at h
    cases h

/-! ### Searches -/

/-- With a limit, the search ends as it does without one, unless more nodes than allowed are visited
there. -/
theorem search_some {found : Option Assignment} {t : Statistics}
    (h : search net none = .ok (found, t)) :
    search net (some bound) =
      if bound < t.nodes then .error (.limitReached bound) else .ok (found, t) := by
  rw [search] at h ⊢
  by_cases hinfeasible : net.isInfeasible = true
  · -- without a search no node is counted
    rw [if_pos hinfeasible] at h ⊢
    cases h
    rfl
  rw [if_neg hinfeasible] at h ⊢
  by_cases hempty : net.unknowns.isEmpty = true
  · rw [if_pos hempty] at h ⊢
    cases h
    rfl
  rw [if_neg hempty] at h ⊢
  exact run_cut h

/-- A search that ends within its limit ends alike without one. -/
theorem search_none_of_eq_ok {result : Option Assignment × Statistics}
    (h : search net limit = .ok result) : search net none = .ok result := by
  cases limit with
  | none => exact h
  | some bound =>
    obtain ⟨found, t, hsearch⟩ := exists_search_none net
    rw [search_some hsearch] at h
    split at h
    · cases h
    · rw [hsearch, h]

/-- A limit only cuts a search off. The search with a limit fails exactly when the search without
one visits more nodes than allowed, and then says so; otherwise it ends with the same assignment, or
alike with none, and with the same counters. -/
theorem search_limit_iff (net : Network) (bound : Nat) :
    ∃ found statistics, search net none = .ok (found, statistics) ∧
      (search net (some bound) = .error (.limitReached bound) ↔ bound < statistics.nodes) ∧
      (statistics.nodes ≤ bound → search net (some bound) = .ok (found, statistics)) := by
  obtain ⟨found, t, hsearch⟩ := exists_search_none net
  refine ⟨found, t, hsearch, ?_, ?_⟩
  · rw [search_some hsearch]
    split
    case isTrue hcut => exact iff_of_true rfl hcut
    case isFalse hwithin => exact iff_of_false (by simp) hwithin
  · intro hwithin
    rw [search_some hsearch, if_neg (Nat.not_lt_of_ge hwithin)]

end FiniteDomain.Search
