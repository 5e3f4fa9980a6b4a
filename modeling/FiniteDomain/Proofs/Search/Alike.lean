import FiniteDomain.Proofs.Network.Effects
import FiniteDomain.Proofs.Search.FirstSolution
import FiniteDomain.Proofs.Search.Step

/-!
# Searches through networks that are alike

Networks with the same unknowns, candidates and constraints, the latter in any order and any number,
are searched by the same moves: the same nodes are visited, the same candidates are chosen and the
same descents are given up. Only the checks differ, since a candidate that violates a constraint is
turned down at the first one that it is checked against.

The two searches go in step. Their states have the same stack and the same counts of nodes and
backtracks, and this is kept by each step, also by one that a limit cuts off.

## Main definitions

* `Statistics.moves`: the counts of nodes and backtracks.
* `Search.Progress.Alike`: searches that have made the same moves.

## Main results

* `Search.fst_consistent_iff_forall_mem`: which candidates are consistent, in terms of all
  constraints of the network.
* `Search.step_alike`, `Search.run_alike`, `Search.search_alike`: networks that are alike are
  searched by the same moves.
-/

namespace FiniteDomain

namespace Statistics

/-- The counts that do not depend on what was checked. -/
def moves (s : Statistics) : Nat × Nat :=
  (s.nodes, s.backtracks)

/-- A node counts the same for both. -/
theorem moves_visit {s s' : Statistics} (h : s.moves = s'.moves) :
    s.visit.moves = s'.visit.moves := by
  simp_all [moves, visit]

/-- A backtrack counts the same for both. -/
theorem moves_backtrack {s s' : Statistics} (h : s.moves = s'.moves) :
    s.backtrack.moves = s'.backtrack.moves := by
  simp_all [moves, backtrack]

end Statistics

namespace Search

variable {net net' : Network} {limit : Option Nat}

/-! ### Checks -/

/-- Checks are not moves. -/
theorem moves_nextChoice (unknown : Nat) (a : Assignment) (candidates : List Int64)
    (s : Statistics) : (nextChoice net unknown a candidates s).2.moves = s.moves :=
  nextChoice_invariant (P := fun t => t.moves = s.moves) (fun _ _ _ _ h => h) unknown a candidates
    rfl

/-- A position is found consistent exactly when it satisfies each constraint of the network between
its unknown and one that has a position. -/
theorem fst_consistent_iff_forall_mem (hnet : net.Sound) (unknown : Nat) (position : Int64)
    (a : Assignment) (s : Statistics) :
    (consistent net unknown position a (net.constraintsOf unknown) s).1 = true ↔
      ∀ c ∈ net.constraints, ∀ other q, c.other? unknown = some other → a.get? other = some q →
        c.holdsFor unknown (net.keyOf unknown position) (net.keyOf other q) = true := by
  rw [fst_consistent_iff]
  constructor
  · intro h c hc other q hother hq
    -- a constraint at this unknown is one of those that the unknown lists
    obtain ⟨number, hnumber⟩ := Array.mem_iff_getElem?.1 hc
    have hends : c.left = unknown ∨ c.right = unknown := by
      rcases Network.holdsFor_iff hother 0 0 with ⟨hleft, -, -⟩ | ⟨hright, -, -⟩
      · exact .inl hleft
      · exact .inr hright
    have hlt : unknown < net.unknowns.size := by
      rcases hends with rfl | rfl
      · exact hnet.wellFormed.left_lt c hc
      · exact hnet.wellFormed.right_lt c hc
    have hlisted : number ∈ net.constraintsOf unknown :=
      (hnet.wellFormed.mem_constraintsOf unknown hlt number).2 ⟨c, hnumber, hends⟩
    exact h number hlisted c hnumber other q hother hq
  · intro h number _ c hc
    exact h c (Array.mem_of_getElem? hc)

/-! ### Steps -/

/-- Searches that have made the same moves. -/
inductive Progress.Alike : Progress → Progress → Prop where
  /-- Both have the same to do. -/
  | running {stack : List Frame} {s s' : Statistics} (h : s.moves = s'.moves) :
    Alike (.running ⟨stack, s⟩) (.running ⟨stack, s'⟩)
  /-- Both have found the same. -/
  | found {a : Assignment} {s s' : Statistics} (h : s.moves = s'.moves) :
    Alike (.found a s) (.found a s')
  /-- Both have found nothing. -/
  | exhausted {s s' : Statistics} (h : s.moves = s'.moves) : Alike (.exhausted s) (.exhausted s')
  /-- Both were cut off. -/
  | abandoned (bound : Nat) : Alike (.abandoned bound) (.abandoned bound)

section

variable (halike : net.Alike net') (hnet : net.Sound) (hnet' : net'.Sound)

include halike

/-- Keys depend on the domains, which are the same. -/
theorem keyOf_alike : net.keyOf = net'.keyOf := by
  funext n p
  rw [Network.keyOf, Network.keyOf, halike.unknowns_eq]

/-- Both enter a node with the same candidates, or stop before it. -/
theorem enter_alike {unknown : Nat} {a : Assignment} {below : List Frame} {s s' : Statistics}
    (h : s.moves = s'.moves) :
    (enter net limit unknown a below s).Alike (enter net' limit unknown a below s') := by
  have hvisit := Statistics.moves_visit h
  have hnodes : s.visit.nodes = s'.visit.nodes := congrArg Prod.fst hvisit
  have hcandidates : net.candidatesOf unknown = net'.candidatesOf unknown := by
    rw [Network.candidatesOf, Network.candidatesOf, halike.unknowns_eq]
  unfold enter
  dsimp only
  rw [hnodes, hcandidates]
  cases limit with
  | none => exact .running hvisit
  | some bound =>
    dsimp only
    split
    · exact .abandoned bound
    · exact .running hvisit

include hnet hnet'

/-- A position is refused by both or by neither, after however many checks. -/
theorem fst_consistent_alike (unknown : Nat) (position : Int64) (a : Assignment)
    (s s' : Statistics) :
    (consistent net unknown position a (net.constraintsOf unknown) s).1 =
      (consistent net' unknown position a (net'.constraintsOf unknown) s').1 := by
  rw [Bool.eq_iff_iff, fst_consistent_iff_forall_mem hnet, fst_consistent_iff_forall_mem hnet',
    keyOf_alike halike]
  exact forall_congr' fun c => imp_congr_left (halike.mem_constraints_iff c)

/-- Both choose the same position. -/
theorem fst_nextChoice_alike (unknown : Nat) (a : Assignment) (candidates : List Int64)
    (s s' : Statistics) :
    (nextChoice net unknown a candidates s).1 = (nextChoice net' unknown a candidates s').1 := by
  induction candidates generalizing s s' with
  | nil => rfl
  | cons position rest ih =>
    have hsame := fst_consistent_alike halike hnet hnet' unknown position a s s'
    rw [nextChoice, nextChoice]
    rcases hc : consistent net unknown position a (net.constraintsOf unknown) s with ⟨b, t⟩
    rcases hc' : consistent net' unknown position a (net'.constraintsOf unknown) s' with ⟨b', t'⟩
    rw [hc, hc'] at hsame
    -- the candidate is consistent in both networks or in neither
    obtain rfl : b = b' := hsame
    cases b with
    | true => rfl
    | false => exact ih t t'

/-- A step makes the same move in both searches. -/
theorem step_alike (stack : List Frame) {s s' : Statistics} (h : s.moves = s'.moves) :
    (step net limit ⟨stack, s⟩).Alike (step net' limit ⟨stack, s'⟩) := by
  cases stack with
  | nil => exact .exhausted h
  | cons frame below =>
    -- the same position is chosen, after however many checks
    have hsame := fst_nextChoice_alike halike hnet hnet' frame.unknown frame.assignment
      frame.remaining s s'
    have hmoves : (nextChoice net frame.unknown frame.assignment frame.remaining s).2.moves =
        (nextChoice net' frame.unknown frame.assignment frame.remaining s').2.moves := by
      rw [moves_nextChoice, moves_nextChoice, h]
    unfold step
    dsimp only
    rcases hc : nextChoice net frame.unknown frame.assignment frame.remaining s with ⟨choice, t⟩
    rcases hc' : nextChoice net' frame.unknown frame.assignment frame.remaining s' with
      ⟨choice', t'⟩
    rw [hc, hc'] at hsame hmoves
    obtain rfl : choice = choice' := hsame
    rcases choice with _ | ⟨position, rest⟩
    · -- both give the frame up
      refine .running ?_
      split
      · exact hmoves
      · exact Statistics.moves_backtrack hmoves
    · dsimp only
      rw [halike.unknowns_eq]
      split
      · exact .found hmoves
      · exact enter_alike halike hmoves

/-! ### Whole searches -/

/-- Searches that go in step end with the same assignment, by the same moves, or are cut off
alike. -/
theorem run_alike {p p' : Progress} (h : p.Alike p') :
    (run net limit p).map (fun o => (o.1, o.2.moves)) =
      (run net' limit p').map fun o => (o.1, o.2.moves) := by
  -- the induction is on the run in the first network, and the other run follows it
  induction p using run.induct net limit generalizing p' with
  | case1 s ih =>
    cases h with
    | running hmoves =>
      rw [run_running, run_running]
      exact ih (step_alike halike hnet hnet' _ hmoves)
  | case2 a s =>
    cases h with
    | found hmoves =>
      rw [run, run]
      exact congrArg (fun moves => Except.ok (some a, moves)) hmoves
  | case3 s =>
    cases h with
    | exhausted hmoves =>
      rw [run, run]
      exact congrArg (fun moves => Except.ok (none, moves)) hmoves
  | case4 bound =>
    cases h
    rw [run, run]

/-- Networks that are alike are searched by the same moves. -/
theorem search_alike :
    (search net limit).map (fun o => (o.1, o.2.moves)) =
      (search net' limit).map fun o => (o.1, o.2.moves) := by
  have hinfeasible : net.isInfeasible = net'.isInfeasible := by
    rw [Network.isInfeasible, Network.isInfeasible, halike.unknowns_eq, halike.contradiction_eq]
  rw [search, search, hinfeasible, halike.unknowns_eq]
  -- an infeasible network and one without unknowns are answered without a search
  split
  · rfl
  split
  · rfl
  exact run_alike halike hnet hnet' (enter_alike halike rfl)

/-- So the same assignment is found in them. -/
theorem fst_search_alike :
    (search net limit).map Prod.fst = (search net' limit).map Prod.fst := by
  have hforget (x : Except SolveError (Option Assignment × Statistics)) :
      x.map Prod.fst = (x.map fun o => (o.1, o.2.moves)).map Prod.fst := by
    cases x <;> rfl
  rw [hforget, search_alike halike hnet hnet', ← hforget]

end

end Search

end FiniteDomain
