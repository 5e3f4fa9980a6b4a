import FiniteDomain.Proofs.Network.Solution
import FiniteDomain.Proofs.Network.WellFormed
import FiniteDomain.Proofs.Search.Recursive
import Mathlib.Data.List.Basic
import Mathlib.Order.Bounds.Basic

/-!
# The search finds the first solution

On a well-formed network the search without a limit ends and returns the least solution, in the
lexicographic order of the positions, or nothing when there is none.

The argument follows the recursion. The lists that a visit has to look through are the solutions
that start with the positions chosen so far; trying a candidate splits off those that go on with it,
and these come before all others because candidates ascend.

## Main definitions

* `Assignment.Represents`: an assignment gives positions to the first unknowns and to no other.
* `Search.FindsLeast`: what a search through a set of lists has to return.

## Main results

* `fst_consistent_iff`: which candidates are consistent.
* `visit_findsLeast`: a visit returns the least solution that extends the positions chosen.
* `search_findsLeast`, `search_finds_least_solution`: so does the search, among all solutions.
-/

namespace FiniteDomain

namespace Assignment

/-- The assignment gives the positions of `v` to the first unknowns and none to the others. -/
def Represents (a : Assignment) (v : List Int64) : Prop :=
  ∀ unknown, a.get? unknown = v[unknown]?

theorem represents_empty : Represents empty [] := by
  intro unknown
  simp

/-- Assigning the next unknown appends its position. -/
theorem Represents.assign {a : Assignment} {v : List Int64} (h : a.Represents v) (p : Int64) :
    (a.assign v.length p).Represents (v ++ [p]) := by
  intro unknown
  rw [get?_assign]
  split
  case isTrue heq => rw [← heq, List.getElem?_concat_length]
  case isFalse hne =>
    rw [h unknown]
    rcases Nat.lt_or_gt_of_ne hne with hlt | hgt
    · rw [List.getElem?_eq_none (by omega), List.getElem?_eq_none (by simp; omega)]
    · rw [List.getElem?_append_left hgt]

end Assignment

namespace Search

variable {net : Network}

/-- A position is found consistent exactly when it satisfies each of the given constraints whose
other end has a position. -/
theorem fst_consistent_iff {unknown : Nat} {position : Int64} {a : Assignment}
    (numbers : List Nat) (s : Statistics) :
    (consistent net unknown position a numbers s).1 = true ↔
      ∀ number ∈ numbers, ∀ c, net.constraints[number]? = some c →
        ∀ other q, c.other? unknown = some other → a.get? other = some q →
          c.holdsFor unknown (net.keyOf unknown position) (net.keyOf other q) = true := by
  induction numbers generalizing s with
  | nil => simp [consistent]
  | cons number numbers ih =>
    rw [consistent, List.forall_mem_cons]
    cases hc : net.constraints[number]? with
    | none =>
      dsimp only
      rw [ih]
      exact ⟨fun h => ⟨fun c hc' => (by cases hc'), h⟩, And.right⟩
    | some c =>
      dsimp only
      cases hother : (c.other? unknown).bind fun other => (a.get? other).map (net.keyOf other) with
      | none =>
        -- the other end has no position yet, so this constraint says nothing
        dsimp only
        rw [ih]
        refine ⟨fun h => ⟨?_, h⟩, And.right⟩
        rintro c' ⟨⟩ other q ho hq
        simp [ho, hq] at hother
      | some otherKey =>
        obtain ⟨other, ho, hkey⟩ := Option.bind_eq_some_iff.1 hother
        obtain ⟨q, hq, rfl⟩ := Option.map_eq_some_iff.1 hkey
        have hhead : (∀ c', some c = some c' → ∀ other' q', c'.other? unknown = some other' →
            a.get? other' = some q' →
              c'.holdsFor unknown (net.keyOf unknown position) (net.keyOf other' q') = true) ↔
            c.holdsFor unknown (net.keyOf unknown position) (net.keyOf other q) = true := by
          constructor
          · intro h
            exact h c rfl other q ho hq
          · rintro h c' ⟨⟩ other' q' ho' hq'
            obtain rfl : other = other' := Option.some.inj (ho.symm.trans ho')
            obtain rfl : q = q' := Option.some.inj (hq.symm.trans hq')
            exact h
        rw [hhead]
        dsimp only
        split
        case isTrue hsat => rw [ih]; simp [hsat]
        case isFalse hsat => simp [hsat]

/-- What a search through the lists of a set returns: the least one, or nothing when the set is
empty. -/
def FindsLeast (lists : Set (List Int64)) : Option Assignment → Prop
  | some a => ∃ v, a.Represents v ∧ IsLeast lists v
  | none => lists = ∅

/-- The solutions that start with the given positions. -/
def solutionsFrom (net : Network) (v : List Int64) : Set (List Int64) :=
  {w | net.Solves w ∧ v <+: w}

/-- The solutions that start with the given positions, followed by one of the candidates. -/
def solutionsThrough (net : Network) (v : List Int64) (candidates : List Int64) :
    Set (List Int64) :=
  {w | ∃ p ∈ candidates, w ∈ solutionsFrom net (v ++ [p])}

theorem solutionsThrough_nil (v : List Int64) : solutionsThrough net v [] = ∅ := by
  simp [solutionsThrough]

/-- The first candidate splits off the solutions that go on with it. -/
theorem solutionsThrough_cons (v : List Int64) (p : Int64) (candidates : List Int64) :
    solutionsThrough net v (p :: candidates) =
      solutionsFrom net (v ++ [p]) ∪ solutionsThrough net v candidates := by
  ext w
  simp [solutionsThrough]

/-- Every solution from a partial one goes on with a candidate of the next unknown. -/
theorem solutionsThrough_candidatesOf {v : List Int64} (hlt : v.length < net.unknowns.size) :
    solutionsThrough net v (net.candidatesOf v.length) = solutionsFrom net v := by
  ext w
  constructor
  · rintro ⟨p, -, hw, hprefix⟩
    exact ⟨hw, (List.prefix_append v [p]).trans hprefix⟩
  · rintro ⟨hw, hprefix⟩
    obtain ⟨rest, rfl⟩ := hprefix
    cases rest with
    | nil =>
      have hlen := hw.length_eq
      rw [List.append_nil] at hlen
      omega
    | cons p rest =>
      have hp : (v ++ p :: rest)[v.length]? = some p := by simp
      exact ⟨p, hw.agrees.candidate hp, hw, ⟨rest, by simp⟩⟩

/-- A solution through an earlier candidate comes before one through a later candidate. -/
theorem le_of_mem_solutionsFrom {v w x : List Int64} {p q : Int64} (hpq : p < q)
    (hw : w ∈ solutionsFrom net (v ++ [p])) (hx : x ∈ solutionsFrom net (v ++ [q])) : w ≤ x := by
  obtain ⟨-, rest, rfl⟩ := hw
  obtain ⟨-, rest', rfl⟩ := hx
  rw [List.append_assoc, List.append_assoc]
  have hlt : [p] ++ rest < [q] ++ rest' := List.cons_lt_cons_iff.2 (.inl hpq)
  exact List.le_of_lt (List.append_left_lt hlt)

/-- Trying candidates returns the least solution through one of them, if descending does so for each
candidate that agrees with the positions chosen before. -/
theorem tryCandidates_findsLeast (hnet : net.WellFormed)
    {descend : Assignment → Statistics → Option Assignment × Statistics} {v : List Int64}
    (hv : net.Agrees v) (hlt : v.length < net.unknowns.size) {a : Assignment}
    (ha : a.Represents v)
    (hdescend : ∀ p, net.Agrees (v ++ [p]) → ∀ b, b.Represents (v ++ [p]) → ∀ s,
      FindsLeast (solutionsFrom net (v ++ [p])) (descend b s).1)
    {candidates : List Int64} (hsub : candidates ⊆ net.candidatesOf v.length)
    (hsorted : candidates.Pairwise (· < ·)) (s : Statistics) :
    FindsLeast (solutionsThrough net v candidates)
      (tryCandidates net descend v.length a candidates s).1 := by
  induction candidates generalizing s with
  | nil => exact solutionsThrough_nil v
  | cons p rest ih =>
    have ih' := ih (List.subset_of_cons_subset hsub) hsorted.of_cons
    have hagrees : net.Agrees (v ++ [p]) ↔
        (consistent net v.length p a (net.constraintsOf v.length) s).1 = true := by
      rw [Network.agrees_append_iff hnet hv hlt, fst_consistent_iff]
      simp only [ha _, hsub List.mem_cons_self, true_and]
    rw [solutionsThrough_cons, tryCandidates]
    rcases hc : consistent net v.length p a (net.constraintsOf v.length) s with ⟨_ | _, t⟩
    · -- no solution goes on with an inconsistent candidate
      have hnone : solutionsFrom net (v ++ [p]) = ∅ := by
        refine Set.eq_empty_of_forall_notMem ?_
        rintro w ⟨hw, hprefix⟩
        have := hagrees.1 (hw.agrees.beginning hprefix)
        simp [hc] at this
      rw [hnone, Set.empty_union]
      exact ih' t
    · have hp : net.Agrees (v ++ [p]) := hagrees.2 (by rw [hc])
      have hfound := hdescend p hp _ (ha.assign p) t
      dsimp only
      rcases hd : descend (a.assign v.length p) t with ⟨_ | b, t'⟩
      · rw [hd] at hfound
        have hnone : solutionsFrom net (v ++ [p]) = ∅ := hfound
        rw [hnone, Set.empty_union]
        exact ih' t'.backtrack
      · rw [hd] at hfound
        -- a solution through this candidate comes before all through later ones
        obtain ⟨w, hb, hw, hleast⟩ := hfound
        refine ⟨w, hb, .inl hw, ?_⟩
        rintro x (hx | ⟨q, hq, hx⟩)
        · exact hleast hx
        · exact le_of_mem_solutionsFrom (List.rel_of_pairwise_cons hsorted hq) hw hx

/-- The candidates of an unknown ascend. -/
theorem candidatesOf_ascending (net : Network) (unknown : Nat) :
    (net.candidatesOf unknown).Pairwise (· < ·) := by
  unfold Network.candidatesOf
  split
  · next u _ => exact u.ascending
  · exact .nil

/-- Visiting the unknowns after a partial solution returns the least solution that extends it. -/
theorem visit_findsLeast (hnet : net.WellFormed) (left : Nat) {v : List Int64}
    (hv : net.Agrees v) (hleft : v.length + left = net.unknowns.size) {a : Assignment}
    (ha : a.Represents v) (s : Statistics) :
    FindsLeast (solutionsFrom net v) (visit net left v.length a s).1 := by
  induction left generalizing v a s with
  | zero =>
    -- all unknowns have positions, so the only solution that extends them is this one
    refine ⟨v, ha, ⟨⟨hleft, hv⟩, List.prefix_rfl⟩, ?_⟩
    rintro w ⟨hw, hprefix⟩
    obtain rfl : v = w := hprefix.eq_of_length (by rw [hw.length_eq]; exact hleft)
    exact List.le_refl v
  | succ left ih =>
    have hlt : v.length < net.unknowns.size := by omega
    rw [visit, ← solutionsThrough_candidatesOf hlt]
    refine tryCandidates_findsLeast hnet hv hlt ha ?_ (List.Subset.refl _)
      (candidatesOf_ascending net v.length) s.visit
    intro p hp b hb t
    have hlen : (v ++ [p]).length = v.length + 1 := by simp
    rw [← hlen]
    exact ih hp (by omega) hb t

/-- The search through any other network ends and returns the least solution. -/
theorem search_findsLeast (hnet : net.WellFormed) (hfeasible : net.isInfeasible = false) :
    ∃ found statistics, search net none = .ok (found, statistics) ∧
      FindsLeast {v | net.Solves v} found := by
  refine ⟨_, _, search_eq_visit hfeasible, ?_⟩
  have hall : solutionsFrom net [] = {v | net.Solves v} := by
    ext w
    simp [solutionsFrom]
  rw [← hall]
  exact visit_findsLeast hnet net.unknowns.size Network.agrees_nil (by simp)
    Assignment.represents_empty Statistics.zero

/-- The search without a limit always ends. It returns an assignment exactly when the network is not
infeasible from the start and has a solution; the assignment then gives positions to the unknowns of
the network and to no other, and these are the least solution in lexicographic order. -/
theorem search_finds_least_solution (hnet : net.WellFormed) :
    ∃ found statistics, search net none = .ok (found, statistics) ∧
      (found.isSome = true ↔ net.isInfeasible = false ∧ ∃ v, net.Solves v) ∧
      ∀ a, found = some a → ∃ v, a.Represents v ∧ IsLeast {v | net.Solves v} v := by
  cases hfeasible : net.isInfeasible with
  | true => exact ⟨none, .zero, search_of_infeasible hfeasible none, by simp, by simp⟩
  | false =>
    obtain ⟨found, statistics, hsearch, hfound⟩ := search_findsLeast hnet hfeasible
    refine ⟨found, statistics, hsearch, ?_⟩
    rcases found with _ | a
    · have hnone : ∀ v, ¬ net.Solves v := Set.eq_empty_iff_forall_notMem.1 hfound
      simp [hnone]
    · obtain ⟨v, ha, hv⟩ := hfound
      refine ⟨⟨fun _ => ⟨rfl, v, hv.1⟩, fun _ => rfl⟩, ?_⟩
      rintro _ ⟨⟩
      exact ⟨v, ha, hv⟩

/-- Two unknowns over `1..3`, the first of which is to be larger. -/
def largerFirst : Network :=
  let u (name : String) : Unknown :=
    ⟨name, .singleton name, .intRange 1 3, [1, 2, 3], by decide⟩
  ((Network.empty.addUnknown (u "x")).addUnknown (u "y")).addConstraint
    ⟨0, 0, .gt, 1, 0, "c", "x > y"⟩

/-- The least solution of `largerFirst` gives 2 to the first unknown and 1 to the second. -/
theorem search_finds_least_solution_largerFirst :
    largerFirst.WellFormed ∧ ∃ a statistics, search largerFirst none = .ok (some a, statistics) ∧
      a.Represents [2, 1] ∧ IsLeast {v | largerFirst.Solves v} [2, 1] := by
  have hnet : largerFirst.WellFormed :=
    ((Network.wellFormed_empty.addUnknown rfl _).addUnknown rfl _).addConstraint rfl
      (by decide) (by decide) (by decide)
  have hfeasible : largerFirst.isInfeasible = false := by decide +kernel
  obtain ⟨found, statistics, hsearch, -, hleast⟩ := search_finds_least_solution hnet
  -- what is found is computed by the recursive search
  have hvisit : (visit largerFirst largerFirst.unknowns.size 0 .empty .zero).1.map
      (fun a => [a.get? 0, a.get? 1]) = some [some 2, some 1] := by
    decide +kernel
  rw [fst_visit_of_search hfeasible hsearch] at hvisit
  obtain ⟨a, rfl, ha⟩ := Option.map_eq_some_iff.1 hvisit
  obtain ⟨v, hv, hmin⟩ := hleast a rfl
  obtain ⟨p, q, rfl⟩ := List.length_eq_two.1 hmin.1.length_eq
  simp only [hv 0, hv 1] at ha
  obtain ⟨rfl, rfl⟩ : p = 2 ∧ q = 1 := by simpa using ha
  exact ⟨hnet, a, statistics, hsearch, hv, hmin⟩

end Search

end FiniteDomain
