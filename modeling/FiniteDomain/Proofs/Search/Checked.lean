import FiniteDomain.Proofs.Network.Checked
import FiniteDomain.Search.Backtracking

/-!
# Search with checked arithmetic

A step of the search, written with sums and differences that stop at an overflow. In every state
that a search on a fitting network reaches, the step ends as the step without checks does: what is
tried and what is assigned are candidates, and the offsets of the constraints fit their keys.

## Main definitions

* `Search.stepChecked`: a checked step.
* `Search.Reachable`: the states that a search passes through.

## Main results

* `Search.Reachable.within`: only candidates are tried and assigned.
* `Search.stepChecked_eq`: a checked step is a step.
-/

namespace FiniteDomain.Search

variable (net : Network) (limit : Option Nat)

/-- Whether an unknown with a key agrees with the unknowns assigned before, as far as the given
constraints tell. -/
def consistentChecked (unknown : Nat) (key : Int64) (a : Assignment) :
    List Nat → Statistics → Except Fault (Bool × Statistics)
  | [], s => .ok (true, s)
  | number :: numbers, s =>
    match net.constraints[number]? with
    | none => consistentChecked unknown key a numbers s
    | some c =>
      match (c.other? unknown).bind fun other => (a.get? other).map fun p => (other, p) with
      | none => consistentChecked unknown key a numbers s
      | some (other, position) => do
        let otherKey ← net.keyOfChecked other position
        let satisfied ← c.holdsForChecked unknown key otherKey
        let s := s.record number satisfied
        if satisfied then consistentChecked unknown key a numbers s else return (false, s)

/-- The first consistent position among the given ones with those after it. -/
def nextChoiceChecked (unknown : Nat) (a : Assignment) :
    List Int64 → Statistics → Except Fault (Option (Int64 × List Int64) × Statistics)
  | [], s => .ok (none, s)
  | position :: rest, s => do
    let key ← net.keyOfChecked unknown position
    let (consistent, s) ← consistentChecked net unknown key a (net.constraintsOf unknown) s
    if consistent then return (some (position, rest), s)
    else nextChoiceChecked unknown a rest s

/-- One step of the search. -/
def stepChecked (s : State) : Except Fault Progress :=
  match s.stack with
  | [] => .ok (.exhausted s.statistics)
  | frame :: below => do
    let (choice, statistics) ←
      nextChoiceChecked net frame.unknown frame.assignment frame.remaining s.statistics
    match choice with
    | none => return .running ⟨below, if below.isEmpty then statistics else statistics.backtrack⟩
    | some (position, rest) =>
      let a := frame.assignment.assign frame.unknown position
      if net.unknowns.size ≤ frame.unknown + 1 then return .found a statistics
      else
        return enter net limit (frame.unknown + 1) a ({ frame with remaining := rest } :: below)
          statistics

/-- The states that a search passes through. -/
inductive Reachable : State → Prop where
  /-- The first one. -/
  | start {s : State} (h : enter net limit 0 .empty [] .zero = .running s) : Reachable s
  /-- The next one. -/
  | step {s s' : State} (h : Reachable s) (hstep : step net limit s = .running s') : Reachable s'

/-! ### Only candidates are tried and assigned -/

/-- The positions assigned are candidates. -/
def AssignsCandidates (a : Assignment) : Prop :=
  ∀ n p, a.get? n = some p → p ∈ net.candidatesOf n

/-- What a frame still has to try, and what was assigned before it, are candidates. -/
structure Frame.Within (frame : Frame) : Prop where
  /-- The positions not tried yet are candidates. -/
  remaining_subset : frame.remaining ⊆ net.candidatesOf frame.unknown
  /-- The positions assigned are candidates. -/
  assigned : AssignsCandidates net frame.assignment

variable {net limit}

theorem assignsCandidates_empty : AssignsCandidates net .empty := by
  intro n p h
  simp at h

/-- An assignment stays among the candidates if a candidate is assigned. -/
theorem AssignsCandidates.assign {a : Assignment} (h : AssignsCandidates net a) {n : Nat}
    {p : Int64} (hp : p ∈ net.candidatesOf n) : AssignsCandidates net (a.assign n p) := by
  intro i q hq
  rw [Assignment.get?_assign] at hq
  split at hq
  case isTrue heq =>
    cases hq
    rwa [← heq]
  case isFalse => exact h i q hq

/-- A node is entered with all candidates of its unknown still to be tried. -/
theorem enter_eq_running {unknown : Nat} {a : Assignment} {below : List Frame} {st : Statistics}
    {s : State} (h : enter net limit unknown a below st = .running s) :
    s.stack = ⟨unknown, net.candidatesOf unknown, a⟩ :: below := by
  unfold enter at h
  dsimp only at h
  split at h
  · split at h
    · cases h
    · cases h
      rfl
  · cases h
    rfl

/-- A choice is one of the positions, and those after it are left. -/
theorem mem_of_nextChoice {unknown : Nat} {a : Assignment} {position : Int64}
    {candidates rest : List Int64} {s t : Statistics}
    (h : nextChoice net unknown a candidates s = (some (position, rest), t)) :
    position ∈ candidates ∧ rest ⊆ candidates := by
  induction candidates generalizing s with
  | nil => simp [nextChoice] at h
  | cons c cs ih =>
    rw [nextChoice] at h
    split at h
    · obtain ⟨⟨rfl, rfl⟩, -⟩ : (c = position ∧ cs = rest) ∧ _ = t := by simpa using h
      exact ⟨List.mem_cons_self, List.subset_cons_self _ _⟩
    · obtain ⟨hmem, hsubset⟩ := ih h
      exact ⟨List.mem_cons_of_mem _ hmem, List.subset_cons_of_subset _ hsubset⟩

/-- A step that goes on gives the top frame up, or opens a frame above it for a candidate. -/
theorem within_of_step {s s' : State} (hs : ∀ frame ∈ s.stack, frame.Within net)
    (h : step net limit s = .running s') : ∀ frame ∈ s'.stack, frame.Within net := by
  unfold step at h
  split at h
  · cases h
  next top below hstack =>
    rw [hstack, List.forall_mem_cons] at hs
    obtain ⟨htop, hbelow⟩ := hs
    split at h
    · cases h
      exact hbelow
    next position rest st hchoice =>
      obtain ⟨hmem, hsubset⟩ := mem_of_nextChoice hchoice
      dsimp only at h
      split at h
      · cases h
      · -- the new frame tries all candidates, and the one below has fewer left
        rw [enter_eq_running h]
        refine List.forall_mem_cons.2
          ⟨⟨List.Subset.refl _, ?_⟩, List.forall_mem_cons.2 ⟨?_, hbelow⟩⟩
        · exact htop.assigned.assign (htop.remaining_subset hmem)
        · exact ⟨fun p hp => htop.remaining_subset (hsubset hp), htop.assigned⟩

/-- Only candidates are tried and assigned in the course of a search. -/
theorem Reachable.within {s : State} (h : Reachable net limit s) :
    ∀ frame ∈ s.stack, frame.Within net := by
  induction h with
  | start h =>
    rw [enter_eq_running h]
    simpa using ⟨List.Subset.refl _, assignsCandidates_empty⟩
  | step _ hstep ih => exact within_of_step ih hstep

/-! ### Checked steps -/

/-- A check of a constraint on two candidates is exact. -/
theorem holdsForChecked_eq (hnet : net.Fitting) {c : BinaryConstraint} (hc : c ∈ net.constraints)
    {unknown other : Nat} (hother : c.other? unknown = some other) {p q : Int64}
    (hp : p ∈ net.candidatesOf unknown) (hq : q ∈ net.candidatesOf other) :
    c.holdsForChecked unknown (net.keyOf unknown p) (net.keyOf other q) =
      .ok (c.holdsFor unknown (net.keyOf unknown p) (net.keyOf other q)) := by
  obtain ⟨hleft, hright⟩ := hnet.offsetsFit c hc
  -- the unknown is the left or the right end, and its key is added to the offset of that end
  unfold BinaryConstraint.other? at hother
  unfold BinaryConstraint.holdsForChecked BinaryConstraint.holdsFor
  split at hother
  case isTrue heq =>
    subst heq
    cases hother
    rw [if_pos rfl, if_pos rfl, BinaryConstraint.holdsChecked, hleft.addChecked_eq hnet.sound hp,
      hright.addChecked_eq hnet.sound hq]
    rfl
  case isFalse hne =>
    split at hother
    case isFalse => cases hother
    case isTrue heq =>
      subst heq
      cases hother
      rw [if_neg hne, if_neg hne, BinaryConstraint.holdsChecked,
        hleft.addChecked_eq hnet.sound hq, hright.addChecked_eq hnet.sound hp]
      rfl

/-- The checks add to keys of candidates only offsets that fit. -/
theorem consistentChecked_eq (hnet : net.Fitting) {unknown : Nat} {p : Int64}
    (hp : p ∈ net.candidatesOf unknown) {a : Assignment} (ha : AssignsCandidates net a)
    (numbers : List Nat) (s : Statistics) :
    consistentChecked net unknown (net.keyOf unknown p) a numbers s =
      .ok (consistent net unknown p a numbers s) := by
  induction numbers generalizing s with
  | nil => rfl
  | cons number numbers ih =>
    rw [consistentChecked, consistent]
    cases hc : net.constraints[number]? with
    | none => exact ih s
    | some c =>
      dsimp only
      cases hother : c.other? unknown with
      | none => exact ih s
      | some other =>
        cases hq : a.get? other with
        | none => simpa [hq] using ih s
        | some q =>
          -- the other end was assigned before, so that its position is a candidate
          have hmem := ha other q hq
          have hholds := holdsForChecked_eq hnet (Array.mem_of_getElem? hc) hother hp hmem
          simp only [Option.bind_some, hq, Option.map_some, bind, Except.bind,
            Network.keyOfChecked_eq hnet.sound hmem, hholds]
          split
          · exact ih _
          · rfl

/-- The choice of a position checks candidates only. -/
theorem nextChoiceChecked_eq (hnet : net.Fitting) {unknown : Nat} {a : Assignment}
    (ha : AssignsCandidates net a) {candidates : List Int64}
    (hcandidates : candidates ⊆ net.candidatesOf unknown) (s : Statistics) :
    nextChoiceChecked net unknown a candidates s =
      .ok (nextChoice net unknown a candidates s) := by
  induction candidates generalizing s with
  | nil => rfl
  | cons p rest ih =>
    obtain ⟨hp, hrest⟩ := List.cons_subset.1 hcandidates
    rw [nextChoiceChecked, nextChoice, Network.keyOfChecked_eq hnet.sound hp]
    simp only [bind, Except.bind, consistentChecked_eq hnet hp ha]
    rcases consistent net unknown p a (net.constraintsOf unknown) s with ⟨consistent, s'⟩
    cases consistent with
    | true => rfl
    | false => exact ih hrest s'

/-- In a state in which only candidates are tried and assigned, a checked step is a step. -/
theorem stepChecked_eq (hnet : net.Fitting) {s : State}
    (hs : ∀ frame ∈ s.stack, frame.Within net) :
    stepChecked net limit s = .ok (step net limit s) := by
  unfold stepChecked step
  cases hstack : s.stack with
  | nil => rfl
  | cons top below =>
    rw [hstack] at hs
    have htop := hs top List.mem_cons_self
    simp only [bind, Except.bind,
      nextChoiceChecked_eq hnet htop.assigned htop.remaining_subset]
    rcases nextChoice net top.unknown top.assignment top.remaining s.statistics with
      ⟨_ | ⟨position, rest⟩, statistics⟩
    · rfl
    · dsimp only
      split <;> rfl

end FiniteDomain.Search
