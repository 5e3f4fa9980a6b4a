import FiniteDomain.Network.Basic

/-!
# Well-formed networks

A network is well-formed when its constraints join different unknowns of the network and each
unknown lists exactly the constraints that it takes part in. The steps that networks are made of
keep them so.

## Main definitions

* `Network.WellFormed`: the condition.

## Main results

* `WellFormed.addUnknown`, `WellFormed.addConstraint`, `WellFormed.prune`: the steps keep it.
-/

namespace FiniteDomain.Network

/-- The constraints join two different unknowns of the network, and each unknown lists exactly the
numbers of the constraints that it takes part in. -/
structure WellFormed (net : Network) : Prop where
  /-- The left end is an unknown of the network. -/
  left_lt : ∀ c ∈ net.constraints, c.left < net.unknowns.size
  /-- The right end is an unknown of the network. -/
  right_lt : ∀ c ∈ net.constraints, c.right < net.unknowns.size
  /-- The ends differ. -/
  left_ne_right : ∀ c ∈ net.constraints, c.left ≠ c.right
  /-- An unknown lists the constraints that have it at one end, and no other. -/
  mem_constraintsOf : ∀ unknown < net.unknowns.size, ∀ number,
    number ∈ net.constraintsOf unknown ↔
      ∃ c, net.constraints[number]? = some c ∧ (c.left = unknown ∨ c.right = unknown)

theorem wellFormed_empty : empty.WellFormed := by
  refine ⟨?_, ?_, ?_, ?_⟩ <;> simp [empty]

variable {net : Network}

/-- A new unknown takes part in no constraint, and the others keep theirs. -/
theorem constraintsOf_addUnknown (hsize : net.incidence.size = net.unknowns.size) (u : Unknown)
    (unknown : Nat) :
    (net.addUnknown u).constraintsOf unknown =
      if unknown = net.unknowns.size then [] else net.constraintsOf unknown := by
  unfold constraintsOf addUnknown
  rw [Array.getElem?_push, hsize]
  split <;> rfl

/-- A new constraint is listed last by its two ends. -/
theorem constraintsOf_addConstraint {c : BinaryConstraint} (hne : c.left ≠ c.right)
    {unknown : Nat} (hlt : unknown < net.incidence.size) :
    (net.addConstraint c).constraintsOf unknown =
      if c.left = unknown ∨ c.right = unknown
      then net.constraintsOf unknown ++ [net.constraints.size] else net.constraintsOf unknown := by
  unfold constraintsOf addConstraint
  simp only [Array.getElem?_modify, Array.getElem?_eq_getElem hlt]
  by_cases hl : c.left = unknown
  · have hr : c.right ≠ unknown := fun h => hne (hl.trans h.symm)
    simp [hl, hr]
  · by_cases hr : c.right = unknown
    · simp [hl, hr]
    · simp [hl, hr]

/-- Adding an unknown keeps a network well-formed. -/
theorem WellFormed.addUnknown (h : net.WellFormed)
    (hsize : net.incidence.size = net.unknowns.size) (u : Unknown) :
    (net.addUnknown u).WellFormed := by
  have hgrow : (net.addUnknown u).unknowns.size = net.unknowns.size + 1 := Array.size_push ..
  refine ⟨?_, ?_, h.left_ne_right, ?_⟩
  · intro c hc
    rw [hgrow]
    exact Nat.lt_succ_of_lt (h.left_lt c hc)
  · intro c hc
    rw [hgrow]
    exact Nat.lt_succ_of_lt (h.right_lt c hc)
  · intro unknown hlt number
    rw [constraintsOf_addUnknown hsize]
    split
    case isTrue heq =>
      -- the constraints join unknowns that were there before
      subst heq
      simp only [List.not_mem_nil, false_iff, not_exists, not_and]
      intro c hc hend
      have hmem : c ∈ net.constraints := Array.mem_of_getElem? hc
      have hl := h.left_lt c hmem
      have hr := h.right_lt c hmem
      omega
    case isFalse hne => exact h.mem_constraintsOf unknown (by omega) number

/-- Adding a constraint between two different unknowns keeps a network well-formed. -/
theorem WellFormed.addConstraint (h : net.WellFormed)
    (hsize : net.incidence.size = net.unknowns.size) {c : BinaryConstraint}
    (hl : c.left < net.unknowns.size) (hr : c.right < net.unknowns.size) (hne : c.left ≠ c.right) :
    (net.addConstraint c).WellFormed := by
  -- the ends of the new constraint are checked beside those of the others
  have hmem : ∀ d ∈ (net.addConstraint c).constraints, d ∈ net.constraints ∨ d = c :=
    fun d hd => Array.mem_push.1 hd
  refine ⟨?_, ?_, ?_, ?_⟩
  · intro d hd
    rcases hmem d hd with hd | rfl
    · exact h.left_lt d hd
    · exact hl
  · intro d hd
    rcases hmem d hd with hd | rfl
    · exact h.right_lt d hd
    · exact hr
  · intro d hd
    rcases hmem d hd with hd | rfl
    · exact h.left_ne_right d hd
    · exact hne
  · intro unknown hlt number
    have hold := h.mem_constraintsOf unknown hlt number
    have hget : (net.addConstraint c).constraints[number]? =
        if number = net.constraints.size then some c else net.constraints[number]? :=
      Array.getElem?_push
    rw [constraintsOf_addConstraint hne (by rw [hsize]; exact hlt), hget]
    by_cases hnew : number = net.constraints.size
    · -- the number of the new constraint is listed by no unknown yet
      have habsent : number ∉ net.constraintsOf unknown := by
        rw [hold, hnew]
        simp
      rw [if_pos hnew]
      split
      case isTrue hend => simp [hnew, hend]
      case isFalse hend => simp [hend, habsent]
    · rw [if_neg hnew, ← hold]
      split
      case isTrue => simp [hnew]
      case isFalse => rfl

/-- Ruling out candidates keeps a network well-formed. -/
theorem WellFormed.prune (h : net.WellFormed) (unknown : Nat) (keep : Int64 → Bool) :
    (net.prune unknown keep).WellFormed := by
  have hsame : (net.prune unknown keep).unknowns.size = net.unknowns.size := Array.size_modify ..
  refine ⟨?_, ?_, h.left_ne_right, ?_⟩
  · rw [hsame]
    exact h.left_lt
  · rw [hsame]
    exact h.right_lt
  · rw [hsame]
    exact h.mem_constraintsOf

end FiniteDomain.Network
