import FiniteDomain.Proofs.Network.WellFormed

/-!
# Solutions of networks

A solution of a network gives each unknown one of its candidates so that every constraint holds of
the keys. It is written as the list of the positions, the unknowns in the order of their numbers;
beginnings of such lists are the partial solutions.

## Main definitions

* `Network.Agrees`: the positions of the first unknowns are candidates and violate no constraint.
* `Network.Solves`: a position for every unknown that agrees with the network.

## Main results

* `Network.agrees_append_iff`: a partial solution is extended exactly by the candidates that satisfy
  the constraints to the unknowns before.
-/

namespace FiniteDomain.Network

/-- Positions of the first unknowns that are candidates and satisfy every constraint between these
unknowns. -/
structure Agrees (net : Network) (v : List Int64) : Prop where
  /-- Each position is a candidate. -/
  candidate : ∀ {i p}, v[i]? = some p → p ∈ net.candidatesOf i
  /-- Each constraint holds of the keys of its ends. -/
  satisfied : ∀ c ∈ net.constraints, ∀ {p q}, v[c.left]? = some p → v[c.right]? = some q →
    c.holds (net.keyOf c.left p) (net.keyOf c.right q) = true

/-- A candidate for every unknown such that every constraint holds. -/
structure Solves (net : Network) (v : List Int64) : Prop where
  /-- There is one position for each unknown. -/
  length_eq : v.length = net.unknowns.size
  /-- The positions are candidates and satisfy the constraints. -/
  agrees : net.Agrees v

variable {net : Network}

/-- Before the first unknown nothing is violated. -/
theorem agrees_nil : net.Agrees [] where
  candidate h := by simp at h
  satisfied c _ p q h := by simp at h

private theorem getElem?_extend {v w : List Int64} (hvw : v <+: w) {i : Nat} {p : Int64}
    (h : v[i]? = some p) : w[i]? = some p := by
  obtain ⟨rest, rfl⟩ := hvw
  rw [List.getElem?_append_left (List.getElem?_eq_some_iff.1 h).1, h]

/-- A beginning of a partial solution is one. -/
theorem Agrees.beginning {v w : List Int64} (hw : net.Agrees w) (hvw : v <+: w) :
    net.Agrees v where
  candidate h := hw.candidate (getElem?_extend hvw h)
  satisfied c hc _ _ hp hq :=
    hw.satisfied c hc (getElem?_extend hvw hp) (getElem?_extend hvw hq)

/-- The position of the unknown after `v`, if an index reaches it. -/
private theorem getElem?_append_singleton {v : List Int64} {p q : Int64} {i : Nat} :
    (v ++ [p])[i]? = some q ↔ v[i]? = some q ∨ i = v.length ∧ q = p := by
  rcases Nat.lt_trichotomy i v.length with h | h | h
  · rw [List.getElem?_append_left h]
    constructor
    · exact .inl
    · rintro (hq | ⟨hi, -⟩)
      · exact hq
      · omega
  · subst h
    rw [List.getElem?_concat_length, List.getElem?_eq_none (Nat.le_refl _)]
    simp [eq_comm]
  · rw [List.getElem?_eq_none (by simp; omega), List.getElem?_eq_none (by omega)]
    simp only [reduceCtorEq, false_or, false_iff]
    omega

/-- A constraint at an unknown holds of its two ends in the order in which it has them. -/
theorem holdsFor_iff {c : BinaryConstraint} {unknown other : Nat}
    (hother : c.other? unknown = some other) (key otherKey : Int64) :
    c.left = unknown ∧ c.right = other ∧ c.holdsFor unknown key otherKey = c.holds key otherKey ∨
      c.right = unknown ∧ c.left = other ∧
        c.holdsFor unknown key otherKey = c.holds otherKey key := by
  unfold BinaryConstraint.other? at hother
  unfold BinaryConstraint.holdsFor
  split at hother
  case isTrue hleft =>
    exact .inl ⟨hleft, by simpa using hother, by rw [if_pos hleft]⟩
  case isFalse hleft =>
    rw [if_neg hleft]
    split at hother
    case isTrue hright => exact .inr ⟨hright, by simpa using hother, rfl⟩
    case isFalse => cases hother

/-- A partial solution is extended exactly by the candidates of the next unknown that satisfy each
of its constraints to an unknown before. -/
theorem agrees_append_iff (hnet : net.WellFormed) {v : List Int64} (hv : net.Agrees v)
    (hlt : v.length < net.unknowns.size) (p : Int64) :
    net.Agrees (v ++ [p]) ↔ p ∈ net.candidatesOf v.length ∧
      ∀ number ∈ net.constraintsOf v.length, ∀ c, net.constraints[number]? = some c →
        ∀ other q, c.other? v.length = some other → v[other]? = some q →
          c.holdsFor v.length (net.keyOf v.length p) (net.keyOf other q) = true := by
  have hlast : (v ++ [p])[v.length]? = some p := List.getElem?_concat_length ..
  constructor
  · intro h
    refine ⟨h.candidate hlast, ?_⟩
    intro number _ c hc other q hother hq
    have hmem : c ∈ net.constraints := Array.mem_of_getElem? hc
    have hq' : (v ++ [p])[other]? = some q := getElem?_append_singleton.2 (.inl hq)
    rcases holdsFor_iff hother (net.keyOf v.length p) (net.keyOf other q) with
      ⟨hl, hr, heq⟩ | ⟨hr, hl, heq⟩
    · rw [heq, ← hl, ← hr]
      exact h.satisfied c hmem (by rwa [hl]) (by rwa [hr])
    · rw [heq, ← hl, ← hr]
      exact h.satisfied c hmem (by rwa [hl]) (by rwa [hr])
  · rintro ⟨hp, hcs⟩
    refine ⟨?_, ?_⟩
    · intro i q hq
      rcases getElem?_append_singleton.1 hq with hq | ⟨rfl, rfl⟩
      · exact hv.candidate hq
      · exact hp
    · intro c hc x y hx hy
      obtain ⟨number, hnumber⟩ := Array.mem_iff_getElem?.1 hc
      -- a constraint is new when one of its ends is the unknown after `v`
      rcases getElem?_append_singleton.1 hx with hx' | ⟨hl, rfl⟩
      · rcases getElem?_append_singleton.1 hy with hy' | ⟨hr, rfl⟩
        · exact hv.satisfied c hc hx' hy'
        · have hother : c.other? v.length = some c.left := by
            rw [BinaryConstraint.other?, if_neg (hr ▸ hnet.left_ne_right c hc), if_pos hr]
          have hholds := hcs number ((hnet.mem_constraintsOf _ hlt number).2 ⟨c, hnumber, .inr hr⟩)
            c hnumber c.left x hother hx'
          rwa [BinaryConstraint.holdsFor, if_neg (hr ▸ hnet.left_ne_right c hc), ← hr] at hholds
      · rcases getElem?_append_singleton.1 hy with hy' | ⟨hr, rfl⟩
        · have hother : c.other? v.length = some c.right := by
            rw [BinaryConstraint.other?, if_pos hl]
          have hholds := hcs number ((hnet.mem_constraintsOf _ hlt number).2 ⟨c, hnumber, .inl hl⟩)
            c hnumber c.right y hother hy'
          rwa [BinaryConstraint.holdsFor, if_pos hl, ← hl] at hholds
        · exact absurd (hl.trans hr.symm) (hnet.left_ne_right c hc)

end FiniteDomain.Network
