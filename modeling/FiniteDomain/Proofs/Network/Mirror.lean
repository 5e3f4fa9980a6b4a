import FiniteDomain.Proofs.Network.Effects
import FiniteDomain.Proofs.Search.Step

/-!
# Networks with sides of constraints exchanged

A relation says the same when its sides are exchanged and its comparison is flipped: `x + 1 < y` and
`y > x + 1` are one condition. So it rules out the same candidates, is decided alike, or adds the
same constraint with its sides exchanged.

Networks that differ by this alone have the same unknowns and candidates, and the same constraints
are noted at each unknown. A check of a constraint says the same in both, from whichever end it is
made, and so they are searched alike, check by check.

## Main definitions

* `ConstraintExpr.mirror`: a relation with its sides exchanged.
* `BinaryConstraint.Mirrors`, `Effect.Mirrors`, `Network.Mirrors`: the same but for the sides of
  constraints.

## Main results

* `Network.exists_effectOf_mirror`: what a relation does when its sides are exchanged.
* `Network.Mirrors.apply`, `Network.Mirrors.foldl_apply`: effects keep networks the same but for the
  sides of constraints.
* `Network.Mirrors.search_eq`: such networks are searched alike.
-/

namespace FiniteDomain

/-- The relation with its sides exchanged and its comparison flipped. -/
def ConstraintExpr.mirror (e : ConstraintExpr) : ConstraintExpr :=
  ⟨e.right, e.comparison.flip, e.left, e.repeater⟩

@[simp]
theorem ConstraintExpr.mirror_mirror (e : ConstraintExpr) : e.mirror.mirror = e := by
  simp [mirror]

/-! ### Constraints -/

namespace BinaryConstraint

/-- The constraint with its sides exchanged, under another text. -/
def mirror (c : BinaryConstraint) (description : String) : BinaryConstraint :=
  ⟨c.right, c.rightOffset, c.comparison.flip, c.left, c.leftOffset, c.name, description⟩

/-- Constraints that are the same, or the same but for their sides. -/
inductive Mirrors (c : BinaryConstraint) : BinaryConstraint → Prop where
  /-- The sides stay. -/
  | refl : Mirrors c c
  /-- The sides are exchanged. -/
  | mirror (hne : c.left ≠ c.right) (description : String) : Mirrors c (c.mirror description)

variable {c c' : BinaryConstraint}

/-- The ends of a constraint are the same two unknowns. -/
theorem Mirrors.other?_eq (h : c.Mirrors c') : c'.other? = c.other? := by
  cases h with
  | refl => rfl
  | mirror hne description =>
    funext unknown
    show (if c.right = unknown then some c.left else if c.left = unknown then some c.right
      else none) = _
    rw [other?]
    -- an unknown is at one end at most, so that it does not matter which end is looked at first
    by_cases hleft : c.left = unknown
    · rw [if_pos hleft, if_pos hleft, if_neg fun hright => hne (hleft.trans hright.symm)]
    · rw [if_neg hleft, if_neg hleft]

/-- A check says the same from either end. -/
theorem Mirrors.holdsFor_eq (h : c.Mirrors c') {unknown other : Nat}
    (hother : c.other? unknown = some other) (key otherKey : Int64) :
    c'.holdsFor unknown key otherKey = c.holdsFor unknown key otherKey := by
  cases h with
  | refl => rfl
  | mirror hne description =>
    simp only [holdsFor, holds, BinaryConstraint.mirror, Comparison.holds_flip]
    by_cases hleft : c.left = unknown
    · rw [if_pos hleft, if_neg fun hright => hne (hleft.trans hright.symm)]
    · -- it is at one end, since there is another
      have hright : c.right = unknown := by
        by_contra hright
        simp [other?, hleft, hright] at hother
      rw [if_neg hleft, if_pos hright]

end BinaryConstraint

/-- Effects that are the same, or the same but for the sides of a constraint. -/
inductive Effect.Mirrors : Effect → Effect → Prop where
  /-- The effect is the same. -/
  | refl (effect : Effect) : Mirrors effect effect
  /-- The constraint that is added may have its sides exchanged. -/
  | relate {c c' : BinaryConstraint} (h : c.Mirrors c') : Mirrors (.relate c) (.relate c')

namespace Network

variable {net net' : Network}

/-! ### Effects -/

/-- A constant is compared by a key that the other side has no say in. -/
theorem constantKey_mirror {e : ConstraintExpr} {l : Literal} {key : Int64}
    (h : constantKey e l = .ok key) : constantKey e.mirror l = .ok key := by
  cases l with
  | integer | character => exact h
  | item => cases h

section

variable {name : String} {e : ConstraintExpr} {i j : Nat} {offset offset' : Int64} {d d' : Domain}
  {l r : Literal}

/-- A relation of an unknown with itself prunes its candidates; one of two unknowns is kept as a
constraint. -/
theorem effectOf_unknowns (hleft : net.side e.left = .ok (.unknown i offset d))
    (hright : net.side e.right = .ok (.unknown j offset' d')) :
    net.effectOf name e = .ok (if i = j then
      .prune i fun key => e.comparison.holds (key + offset) (key + offset')
    else .relate ⟨i, offset, e.comparison, j, offset', name, e.render⟩) := by
  rw [effectOf, hleft, hright]
  by_cases hij : i = j
  · rw [if_pos hij]
    exact if_pos hij
  · rw [if_neg hij]
    exact if_neg hij

/-- A relation with a constant on its right prunes the candidates of the unknown. -/
theorem effectOf_unknown_literal (hleft : net.side e.left = .ok (.unknown i offset d))
    (hright : net.side e.right = .ok (.literal r)) :
    net.effectOf name e = (d.literalKey r).map fun constant =>
      .prune i fun key => e.comparison.holds (key + offset) constant := by
  rw [effectOf, hleft, hright]
  rfl

/-- A relation with a constant on its left prunes the candidates of the unknown. -/
theorem effectOf_literal_unknown (hleft : net.side e.left = .ok (.literal l))
    (hright : net.side e.right = .ok (.unknown j offset' d')) :
    net.effectOf name e = (d'.literalKey l).map fun constant =>
      .prune j fun key => e.comparison.holds constant (key + offset') := by
  rw [effectOf, hleft, hright]
  rfl

/-- A relation of two constants holds for the whole network or contradicts it. -/
theorem effectOf_literals (hleft : net.side e.left = .ok (.literal l))
    (hright : net.side e.right = .ok (.literal r)) :
    net.effectOf name e = (do
      let left ← constantKey e l
      let right ← constantKey e r
      return if e.comparison.holds left right then .nothing else .contradiction) := by
  rw [effectOf, hleft, hright]
  rfl

/-- A relation with its sides exchanged rules out the same candidates, is decided alike, or adds the
constraint with its sides exchanged. -/
theorem exists_effectOf_mirror {effect : Effect} (h : net.effectOf name e = .ok effect) :
    ∃ effect', net.effectOf name e.mirror = .ok effect' ∧ effect.Mirrors effect' := by
  have h' := h
  rw [effectOf, bind_eq_ok_iff] at h'
  obtain ⟨left, hleft, h'⟩ := h'
  obtain ⟨right, hright, -⟩ := bind_eq_ok_iff.1 h'
  clear h'
  -- each side is resolved in the place of the other
  have hleft' : net.side e.mirror.left = .ok right := hright
  have hright' : net.side e.mirror.right = .ok left := hleft
  have hholds (x y : Int64) : e.mirror.comparison.holds y x = e.comparison.holds x y :=
    e.comparison.holds_flip x y
  cases left with
  | unknown i offset d =>
    cases right with
    | unknown j offset' d' =>
      rw [effectOf_unknowns hleft hright] at h
      rw [effectOf_unknowns hleft' hright']
      refine ⟨_, rfl, ?_⟩
      obtain rfl := Except.ok.inj h
      by_cases hij : i = j
      · -- an unknown that is compared with itself loses the same candidates
        rw [if_pos hij, if_pos hij.symm, hij]
        simp only [hholds]
        exact .refl _
      · rw [if_neg hij, if_neg (Ne.symm hij)]
        exact .relate (.mirror hij _)
    | literal r =>
      rw [effectOf_unknown_literal hleft hright] at h
      rw [effectOf_literal_unknown hleft' hright']
      simp only [hholds]
      exact ⟨effect, h, .refl _⟩
  | literal l =>
    cases right with
    | unknown j offset' d' =>
      rw [effectOf_literal_unknown hleft hright] at h
      rw [effectOf_unknown_literal hleft' hright']
      simp only [hholds]
      exact ⟨effect, h, .refl _⟩
    | literal r =>
      rw [effectOf_literals hleft hright, bind_eq_ok_iff] at h
      obtain ⟨x, hx, h⟩ := h
      rw [bind_eq_ok_iff] at h
      obtain ⟨y, hy, h⟩ := h
      -- the constants are evaluated in the other order, but both have values
      rw [effectOf_literals hleft' hright', constantKey_mirror hx, constantKey_mirror hy]
      refine ⟨effect, ?_, .refl _⟩
      rw [← h, ← hholds]
      rfl

end

/-! ### Applying effects -/

/-- Networks that are the same but for the sides of their constraints. -/
structure Mirrors (net net' : Network) : Prop where
  /-- The unknowns and their candidates are the same. -/
  unknowns_eq : net'.unknowns = net.unknowns
  /-- A relation between constants was false in both or in neither. -/
  contradiction_eq : net'.contradiction = net.contradiction
  /-- The unknowns take part in the constraints of the same numbers. -/
  incidence_eq : net'.incidence = net.incidence
  /-- There are as many constraints. -/
  size_eq : net'.constraints.size = net.constraints.size
  /-- Constraints of the same number are the same but for their sides. -/
  constraints_rel : ∀ number : Nat,
    Option.Rel BinaryConstraint.Mirrors net.constraints[number]? net'.constraints[number]?

theorem Mirrors.refl (net : Network) : net.Mirrors net where
  unknowns_eq := rfl
  contradiction_eq := rfl
  incidence_eq := rfl
  size_eq := rfl
  constraints_rel number := by
    cases net.constraints[number]? with
    | none => exact .none
    | some c => exact .some .refl

/-- The order in which a number is noted at two unknowns does not matter. -/
theorem modify_push_comm (incidence : Array (Array Nat)) (i j number : Nat) :
    (incidence.modify j (·.push number)).modify i (·.push number) =
      (incidence.modify i (·.push number)).modify j (·.push number) := by
  refine Array.ext_getElem? fun n => ?_
  simp only [Array.getElem?_modify]
  by_cases hi : i = n <;> by_cases hj : j = n <;> simp [hi, hj]

/-- Constraints that mirror each other get the same number. -/
theorem Mirrors.addConstraint (h : net.Mirrors net') {c c' : BinaryConstraint}
    (hc : c.Mirrors c') : (net.addConstraint c).Mirrors (net'.addConstraint c') where
  unknowns_eq := h.unknowns_eq
  contradiction_eq := h.contradiction_eq
  incidence_eq := by
    simp only [Network.addConstraint, h.incidence_eq, h.size_eq]
    -- the same number is noted at the same two unknowns
    cases hc with
    | refl => rfl
    | mirror => exact modify_push_comm _ _ _ _
  size_eq := by simp [Network.addConstraint, h.size_eq]
  constraints_rel number := by
    simp only [Network.addConstraint, Array.getElem?_push, h.size_eq]
    split
    · exact .some hc
    · exact h.constraints_rel number

/-- An effect keeps networks the same but for the sides of constraints. -/
theorem Mirrors.apply (h : net.Mirrors net') {e e' : Effect} (he : e.Mirrors e') :
    (net.apply e).Mirrors (net'.apply e') := by
  cases he with
  | relate hc => exact h.addConstraint hc
  | refl =>
    cases e with
    | relate c => exact h.addConstraint .refl
    | nothing => exact h
    | contradiction => exact { h with contradiction_eq := rfl }
    | prune unknown keep =>
      refine { h with unknowns_eq := ?_ }
      simp only [Network.apply, prune, h.unknowns_eq]

/-- So do several effects. -/
theorem Mirrors.foldl_apply {es es' : List Effect} (hes : List.Forall₂ Effect.Mirrors es es')
    (h : net.Mirrors net') :
    (es.foldl Network.apply net).Mirrors (es'.foldl Network.apply net') := by
  induction hes generalizing net net' with
  | nil => exact h
  | cons he _ ih => exact ih (h.apply he)

/-! ### Searching -/

/-- The check of a constraint says the same in both networks. -/
theorem Mirrors.verdict?_eq (h : net.Mirrors net') :
    Search.verdict? net' = Search.verdict? net := by
  have hkey : net'.keyOf = net.keyOf := by
    funext unknown position
    rw [keyOf, keyOf, h.unknowns_eq]
  funext unknown position a number
  rw [Search.verdict?, Search.verdict?, hkey]
  -- there is no constraint of this number in either network, or one in both
  have hrel := h.constraints_rel number
  generalize net.constraints[number]? = found at hrel
  generalize net'.constraints[number]? = found' at hrel
  cases hrel with
  | none => rfl
  | @some c c' hc =>
    simp only [Option.bind_eq_bind, Option.bind_some, hc.other?_eq]
    cases hother : c.other? unknown with
    | none => rfl
    | some other => simp only [Option.bind_some, hc.holdsFor_eq hother]

/-- Networks that are the same but for the sides of their constraints are searched alike. -/
theorem Mirrors.search_eq (h : net.Mirrors net') (limit : Option Nat) :
    Search.search net' limit = Search.search net limit :=
  Search.search_congr h.unknowns_eq h.contradiction_eq h.incidence_eq h.verdict?_eq limit

end Network

end FiniteDomain
