import FiniteDomain.Proofs.Network.Construction

/-!
# Construction with checked arithmetic

Sums and differences of words wrap. Here the functions that compute with keys are written once more
with sums and differences that stop at an overflow, and the construction of networks with them. On
the networks that are passed through, neither version ever differs from the other: domains are
proper, candidates are positions, and the offset of a side was checked at both ends of its domain.

## Main definitions

* `Fault`: an overflow, or what stops the computation without checks.
* `Domain.keyChecked`, `BinaryConstraint.holdsChecked`, `Network.pruneChecked`,
  `Network.buildChecked`: the checked functions.
* `Network.OffsetsFit`: no offset of a constraint overflows at a key of its unknown.

## Main results

* `Domain.keyChecked_eq`: the checked key of a position is its key.
* `Network.buildChecked_eq`: checked construction ends as construction does.
* `Network.fitting_of_build`: the offsets of a network that was built fit.
-/

namespace FiniteDomain

/-- Why a computation with checked arithmetic stops. -/
inductive Fault where
  /-- A sum or a difference leaves the word. -/
  | overflow
  /-- The computation without checks stops as well. -/
  | failed (error : SolveError)

/-- What a computation ends with when none of its sums and differences overflows. -/
def unchecked {α : Type} (x : Except SolveError α) : Except Fault α :=
  x.mapError .failed

@[simp]
theorem unchecked_ok {α : Type} (a : α) : unchecked (.ok a) = .ok a :=
  rfl

/-- A failure of the first step is the failure of both. -/
theorem unchecked_bind {α β : Type} (x : Except SolveError α) (f : α → Except SolveError β) :
    unchecked (x >>= f) = unchecked x >>= fun a => unchecked (f a) := by
  cases x <;> rfl

namespace Word

/-- The difference of two words, if it fits the word. -/
def subExact? (a b : Int64) : Option Int64 :=
  ofInt? (a.toInt - b.toInt)

/-- The sum of two words, unless it overflows. -/
def addChecked (a b : Int64) : Except Fault Int64 :=
  (addExact? a b).elim (.error .overflow) .ok

/-- The difference of two words, unless it overflows. -/
def subChecked (a b : Int64) : Except Fault Int64 :=
  (subExact? a b).elim (.error .overflow) .ok

/-- A sum that is the exact one passes the check. -/
theorem addChecked_eq {a b : Int64} (h : (a + b).toInt = a.toInt + b.toInt) :
    addChecked a b = .ok (a + b) := by
  rw [addChecked, addExact?_eq_some_iff.2 h]
  rfl

/-- A difference that is the exact one passes the check. -/
theorem subChecked_eq {a b : Int64} (h : (a - b).toInt = a.toInt - b.toInt) :
    subChecked a b = .ok (a - b) := by
  rw [subChecked, subExact?, ofInt?_eq_some_iff.2 h]
  rfl

end Word

namespace Domain

variable {d : Domain}

/-- The key of a position. -/
def keyChecked : Domain → Int64 → Except Fault Int64
  | intRange low _, position => do
    let distance ← Word.subChecked position 1
    Word.addChecked low distance
  | charRange low _, position => do
    let distance ← Word.subChecked position 1
    Word.addChecked (codePoint low) distance
  | list _, position => .ok position
  | table _, position => .ok position

/-- Positions are counted from 1, so the distance from the first one fits. -/
theorem subChecked_one {p : Int64} (hp : p ∈ d.positions) : Word.subChecked p 1 = .ok (p - 1) :=
  Word.subChecked_eq (Word.toInt_sub_one (mem_positions.1 hp).1)

/-- The key of a position lies between the ends of a range, so it fits. -/
theorem addChecked_intRange {low high p : Int64} (hd : (intRange low high).Proper)
    (hp : p ∈ (intRange low high).positions) :
    Word.addChecked low (p - 1) = .ok (low + (p - 1)) := by
  refine Word.addChecked_eq ?_
  rw [Word.toInt_sub_one (mem_positions.1 hp).1]
  exact toInt_key hd hp

/-- The checked key of a position is its key. -/
theorem keyChecked_eq (hd : d.Proper) {p : Int64} (hp : p ∈ d.positions) :
    d.keyChecked p = .ok (d.key p) := by
  cases d with
  | intRange low high =>
    rw [keyChecked, subChecked_one hp]
    exact addChecked_intRange hd hp
  | charRange low high =>
    rw [keyChecked, subChecked_one hp]
    refine Word.addChecked_eq ?_
    rw [Word.toInt_sub_one (mem_positions.1 hp).1, toInt_codePoint]
    exact toInt_key hd hp
  | list items | table items => rfl

/-- Both ends of a proper range are positions; the other domains compute nothing. -/
theorem keyChecked_ends (hd : d.Proper) :
    d.keyChecked 1 = .ok (d.key 1) ∧ d.keyChecked d.sizeWord = .ok (d.key d.sizeWord) := by
  have hends : 1 ≤ d.sizeWord → d.keyChecked 1 = .ok (d.key 1) ∧
      d.keyChecked d.sizeWord = .ok (d.key d.sizeWord) := by
    intro hone
    exact ⟨keyChecked_eq hd (mem_positions.2 ⟨Int64.le_refl 1, hone⟩),
      keyChecked_eq hd (mem_positions.2 ⟨hone, Int64.le_refl _⟩)⟩
  cases d with
  | intRange low high =>
    apply hends
    rw [Word.one_le_iff, toInt_sizeWord_intRange hd]
    have hle := hd.1
    omega
  | charRange low high =>
    apply hends
    have hle : low.toNat ≤ high.toNat := UInt32.le_iff_toNat_le.1 hd.1
    rw [Word.one_le_iff, toInt_sizeWord_charRange hd]
    omega
  | list items | table items => exact ⟨rfl, rfl⟩

/-- The value at a position. -/
def valueChecked (d : Domain) (position : Int64) : Except Fault (Option Value) :=
  if position < 1 ∨ d.sizeWord < position then .ok none
  else do
    let distance ← Word.subChecked position 1
    match d with
    | intRange low _ =>
      let value ← Word.addChecked low distance
      return some (.int value)
    | charRange low _ =>
      return (charOfCodePoint? (low.val + distance.toUInt64.toUInt32)).map .char
    | list items => return items[distance.toNatClampNeg]?.map .item
    | table items => return items[distance.toNatClampNeg]?.map .item

/-- The checked value is the value, at positions and elsewhere. -/
theorem valueChecked_eq (hd : d.Proper) (p : Int64) : d.valueChecked p = .ok (d.value? p) := by
  rw [valueChecked, value?]
  split
  case isTrue => rfl
  case isFalse hinside =>
    have hp := mem_positions_iff_inside.2 hinside
    rw [subChecked_one hp]
    cases d with
    | intRange low high =>
      simp only [bind, Except.bind, addChecked_intRange hd hp]
      rfl
    | charRange low high | list items | table items => rfl

end Domain

/-- Whether the constraint holds of a left and a right key. -/
def BinaryConstraint.holdsChecked (c : BinaryConstraint) (leftKey rightKey : Int64) :
    Except Fault Bool := do
  let left ← Word.addChecked leftKey c.leftOffset
  let right ← Word.addChecked rightKey c.rightOffset
  return c.comparison.holds left right

/-- Whether the constraint holds when `unknown` has the key `key` and the other end `otherKey`. -/
def BinaryConstraint.holdsForChecked (c : BinaryConstraint) (unknown : Nat)
    (key otherKey : Int64) : Except Fault Bool :=
  if c.left = unknown then c.holdsChecked key otherKey else c.holdsChecked otherKey key

namespace Network

/-- The key of a position of an unknown. -/
def keyOfChecked (net : Network) (unknown : Nat) (position : Int64) : Except Fault Int64 :=
  match net.unknowns[unknown]? with
  | some u => u.domain.keyChecked position
  | none => .ok position

/-- Keeps the candidates of an unknown whose keys satisfy `keep`, once all of them are checked. -/
def pruneChecked (net : Network) (unknown : Nat) (keep : Int64 → Except Fault Bool) :
    Except Fault Network := do
  let _ ← (net.candidatesOf unknown).mapM fun position => do
    let key ← net.keyOfChecked unknown position
    keep key
  return net.prune unknown fun key => (keep key).toOption.getD false

/-- Adding the offset to the least or the greatest key of the domain leaves the word. -/
def overflowsChecked (d : Domain) (offset : Int64) : Except Fault Bool := do
  let least ← d.keyChecked 1
  let greatest ← d.keyChecked d.sizeWord
  return (Word.addExact? least offset).isNone || (Word.addExact? greatest offset).isNone

/-- Resolves one side of a relation. -/
def sideChecked (net : Network) (t : Term) : Except Fault Side :=
  match t.operand with
  | .reference r => do
    let (number, u) ← unchecked (net.resolve r)
    let offset ← unchecked t.offset
    let overflow ← overflowsChecked u.domain offset
    if overflow then throw (.failed (.unsupported (.overflow t.render u.domain.render)))
    return .unknown number offset u.domain
  | .literal _ => unchecked (net.side t)

/-- Adds a relation of the model's constraint `name`. -/
def addRelationChecked (name : String) (net : Network) (e : ConstraintExpr) :
    Except Fault Network := do
  let left ← net.sideChecked e.left
  let right ← net.sideChecked e.right
  match left, right with
  | .unknown a offsetA _, .unknown b offsetB _ =>
    if a = b then
      net.pruneChecked a fun key => do
        let x ← Word.addChecked key offsetA
        let y ← Word.addChecked key offsetB
        return e.comparison.holds x y
    else return net.addConstraint ⟨a, offsetA, e.comparison, b, offsetB, name, e.render⟩
  | .unknown a offset d, .literal value =>
    let constant ← unchecked (d.literalKey value)
    net.pruneChecked a fun key => do
      let x ← Word.addChecked key offset
      return e.comparison.holds x constant
  | .literal value, .unknown a offset d =>
    let constant ← unchecked (d.literalKey value)
    net.pruneChecked a fun key => do
      let y ← Word.addChecked key offset
      return e.comparison.holds constant y
  | .literal _, .literal _ => unchecked (net.addRelation name e)

/-- Adds a constraint of the model. -/
def addModelConstraintChecked (m : Model) (net : Network) :
    ModelConstraint → Except Fault Network
  | .expression name text => do
    let relations ← unchecked (relationsOf text)
    relations.foldlM (addRelationChecked name) net
  | .allDifferent name text => unchecked (addAllDifferent m name (allDifferentTarget text) net)

/-- The network of a model. -/
def buildChecked (m : Model) : Except Fault Network := do
  let b ← unchecked (Builder.declareAll m)
  m.constraints.foldlM (addModelConstraintChecked m) b.network

variable {net : Network}

/-! ### Exact steps -/

/-- Only an unknown of the network has candidates. -/
theorem exists_unknown_of_mem_candidatesOf {n : Nat} {p : Int64} (hp : p ∈ net.candidatesOf n) :
    ∃ u, net.unknowns[n]? = some u ∧ p ∈ u.candidates := by
  unfold candidatesOf at hp
  split at hp
  · next u hu => exact ⟨u, hu, hp⟩
  · cases hp

/-- Candidates are positions of a proper domain, where the checked key is the key. -/
theorem keyOfChecked_eq (hnet : net.Sound) {n : Nat} {p : Int64} (hp : p ∈ net.candidatesOf n) :
    net.keyOfChecked n p = .ok (net.keyOf n p) := by
  obtain ⟨u, hu, hmem⟩ := exists_unknown_of_mem_candidatesOf hp
  have hin := Array.mem_of_getElem? hu
  rw [keyOfChecked, keyOf, hu]
  exact Domain.keyChecked_eq (hnet.proper u hin) (hnet.candidates_subset u hin hmem)

/-- The offset overflows at no key of an unknown. -/
def FitsAt (net : Network) (n : Nat) (offset : Int64) : Prop :=
  ∀ d, net.directory.domains[n]? = some d → overflows d offset = false

/-- No offset of a constraint overflows at a key of its unknown. -/
def OffsetsFit (net : Network) : Prop :=
  ∀ c ∈ net.constraints, net.FitsAt c.left c.leftOffset ∧ net.FitsAt c.right c.rightOffset

/-- The offset of a side is accepted only if it overflows at no end of the domain. -/
theorem RefersTo.fitsAt {t : Term} {n : Nat} {offset : Int64} {d : Domain}
    (h : net.RefersTo t n offset d) : net.FitsAt n offset := by
  intro d' hd'
  obtain rfl : d = d' := Option.some.inj (h.domain.symm.trans hd')
  exact h.fits

/-- The checked sum of the key of a candidate and an offset that fits is their sum. -/
theorem FitsAt.addChecked_eq {n : Nat} {offset : Int64} (h : net.FitsAt n offset)
    (hnet : net.Sound) {p : Int64} (hp : p ∈ net.candidatesOf n) :
    Word.addChecked (net.keyOf n p) offset = .ok (net.keyOf n p + offset) := by
  obtain ⟨u, hu, hmem⟩ := exists_unknown_of_mem_candidatesOf hp
  have hin := Array.mem_of_getElem? hu
  have hpos := hnet.candidates_subset u hin hmem
  have hd : net.directory.domains[n]? = some u.domain := by
    rw [getElem?_domains, hu]
    rfl
  rw [keyOf_eq hd]
  refine Word.addChecked_eq ?_
  rw [Domain.toInt_key_add (hnet.proper u hin) (h u.domain hd) hpos,
    Domain.toInt_key (hnet.proper u hin) hpos]

/-- A predicate on keys matters for the candidates only. -/
theorem prune_congr {n : Nat} {keep keep' : Int64 → Bool}
    (h : ∀ p ∈ net.candidatesOf n, keep (net.keyOf n p) = keep' (net.keyOf n p)) :
    net.prune n keep = net.prune n keep' := by
  unfold prune
  congr 1
  apply Array.ext_getElem?
  intro i
  rw [Array.getElem?_modify, Array.getElem?_modify]
  split
  case isFalse => rfl
  case isTrue heq =>
    subst heq
    cases hu : net.unknowns[n]? with
    | none => rfl
    | some u =>
      simp only [candidatesOf, keyOf, hu] at h
      simp only [Option.map_some, Option.some.injEq, Unknown.mk.injEq, true_and]
      exact List.filter_congr h

/-- Pruning with checks is pruning if the checked predicate agrees at every candidate. -/
theorem pruneChecked_eq (hnet : net.Sound) {n : Nat} {keepChecked : Int64 → Except Fault Bool}
    {keep : Int64 → Bool}
    (h : ∀ p ∈ net.candidatesOf n, keepChecked (net.keyOf n p) = .ok (keep (net.keyOf n p))) :
    net.pruneChecked n keepChecked = .ok (net.prune n keep) := by
  have hchecks : ((net.candidatesOf n).mapM fun p => do
      let key ← net.keyOfChecked n p
      keepChecked key) = .ok ((net.candidatesOf n).map fun p => keep (net.keyOf n p)) := by
    refine mapM_eq_ok fun p hp => ?_
    rw [keyOfChecked_eq hnet hp]
    exact h p hp
  rw [pruneChecked, hchecks]
  show Except.ok _ = _
  rw [prune_congr fun p hp => by rw [h p hp]; rfl]

/-- Pruning by a sum with an offset that fits is exact. -/
theorem FitsAt.pruneChecked_eq {n : Nat} {offset : Int64} (h : net.FitsAt n offset)
    (hnet : net.Sound) (keep : Int64 → Bool) :
    net.pruneChecked n (fun key => do
        let x ← Word.addChecked key offset
        return keep x) =
      .ok (net.prune n fun key => keep (key + offset)) := by
  refine Network.pruneChecked_eq hnet fun p hp => ?_
  rw [h.addChecked_eq hnet hp]
  rfl

/-- The check of an offset looks at the two ends of a domain, whose keys are exact. -/
theorem overflowsChecked_eq {d : Domain} (hd : d.Proper) (offset : Int64) :
    overflowsChecked d offset = .ok (overflows d offset) := by
  obtain ⟨hleast, hgreatest⟩ := Domain.keyChecked_ends hd
  rw [overflowsChecked, hleast, hgreatest]
  rfl

theorem sideChecked_eq (hnet : net.Sound) (t : Term) :
    net.sideChecked t = unchecked (net.side t) := by
  unfold sideChecked
  split
  case h_2 => rfl
  case h_1 r hr =>
    rw [side, hr]
    dsimp only
    cases hresolve : net.resolve r with
    | error e => rfl
    | ok found =>
      obtain ⟨number, u⟩ := found
      cases hoffset : t.offset with
      | error e => rfl
      | ok offset =>
        obtain ⟨key, -, -, hu⟩ := resolve_eq_ok hresolve
        have hproper : u.domain.Proper := hnet.proper u (Array.mem_of_getElem? hu)
        simp only [unchecked_ok, bind, Except.bind, overflowsChecked_eq hproper]
        split <;> rfl

/-- A relation enters the network with checks as without: all sums are of keys and of offsets that
fit. -/
theorem addRelationChecked_eq (hnet : net.Sound) (name : String) (e : ConstraintExpr) :
    addRelationChecked name net e = unchecked (addRelation name net e) := by
  rw [addRelationChecked, sideChecked_eq hnet, sideChecked_eq hnet]
  cases hleft : net.side e.left with
  | error error =>
    rw [addRelation, effectOf, hleft]
    rfl
  | ok left =>
    cases hright : net.side e.right with
    | error error =>
      rw [addRelation, effectOf, hleft, hright]
      rfl
    | ok right =>
      -- the sides are resolved alike; what is left is the check of the candidates, which computes
      -- only with unknowns
      rcases left with ⟨a, offsetA, dA⟩ | l <;> rcases right with ⟨b, offsetB, dB⟩ | r
      · have ha := (refersTo_of_side hleft).fitsAt
        have hb := (refersTo_of_side hright).fitsAt
        rw [addRelation, effectOf, hleft, hright]
        simp only [unchecked_ok, bind, Except.bind]
        split
        case isFalse => rfl
        case isTrue heq =>
          -- a relation of an unknown with itself adds both offsets to one key
          subst heq
          show _ = Except.ok (net.prune a fun key =>
            e.comparison.holds (key + offsetA) (key + offsetB))
          refine pruneChecked_eq hnet fun p hp => ?_
          rw [ha.addChecked_eq hnet hp, hb.addChecked_eq hnet hp]
          rfl
      · have ha := (refersTo_of_side hleft).fitsAt
        rw [addRelation, effectOf, hleft, hright]
        simp only [unchecked_ok, bind, Except.bind]
        cases dA.literalKey r with
        | error error => rfl
        | ok constant =>
          exact ha.pruneChecked_eq hnet (e.comparison.holds · constant)
      · have hb := (refersTo_of_side hright).fitsAt
        rw [addRelation, effectOf, hleft, hright]
        simp only [unchecked_ok, bind, Except.bind]
        cases dB.literalKey l with
        | error error => rfl
        | ok constant =>
          exact hb.pruneChecked_eq hnet (e.comparison.holds constant)
      · rfl

/-! ### Offsets -/

/-- A network without constraints has no offsets. -/
theorem offsetsFit_of_constraints_eq_empty (h : net.constraints = #[]) : net.OffsetsFit := by
  intro c hc
  rw [h] at hc
  simp at hc

/-- Steps that leave the directory and the constraints as they are keep offsets fitting. -/
theorem OffsetsFit.congr {net' : Network} (h : net.OffsetsFit)
    (hdir : net'.directory = net.directory) (hconstraints : net'.constraints = net.constraints) :
    net'.OffsetsFit := by
  intro c hc
  rw [hconstraints] at hc
  unfold FitsAt
  rw [hdir]
  exact h c hc

/-- A constraint with two offsets that fit can be added. -/
theorem OffsetsFit.addConstraint (h : net.OffsetsFit) {c : BinaryConstraint}
    (hl : net.FitsAt c.left c.leftOffset) (hr : net.FitsAt c.right c.rightOffset) :
    (net.addConstraint c).OffsetsFit := by
  intro c' hc'
  rcases Array.mem_push.1 hc' with hc' | rfl
  · exact h c' hc'
  · exact ⟨hl, hr⟩

/-- A relation that is accepted adds no constraint, or one whose offsets were checked. -/
theorem OffsetsFit.addRelation (h : net.OffsetsFit) {name : String} {e : ConstraintExpr}
    {net' : Network} (hadd : addRelation name net e = .ok net') : net'.OffsetsFit := by
  rw [Network.addRelation, bind_eq_ok_iff] at hadd
  obtain ⟨effect, heffect, hadd⟩ := hadd
  cases hadd
  rw [effectOf, bind_eq_ok_iff] at heffect
  obtain ⟨left, hleft, heffect⟩ := heffect
  rw [bind_eq_ok_iff] at heffect
  obtain ⟨right, hright, heffect⟩ := heffect
  -- a constraint is added for two unknowns only, and both sides were checked
  rcases left with ⟨a, offsetA, dA⟩ | l <;> rcases right with ⟨b, offsetB, dB⟩ | r <;>
    dsimp only at heffect
  · split at heffect
    · cases heffect
      exact h.congr (directory_prune _ _) rfl
    · cases heffect
      exact h.addConstraint (refersTo_of_side hleft).fitsAt (refersTo_of_side hright).fitsAt
  · rw [bind_eq_ok_iff] at heffect
    obtain ⟨constant, -, heffect⟩ := heffect
    cases heffect
    exact h.congr (directory_prune _ _) rfl
  · rw [bind_eq_ok_iff] at heffect
    obtain ⟨constant, -, heffect⟩ := heffect
    cases heffect
    exact h.congr (directory_prune _ _) rfl
  · rw [bind_eq_ok_iff] at heffect
    obtain ⟨x, -, heffect⟩ := heffect
    rw [bind_eq_ok_iff] at heffect
    obtain ⟨y, -, heffect⟩ := heffect
    cases heffect
    split
    · exact h
    · exact h.congr rfl rfl

/-- The offset zero never overflows. -/
theorem fitsAt_zero (net : Network) (n : Nat) : net.FitsAt n 0 := by
  intro d _
  have hzero : ∀ a : Int64, Word.addExact? a 0 = some a := by
    intro a
    rw [Word.addExact?_eq_some_iff]
    exact (Int.add_zero _).symm
  simp [overflows, hzero]

/-- The pairs of an all-different constraint have offsets 0. -/
theorem OffsetsFit.foldl_differ (h : net.OffsetsFit) (name target : String)
    (ps : List ((Nat × Nat) × (Nat × Nat))) :
    (ps.foldl (fun net (left, right) => net.addConstraint (differ name target left right))
      net).OffsetsFit := by
  induction ps generalizing net with
  | nil => exact h
  | cons pair ps ih => exact ih (h.addConstraint (fitsAt_zero _ _) (fitsAt_zero _ _))

/-! ### Whole constructions -/

/-- What the construction keeps: the network is sound and its offsets fit. -/
structure Fitting (net : Network) : Prop where
  /-- The network is sound. -/
  sound : net.Sound
  /-- Its offsets fit. -/
  offsetsFit : net.OffsetsFit

theorem Fitting.addRelation (h : net.Fitting) {name : String} {e : ConstraintExpr}
    {net' : Network} (hadd : addRelation name net e = .ok net') : net'.Fitting :=
  ⟨(refines_addRelation h.sound hadd).sound, h.offsetsFit.addRelation hadd⟩

/-- A constraint of the model is a list of relations or of pairs that differ. -/
theorem Fitting.addModelConstraint (h : net.Fitting) {m : Model} {c : ModelConstraint}
    {net' : Network} (hadd : addModelConstraint m net c = .ok net') : net'.Fitting := by
  cases c with
  | expression name text =>
    rw [Network.addModelConstraint, bind_eq_ok_iff] at hadd
    obtain ⟨relations, -, hadd⟩ := hadd
    exact foldlM_invariant (fun _ _ _ hnet => hnet.addRelation) h hadd
  | allDifferent name text =>
    refine ⟨(refines_addModelConstraint h.sound hadd).sound, ?_⟩
    rw [Network.addModelConstraint, addAllDifferent] at hadd
    split at hadd
    · cases hadd
    next a _ =>
      rw [bind_eq_ok_iff] at hadd
      obtain ⟨elements, -, hadd⟩ := hadd
      cases hadd
      exact h.offsetsFit.foldl_differ _ _ _

/-- A constraint of the model enters the network with checks as without. -/
theorem addModelConstraintChecked_eq (h : net.Fitting) (m : Model) (c : ModelConstraint) :
    addModelConstraintChecked m net c = unchecked (addModelConstraint m net c) := by
  cases c with
  | expression name text =>
    rw [addModelConstraintChecked, addModelConstraint, unchecked_bind]
    refine bind_congr fun relations => ?_
    exact foldlM_mapError (fun _ e _ hnet => addRelationChecked_eq hnet.sound name e)
      (fun _ _ _ hnet => hnet.addRelation) h
  | allDifferent name text => rfl

/-- After the declarations there are no constraints yet. -/
theorem fitting_of_declareAll {m : Model} {b : Builder} (h : Builder.declareAll m = .ok b) :
    b.network.Fitting := by
  obtain ⟨domains, -, hdeclares⟩ := declares_of_declareAll h
  exact ⟨hdeclares.sound, offsetsFit_of_constraints_eq_empty hdeclares.constraints_eq⟩

/-- Checked construction ends as construction does, whether that succeeds or not. -/
theorem buildChecked_eq (m : Model) : buildChecked m = unchecked (build m) := by
  rw [buildChecked, build, unchecked_bind]
  cases h : Builder.declareAll m with
  | error e => rfl
  | ok b =>
    exact foldlM_mapError (fun _ c _ hnet => addModelConstraintChecked_eq hnet m c)
      (fun _ _ _ hnet => hnet.addModelConstraint) (fitting_of_declareAll h)

/-- A network that was built is sound and its offsets fit. -/
theorem fitting_of_build {m : Model} (h : build m = .ok net) : net.Fitting := by
  rw [build, bind_eq_ok_iff] at h
  obtain ⟨b, hb, h⟩ := h
  exact foldlM_invariant (fun _ _ _ hnet => hnet.addModelConstraint) (fitting_of_declareAll hb) h

end Network

end FiniteDomain
