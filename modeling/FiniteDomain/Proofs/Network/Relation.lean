import FiniteDomain.Proofs.Domain.Evaluation
import FiniteDomain.Proofs.Network.Meaning
import FiniteDomain.Proofs.Network.Solution

/-!
# Adding constraints to a network

A relation becomes a binary constraint, rules out candidates, or decides between constants. In each
case the choices that meet the network afterwards are those that met it before and make the relation
true. The same holds for the pairwise constraints of an aggregate whose elements are to differ.

## Main definitions

* `Network.Sound`: what every step of the construction keeps.
* `Network.Meets`: a choice takes candidates, satisfies the constraints, and no relation between
  constants was false.
* `Network.Refines`: a step leaves the choices that satisfy a condition.

## Main results

* `refines_addRelation`, `refines_addAllDifferent`: adding a constraint leaves the choices under
  which it is true.
* `refines_addModelConstraint`: the same for any constraint of a model.
-/

namespace FiniteDomain

namespace Network

/-- What every step of the construction keeps: the network is well-formed, domains are proper,
candidates are positions, and a key leads to an unknown with that key. -/
structure Sound (net : Network) : Prop where
  /-- Constraints and the lists of the unknowns fit together. -/
  wellFormed : net.WellFormed
  /-- There is a list of constraints for each unknown. -/
  incidence_size : net.incidence.size = net.unknowns.size
  /-- Domains are proper. -/
  proper : ∀ u ∈ net.unknowns, u.domain.Proper
  /-- Candidates are positions. -/
  candidates_subset : ∀ u ∈ net.unknowns, u.candidates ⊆ u.domain.positions
  /-- A key leads to an unknown with that key. -/
  lookup_key : ∀ {key n}, net.lookup key = some n → ∃ u, net.unknowns[n]? = some u ∧ u.key = key

/-- The choice takes candidates and satisfies the constraints, and no relation between constants was
false. -/
def Meets (net : Network) (v : List Int64) : Prop :=
  net.Agrees v ∧ net.contradiction = false

variable {net : Network} {v : List Int64}

/-! ### The steps -/

/-- The key of a position depends on the domain of the unknown only. -/
theorem keyOf_eq {n : Nat} {d : Domain} (hd : net.directory.domains[n]? = some d) (p : Int64) :
    net.keyOf n p = d.key p := by
  rw [getElem?_domains, Option.map_eq_some_iff] at hd
  obtain ⟨u, hu, rfl⟩ := hd
  rw [keyOf, hu]

/-- Ruling out candidates filters those of one unknown. -/
theorem candidatesOf_prune (n i : Nat) (keep : Int64 → Bool) :
    (net.prune n keep).candidatesOf i =
      if n = i then (net.candidatesOf i).filter fun p => keep (net.keyOf i p)
      else net.candidatesOf i := by
  simp only [candidatesOf, keyOf, prune, Array.getElem?_modify]
  by_cases h : n = i
  · cases net.unknowns[i]? <;> simp [h]
  · simp [h]

/-- Ruling out candidates leaves everything else about the unknowns as it is. -/
theorem map_unknowns_prune {α : Type} (f : Unknown → α) (n : Nat) (keep : Int64 → Bool)
    (hf : ∀ u candidates ascending, f { u with candidates, ascending } = f u) :
    (net.prune n keep).unknowns.toList.map f = net.unknowns.toList.map f := by
  refine List.ext_getElem? fun i => ?_
  simp only [List.getElem?_map, Array.getElem?_toList, prune, Array.getElem?_modify]
  split <;> cases net.unknowns[i]? <;> simp [hf]

/-- Ruling out candidates leaves the directory as it is. -/
@[simp]
theorem directory_prune (n : Nat) (keep : Int64 → Bool) :
    (net.prune n keep).directory = net.directory := by
  rw [directory, map_unknowns_prune _ n keep fun _ _ _ => rfl,
    map_unknowns_prune _ n keep fun _ _ _ => rfl]
  rfl

/-- Keys do not depend on candidates. -/
theorem keyOf_prune (n : Nat) (keep : Int64 → Bool) :
    (net.prune n keep).keyOf = net.keyOf := by
  funext i p
  simp only [keyOf, prune, Array.getElem?_modify]
  by_cases h : n = i <;> cases net.unknowns[i]? <;> simp [h]

/-- Ruling out candidates of an unknown leaves the choices whose key is kept. -/
theorem agrees_prune_iff (n : Nat) (keep : Int64 → Bool) :
    (net.prune n keep).Agrees v ↔
      net.Agrees v ∧ ∀ p, v[n]? = some p → keep (net.keyOf n p) = true := by
  -- the constraints stay as they are, so only candidates of the one unknown matter
  constructor
  · intro h
    refine ⟨⟨?_, ?_⟩, ?_⟩
    · intro i p hp
      have hmem := h.candidate hp
      rw [candidatesOf_prune] at hmem
      split at hmem
      · exact List.mem_of_mem_filter hmem
      · exact hmem
    · intro c hc p q hp hq
      rw [← keyOf_prune n keep]
      exact h.satisfied c hc hp hq
    · intro p hp
      have hmem := h.candidate hp
      rw [candidatesOf_prune, if_pos rfl, List.mem_filter] at hmem
      exact hmem.2
  · rintro ⟨h, hkeep⟩
    refine ⟨?_, ?_⟩
    · intro i p hp
      rw [candidatesOf_prune]
      split
      case isTrue heq =>
        subst heq
        exact List.mem_filter.2 ⟨h.candidate hp, hkeep p hp⟩
      case isFalse => exact h.candidate hp
    · intro c hc p q hp hq
      rw [keyOf_prune]
      exact h.satisfied c hc hp hq

/-- A new constraint leaves the choices that satisfy it. -/
theorem agrees_addConstraint_iff (c : BinaryConstraint) :
    (net.addConstraint c).Agrees v ↔
      net.Agrees v ∧ ∀ p q, v[c.left]? = some p → v[c.right]? = some q →
        c.holds (net.keyOf c.left p) (net.keyOf c.right q) = true := by
  constructor
  · intro h
    refine ⟨⟨h.candidate, ?_⟩, ?_⟩
    · intro d hd p q hp hq
      exact h.satisfied d (Array.mem_push.2 (.inl hd)) hp hq
    · intro p q hp hq
      exact h.satisfied c (Array.mem_push.2 (.inr rfl)) hp hq
  · rintro ⟨h, hc⟩
    refine ⟨h.candidate, ?_⟩
    intro d hd p q hp hq
    rcases Array.mem_push.1 hd with hd | rfl
    · exact h.satisfied d hd hp hq
    · exact hc p q hp hq

/-- Ruling out candidates keeps a network sound. -/
theorem Sound.prune (h : net.Sound) (n : Nat) (keep : Int64 → Bool) :
    (net.prune n keep).Sound := by
  -- only the candidates of one unknown change, not its domain or its key
  have hget : ∀ i, (net.prune n keep).unknowns[i]? =
      (net.unknowns[i]?).map fun u => if n = i then
        { u with
          candidates := u.candidates.filter fun p => keep (u.domain.key p)
          ascending := u.ascending.filter _ } else u := by
    intro i
    simp only [Network.prune, Array.getElem?_modify]
    split <;> simp
  refine ⟨h.wellFormed.prune n keep, ?_, ?_, ?_, ?_⟩
  · rw [Network.prune, Array.size_modify]
    exact h.incidence_size
  · intro u hu
    obtain ⟨i, hi⟩ := Array.mem_iff_getElem?.1 hu
    rw [hget, Option.map_eq_some_iff] at hi
    obtain ⟨w, hw, rfl⟩ := hi
    have := h.proper w (Array.mem_of_getElem? hw)
    split <;> exact this
  · intro u hu
    obtain ⟨i, hi⟩ := Array.mem_iff_getElem?.1 hu
    rw [hget, Option.map_eq_some_iff] at hi
    obtain ⟨w, hw, rfl⟩ := hi
    have hsubset := h.candidates_subset w (Array.mem_of_getElem? hw)
    split
    · exact fun p hp => hsubset (List.mem_of_mem_filter hp)
    · exact hsubset
  · intro key i hi
    obtain ⟨u, hu, hkey⟩ := h.lookup_key hi
    refine ⟨_, by rw [hget, hu]; rfl, ?_⟩
    split <;> exact hkey

/-- A constraint between different unknowns keeps a network sound. -/
theorem Sound.addConstraint (h : net.Sound) {c : BinaryConstraint}
    (hl : c.left < net.unknowns.size) (hr : c.right < net.unknowns.size) (hne : c.left ≠ c.right) :
    (net.addConstraint c).Sound := by
  refine ⟨h.wellFormed.addConstraint h.incidence_size hl hr hne, ?_, h.proper,
    h.candidates_subset, h.lookup_key⟩
  rw [Network.addConstraint, Array.size_modify, Array.size_modify]
  exact h.incidence_size

/-! ### Relations -/

/-- The key that a reference is resolved by is the one that it addresses. -/
theorem address?_of_key {r : Reference} {key : UnknownKey} (h : r.key = .ok key) :
    r.address? = some key := by
  have hclamp : ∀ i : Int64, ¬ i < 0 → 0 ≤ i.toInt := by
    intro i hi
    rw [Int64.lt_iff_toInt_lt] at hi
    exact Int.not_lt.1 hi
  -- a counter as a subscript has no key, and neither has a negative number
  cases r with
  | singleton name => cases h; rfl
  | element aggregate subscript =>
    cases subscript with
    | counter name => cases h
    | literal i =>
      simp only [Reference.key] at h
      split at h
      case isTrue => cases h
      case isFalse hi =>
        cases h
        rw [Reference.address?, if_pos (hclamp i hi), Int64.toNat_toInt]
  | field bucket subscript name =>
    cases subscript with
    | counter name => cases h
    | literal i =>
      simp only [Reference.key] at h
      split at h
      case isTrue => cases h
      case isFalse hi =>
        cases h
        have hnonneg : 0 ≤ i := Int64.le_iff_toInt_le.2 (hclamp i hi)
        rw [Reference.address?, if_pos (hclamp i hi), Int64.toNat_toInt,
          ← Int64.toNat_toUInt64_of_le hnonneg, UInt64.ofNat_toNat]

/-- The offset of a term is what its adjustment adds. -/
theorem exactOffset?_of_offset {t : Term} {offset : Int64} (h : t.offset = .ok offset) :
    t.exactOffset? = some offset.toInt := by
  unfold Term.offset at h
  unfold Term.exactOffset?
  rcases t with ⟨operand, _ | ⟨sign, amount⟩⟩
  · cases h
    rfl
  · cases amount with
    | counter name => cases sign <;> cases h
    | literal k =>
      cases sign with
      | plus => cases h; rfl
      | minus =>
        simp only [Adjustment.offset] at h
        split at h
        · next hneg =>
          cases h
          rw [Word.negExact?_eq_some_iff.1 hneg]
        · cases h

/-- A term refers to the unknown of a number and a domain, and the offset of the term overflows at
no key. -/
structure RefersTo (net : Network) (t : Term) (n : Nat) (offset : Int64) (d : Domain) : Prop where
  /-- The reference of the term addresses the number. -/
  reference : ∃ r key, t.operand = .reference r ∧ r.address? = some key ∧
    net.directory.number? key = some n
  /-- The domain is that of the unknown. -/
  domain : net.directory.domains[n]? = some d
  /-- The offset is that of the term. -/
  exactOffset : t.exactOffset? = some offset.toInt
  /-- The offset overflows at no key. -/
  fits : overflows d offset = false

/-- A reference that is resolved has the key of an unknown. -/
theorem resolve_eq_ok {r : Reference} {n : Nat} {u : Unknown} (h : net.resolve r = .ok (n, u)) :
    ∃ key, r.key = .ok key ∧ net.lookup key = some n ∧ net.unknowns[n]? = some u := by
  rw [resolve, bind_eq_ok_iff] at h
  obtain ⟨key, hkey, h⟩ := h
  split at h
  · cases h
  next n' hn =>
    split at h
    · cases h
    next u' hu =>
      cases h
      exact ⟨key, hkey, hn, hu⟩

/-- A side that is an unknown refers to it. -/
theorem refersTo_of_side {t : Term} {n : Nat} {offset : Int64} {d : Domain}
    (h : net.side t = .ok (.unknown n offset d)) : net.RefersTo t n offset d := by
  unfold side at h
  split at h
  · next r hr =>
    rw [bind_eq_ok_iff] at h
    obtain ⟨⟨n', u⟩, hresolve, h⟩ := h
    rw [bind_eq_ok_iff] at h
    obtain ⟨offset', hoffset, h⟩ := h
    dsimp only at h
    split at h
    case isTrue => cases h
    case isFalse hfits =>
      cases h
      obtain ⟨key, hkey, hn, hu⟩ := resolve_eq_ok hresolve
      refine ⟨⟨r, key, hr, address?_of_key hkey, hn⟩, ?_, exactOffset?_of_offset hoffset,
        Bool.not_eq_true _ ▸ hfits⟩
      rw [getElem?_domains, hu]
      rfl
  · split at h <;> cases h

/-- A side that is a constant is the operand of its term and has no adjustment. -/
theorem literal_of_side {t : Term} {l : Literal} (h : net.side t = .ok (.literal l)) :
    t.operand = .literal l ∧ t.adjustment = none := by
  unfold side at h
  split at h
  · rw [bind_eq_ok_iff] at h
    obtain ⟨⟨n, u⟩, -, h⟩ := h
    rw [bind_eq_ok_iff] at h
    obtain ⟨offset, -, h⟩ := h
    dsimp only at h
    split at h <;> cases h
  · next value hvalue =>
    split at h
    case isTrue => cases h
    case isFalse hplain =>
      cases h
      exact ⟨hvalue, by simpa using hplain⟩

theorem RefersTo.lt {t : Term} {n : Nat} {offset : Int64} {d : Domain}
    (h : net.RefersTo t n offset d) : n < net.unknowns.size := by
  rw [← length_domains]
  exact (List.getElem?_eq_some_iff.1 h.domain).1

/-- Under a choice, a term that refers to an unknown has the value that word arithmetic gives. -/
theorem RefersTo.value? {t : Term} {n : Nat} {offset : Int64} {d : Domain}
    (h : net.RefersTo t n offset d) (hnet : net.Sound) {p : Int64} (hp : v[n]? = some p)
    (hv : net.directory.Admits v) (opposite : Operand) :
    net.directory.value? v t opposite = some (net.keyOf n p + offset).toInt := by
  obtain ⟨r, key, ht, hr, hn⟩ := h.reference
  have hproper : d.Proper := by
    have hd := h.domain
    rw [getElem?_domains, Option.map_eq_some_iff] at hd
    obtain ⟨u, hu, rfl⟩ := hd
    exact hnet.proper u (Array.mem_of_getElem? hu)
  have hmem : p ∈ d.positions := Domain.mem_positions.2 (hv.inside h.domain hp)
  rw [Directory.value?_of_reference ht hr hn h.domain hp h.exactOffset, keyOf_eq h.domain,
    Domain.toInt_key_add hproper h.fits hmem]

/-- A constant opposite an unknown has the value of the key that is looked up in its domain. -/
theorem RefersTo.value?_literal {t opposite : Term} {n : Nat} {offset constant : Int64}
    {d : Domain} {l : Literal} (h : net.RefersTo opposite n offset d)
    (hside : net.side t = .ok (.literal l)) (hconstant : d.literalKey l = .ok constant) :
    net.directory.value? v t opposite.operand = some constant.toInt := by
  obtain ⟨r, key, hr, haddress, hn⟩ := h.reference
  obtain ⟨ht, hplain⟩ := literal_of_side hside
  have hkey : d.literalKey? l = some constant := by
    unfold Domain.literalKey at hconstant
    split at hconstant
    · next hkey =>
      cases hconstant
      exact hkey
    · cases hconstant
  rw [hr, Directory.value?_of_literal ht hplain haddress hn h.domain,
    ← Domain.literalKey?_map_toInt, hkey, Option.map_some]

/-- A constant opposite a constant has its own value. -/
theorem value?_of_constantKey {e : ConstraintExpr} {t opposite : Term} {l l' : Literal}
    {constant : Int64} (hside : net.side t = .ok (.literal l))
    (hopposite : net.side opposite = .ok (.literal l'))
    (hconstant : constantKey e l = .ok constant) :
    net.directory.value? v t opposite.operand = some constant.toInt := by
  obtain ⟨ht, hplain⟩ := literal_of_side hside
  rw [(literal_of_side hopposite).1, Directory.value?_of_constant ht hplain]
  cases l with
  | integer value => cases hconstant; rfl
  | character c =>
    cases hconstant
    rw [Literal.exactConstant?, Domain.toInt_codePoint]
  | item text => cases hconstant

/-- What it means that a step turns one network into another: soundness and the directory stay, and
the choices that meet the new network are those that met the old one and satisfy `condition`. -/
structure Refines (net net' : Network) (condition : List Int64 → Prop) : Prop where
  /-- The new network is sound. -/
  sound : net'.Sound
  /-- Unknowns are found as before. -/
  directory_eq : net'.directory = net.directory
  /-- The condition is added. -/
  meets_iff : ∀ {v}, net.directory.Admits v → (net'.Meets v ↔ net.Meets v ∧ condition v)

/-- Ruling out candidates of an unknown adds what the keys that stay have in common. -/
theorem refines_prune (hnet : net.Sound) {condition : List Int64 → Prop} {n : Nat} {d : Domain}
    {keep : Int64 → Bool} (hd : net.directory.domains[n]? = some d)
    (hkeep : ∀ v p, net.directory.Admits v → v[n]? = some p →
      (keep (net.keyOf n p) = true ↔ condition v)) :
    net.Refines (net.prune n keep) condition := by
  refine ⟨hnet.prune n keep, directory_prune n keep, ?_⟩
  intro v hv
  obtain ⟨p, hp, -⟩ := hv.exists_position hd
  rw [Meets, Meets, agrees_prune_iff, and_right_comm, ← hkeep v p hv hp, hp]
  -- the choice has one position there, so the quantifier goes away
  simp only [Option.some.injEq, forall_eq']
  rfl

/-- A constraint between two unknowns adds what it says of their keys. -/
theorem refines_addConstraint (hnet : net.Sound) {condition : List Int64 → Prop}
    {c : BinaryConstraint} (hl : c.left < net.unknowns.size) (hr : c.right < net.unknowns.size)
    (hne : c.left ≠ c.right)
    (hholds : ∀ v p q, net.directory.Admits v → v[c.left]? = some p → v[c.right]? = some q →
      (c.holds (net.keyOf c.left p) (net.keyOf c.right q) = true ↔ condition v)) :
    net.Refines (net.addConstraint c) condition := by
  refine ⟨hnet.addConstraint hl hr hne, rfl, ?_⟩
  intro v hv
  have hlength : v.length = net.unknowns.size := hv.length_eq.trans net.length_domains
  obtain ⟨p, hp⟩ : ∃ p, v[c.left]? = some p := ⟨_, List.getElem?_eq_getElem (by omega)⟩
  obtain ⟨q, hq⟩ : ∃ q, v[c.right]? = some q := ⟨_, List.getElem?_eq_getElem (by omega)⟩
  rw [Meets, Meets, agrees_addConstraint_iff, and_right_comm, ← hholds v p q hv hp hq, hp, hq]
  simp only [Option.some.injEq, forall_eq', forall_apply_eq_imp_iff]
  rfl

/-- What a relation does to a network adds the relation. -/
theorem refines_apply (hnet : net.Sound) {name : String} {e : ConstraintExpr} {effect : Effect}
    (h : net.effectOf name e = .ok effect) :
    net.Refines (net.apply effect) fun v => net.directory.IsTrue v e := by
  rw [effectOf, bind_eq_ok_iff] at h
  obtain ⟨left, hleft, h⟩ := h
  rw [bind_eq_ok_iff] at h
  obtain ⟨right, hright, h⟩ := h
  rcases left with ⟨a, offsetA, dA⟩ | l <;> rcases right with ⟨b, offsetB, dB⟩ | r <;>
    dsimp only at h
  · have ha := refersTo_of_side hleft
    have hb := refersTo_of_side hright
    split at h
    case isTrue heq =>
      -- one unknown on both sides
      cases h
      subst heq
      rw [apply]
      refine refines_prune hnet ha.domain ?_
      intro v p hv hp
      exact (Directory.isTrue_iff (ha.value? hnet hp hv _) (hb.value? hnet hp hv _)).symm
    case isFalse hne =>
      cases h
      refine refines_addConstraint hnet ha.lt hb.lt hne ?_
      intro v p q hv hp hq
      exact (Directory.isTrue_iff (ha.value? hnet hp hv _) (hb.value? hnet hq hv _)).symm
  · -- an unknown and a constant
    have ha := refersTo_of_side hleft
    rw [bind_eq_ok_iff] at h
    obtain ⟨constant, hconstant, h⟩ := h
    cases h
    rw [apply]
    refine refines_prune hnet ha.domain ?_
    intro v p hv hp
    exact (Directory.isTrue_iff (ha.value? hnet hp hv _) (ha.value?_literal hright hconstant)).symm
  · -- a constant and an unknown
    have hb := refersTo_of_side hright
    rw [bind_eq_ok_iff] at h
    obtain ⟨constant, hconstant, h⟩ := h
    cases h
    rw [apply]
    refine refines_prune hnet hb.domain ?_
    intro v p hv hp
    exact (Directory.isTrue_iff (hb.value?_literal hleft hconstant) (hb.value? hnet hp hv _)).symm
  · -- two constants
    rw [bind_eq_ok_iff] at h
    obtain ⟨x, hx, h⟩ := h
    rw [bind_eq_ok_iff] at h
    obtain ⟨y, hy, h⟩ := h
    have htrue : ∀ v, net.directory.IsTrue v e ↔ e.comparison.holds x y = true := fun v =>
      Directory.isTrue_iff (value?_of_constantKey hleft hright hx)
        (value?_of_constantKey hright hleft hy)
    cases h
    split
    case isTrue hholds =>
      refine ⟨hnet, rfl, ?_⟩
      intro v _
      rw [htrue v]
      simp [apply, hholds]
    case isFalse hholds =>
      have hwf := hnet.wellFormed
      refine ⟨⟨⟨hwf.left_lt, hwf.right_lt, hwf.left_ne_right, hwf.mem_constraintsOf⟩,
        hnet.incidence_size, hnet.proper, hnet.candidates_subset, hnet.lookup_key⟩, rfl, ?_⟩
      intro v _
      rw [htrue v]
      simp [apply, hholds, Meets]

/-! ### Constraints of a model -/

theorem Refines.refl (hnet : net.Sound) : net.Refines net fun _ => True :=
  ⟨hnet, rfl, by simp⟩

/-- Two steps add both conditions. -/
theorem Refines.trans {net₁ net₂ : Network} {first second : List Int64 → Prop}
    (h₁ : net.Refines net₁ first) (h₂ : net₁.Refines net₂ second) :
    net.Refines net₂ fun v => first v ∧ second v := by
  refine ⟨h₂.sound, h₂.directory_eq.trans h₁.directory_eq, ?_⟩
  intro v hv
  rw [h₂.meets_iff (by rwa [h₁.directory_eq]), h₁.meets_iff hv, and_assoc]

/-- A condition may be replaced by one that says the same of every choice. -/
theorem Refines.congr {net' : Network} {first second : List Int64 → Prop}
    (h : net.Refines net' first)
    (hiff : ∀ v, net.directory.Admits v → (first v ↔ second v)) : net.Refines net' second := by
  refine ⟨h.sound, h.directory_eq, ?_⟩
  intro v hv
  rw [h.meets_iff hv, hiff v hv]

/-- Steps that each add a condition add all of them. -/
theorem refines_foldlM {α : Type} {dir : Directory} {step : Network → α → Except SolveError Network}
    (condition : α → List Int64 → Prop)
    (hstep : ∀ net a net', net.Sound → net.directory = dir → step net a = .ok net' →
      net.Refines net' (condition a))
    {as : List α} {net' : Network} (hnet : net.Sound) (hdir : net.directory = dir)
    (h : as.foldlM step net = .ok net') :
    net.Refines net' fun v => ∀ a ∈ as, condition a v := by
  induction as generalizing net with
  | nil =>
    obtain rfl : net = net' := by simpa [pure, Except.pure] using h
    exact (Refines.refl hnet).congr (by simp)
  | cons a as ih =>
    rw [List.foldlM_cons, bind_eq_ok_iff] at h
    obtain ⟨net₁, h₁, h⟩ := h
    have hfirst := hstep net a net₁ hnet hdir h₁
    have hrest := ih hfirst.sound (hfirst.directory_eq.trans hdir) h
    exact (hfirst.trans hrest).congr (by simp)

/-- Adding a relation adds its truth. -/
theorem refines_addRelation (hnet : net.Sound) {name : String} {e : ConstraintExpr}
    {net' : Network} (h : addRelation name net e = .ok net') :
    net.Refines net' fun v => net.directory.IsTrue v e := by
  rw [addRelation, bind_eq_ok_iff] at h
  obtain ⟨effect, heffect, h⟩ := h
  cases h
  exact refines_apply hnet heffect

/-- A property of all pairs is one of each item with each later one. -/
theorem forall_mem_pairs {α : Type} {R : α → α → Prop} (as : List α) :
    (∀ pair ∈ pairs as, R pair.1 pair.2) ↔ as.Pairwise R := by
  induction as with
  | nil => simp [pairs]
  | cons a as ih =>
    rw [pairs, List.forall_mem_append, ih, List.pairwise_cons]
    simp

theorem mem_of_mem_pairs {α : Type} {xs : List α} {pair : α × α} (h : pair ∈ pairs xs) :
    pair.1 ∈ xs ∧ pair.2 ∈ xs :=
  (forall_mem_pairs (R := fun x y => x ∈ xs ∧ y ∈ xs) xs).2
    (List.pairwise_of_forall_mem_list fun _ hx _ hy => ⟨hx, hy⟩) pair h

/-- The unknown that a key leads to has a domain. -/
theorem Sound.exists_domain (hnet : net.Sound) {key : UnknownKey} {n : Nat}
    (hn : net.lookup key = some n) :
    n < net.unknowns.size ∧ ∃ d, net.directory.domains[n]? = some d ∧ d.Proper := by
  obtain ⟨u, hu, -⟩ := hnet.lookup_key hn
  refine ⟨(Array.getElem?_eq_some_iff.1 hu).1, u.domain, ?_, ?_⟩
  · rw [getElem?_domains, hu]
    rfl
  · exact hnet.proper u (Array.mem_of_getElem? hu)

/-- Different keys lead to different unknowns. -/
theorem Sound.lookup_injective (hnet : net.Sound) {key key' : UnknownKey} {n : Nat}
    (h : net.lookup key = some n) (h' : net.lookup key' = some n) : key = key' := by
  obtain ⟨u, hu, rfl⟩ := hnet.lookup_key h
  obtain ⟨u', hu', rfl⟩ := hnet.lookup_key h'
  rw [Option.some.inj (hu.symm.trans hu')]

/-- The constraint between two elements adds that their keys differ. -/
theorem refines_differ (hnet : net.Sound) (name target : String) {left right : Nat × Nat}
    {key key' : UnknownKey} (hne : key ≠ key') (hl : net.lookup key = some left.2)
    (hr : net.lookup key' = some right.2) :
    net.Refines (net.addConstraint (differ name target left right))
      fun v => net.directory.Differ v key key' := by
  obtain ⟨hltl, dl, hdl, hpl⟩ := hnet.exists_domain hl
  obtain ⟨hltr, dr, hdr, hpr⟩ := hnet.exists_domain hr
  have hdistinct : left.2 ≠ right.2 := fun heq => hne (hnet.lookup_injective hl (heq ▸ hr))
  refine refines_addConstraint hnet hltl hltr hdistinct ?_
  intro v p q hv hp hq
  have hpos := Domain.mem_positions.2 (hv.inside hdl hp)
  have hqos := Domain.mem_positions.2 (hv.inside hdr hq)
  dsimp only [differ, Directory.Differ]
  rw [Directory.chosenKey?_eq_some hl hdl hp, Directory.chosenKey?_eq_some hr hdr hq,
    ← Domain.toInt_key hpl hpos, ← Domain.toInt_key hpr hqos]
  simp [BinaryConstraint.holds, Comparison.holds, keyOf_eq hdl, keyOf_eq hdr, Int64.toInt_inj]

/-- The elements of an aggregate with the unknowns that they lead to. -/
theorem elementNumbers_eq_ok {target : String} {a : Aggregate} {elements : List (Nat × Nat)}
    (h : net.elementNumbers target a = .ok elements) :
    elements.map Prod.fst = List.range' 1 a.size ∧
      ∀ x ∈ elements, net.lookup (.element a.name x.1) = some x.2 := by
  have hall := forall₂_of_mapM h
  -- the induction is on the indices, whatever they are
  generalize List.range' 1 a.size = indices at hall ⊢
  clear h
  induction hall with
  | nil => simp
  | @cons i x indices xs hx _ ih =>
    rw [List.map_cons, List.forall_mem_cons, ih.1]
    split at hx
    · next hn =>
      cases hx
      exact ⟨rfl, hn, ih.2⟩
    · cases hx

/-- A relation between each index up to a size and each later one. -/
theorem pairwise_range'_iff {R : Nat → Nat → Prop} (size : Nat) :
    (List.range' 1 size).Pairwise R ↔ ∀ i j, 1 ≤ i → i < j → j ≤ size → R i j := by
  rw [List.pairwise_iff_getElem]
  simp only [List.length_range', List.getElem_range', Nat.one_mul]
  constructor
  · intro h i j hi hij hj
    have := h (i - 1) (j - 1) (by omega) (by omega) (by omega)
    rwa [Nat.add_sub_cancel' hi, Nat.add_sub_cancel' (by omega)] at this
  · intro h i j hi hj hij
    exact h (1 + i) (1 + j) (by omega) (by omega) (by omega)

/-- Adding a constraint for each pair of elements adds that their keys differ pairwise. -/
theorem refines_foldl_differ {dir : Directory} {name target : String} (aggregate : String)
    {ps : List ((Nat × Nat) × (Nat × Nat))} (hnet : net.Sound) (hdir : net.directory = dir)
    (hps : ∀ pair ∈ ps, pair.1.1 ≠ pair.2.1 ∧
      dir.number? (.element aggregate pair.1.1) = some pair.1.2 ∧
      dir.number? (.element aggregate pair.2.1) = some pair.2.2) :
    net.Refines
      (ps.foldl (fun net (left, right) => net.addConstraint (differ name target left right)) net)
      fun v => ∀ pair ∈ ps, dir.Differ v (.element aggregate pair.1.1)
        (.element aggregate pair.2.1) := by
  induction ps generalizing net with
  | nil => exact (Refines.refl hnet).congr (by simp)
  | cons pair ps ih =>
    obtain ⟨hpair, hps⟩ := List.forall_mem_cons.1 hps
    obtain ⟨hne, hl, hr⟩ := hpair
    subst hdir
    have hkeys : UnknownKey.element aggregate pair.1.1 ≠ .element aggregate pair.2.1 := by
      simpa using hne
    have hfirst := refines_differ hnet name target hkeys hl hr
    have hrest := ih hfirst.sound hfirst.directory_eq hps
    exact (hfirst.trans hrest).congr (by simp)

/-- Adding the constraints of an aggregate whose elements are to differ adds that they do. -/
theorem refines_addAllDifferent (hnet : net.Sound) {m : Model} {name target : String}
    {net' : Network} (h : addAllDifferent m name target net = .ok net') :
    net.Refines net' fun v =>
      ∃ a, m.aggregate? target = some a ∧ net.directory.AllDifferent v a := by
  unfold addAllDifferent at h
  split at h
  · cases h
  · next a ha =>
    rw [bind_eq_ok_iff] at h
    obtain ⟨elements, helements, h⟩ := h
    cases h
    obtain ⟨hindices, hlookup⟩ := elementNumbers_eq_ok helements
    -- the indices ascend, so each pair has an earlier and a later one
    have hsorted : elements.Pairwise fun x y => x.1 < y.1 := by
      rw [← List.pairwise_map (f := Prod.fst) (R := (· < ·)), hindices]
      exact List.pairwise_lt_range'
    refine (refines_foldl_differ a.name hnet rfl ?_).congr ?_
    · intro pair hpair
      have hlt := (forall_mem_pairs (R := fun x y => x.1 < y.1) elements).2 hsorted pair hpair
      obtain ⟨hleft, hright⟩ := mem_of_mem_pairs hpair
      exact ⟨Nat.ne_of_lt hlt, hlookup _ hleft, hlookup _ hright⟩
    · intro v _
      have hpairs := forall_mem_pairs (R := fun x y : Nat × Nat =>
        net.directory.Differ v (.element a.name x.1) (.element a.name y.1)) elements
      rw [hpairs, ← List.pairwise_map (f := Prod.fst)
        (R := fun i j => net.directory.Differ v (.element a.name i) (.element a.name j)), hindices,
        pairwise_range'_iff]
      simp only [ha, Option.some.injEq, exists_eq_left', Directory.AllDifferent]

/-- Adding a constraint of a model adds its meaning. -/
theorem refines_addModelConstraint (hnet : net.Sound) {m : Model} {c : ModelConstraint}
    {net' : Network} (h : addModelConstraint m net c = .ok net') :
    net.Refines net' fun v => net.directory.Satisfies v m c := by
  cases c with
  | expression name text =>
    rw [addModelConstraint, bind_eq_ok_iff] at h
    obtain ⟨relations, hrelations, h⟩ := h
    have hexpand : Template.expandText text = .ok relations := by
      unfold relationsOf at hrelations
      cases hexpand : Template.expandText text with
      | error error => rw [hexpand] at hrelations; cases hrelations
      | ok trees => rw [hexpand] at hrelations; cases hrelations; rfl
    refine (refines_foldlM (fun e v => net.directory.IsTrue v e) ?_ hnet rfl h).congr ?_
    · intro net₁ e net₂ hnet₁ hdir h₁
      rw [← hdir]
      exact refines_addRelation hnet₁ h₁
    · intro v _
      simp [Directory.Satisfies, hexpand]
  | allDifferent name text => exact refines_addAllDifferent hnet h

end Network

end FiniteDomain
