import FiniteDomain.Proofs.Domain.Exact
import FiniteDomain.Proofs.Outcome

/-!
# The meaning of constraints

What the constraints of a model say about a choice of positions, computed with integers and apart
from any network. A directory tells which unknown a key addresses and what the domain of each
unknown is; a choice gives each unknown a position of its domain.

A reference has the key of the position chosen for its unknown, a term adds its adjustment, and a
constant is read through the domain of the unknown on the opposite side, if there is one.

## Main definitions

* `Directory`: unknowns by key and by number.
* `Directory.Admits`: one position of its domain for each unknown.
* `Directory.IsTrue`: a relation is true under a choice.
* `Directory.Satisfies`: a constraint of a model is true under a choice.
* `Network.directory`: the directory of a network.
-/

namespace FiniteDomain

/-- The key that a reference addresses: an element or a copy by its subscript, which must not be
negative. A counter addresses nothing. -/
def Reference.address? : Reference → Option UnknownKey
  | .singleton name => some (.singleton name)
  | .element aggregate (.literal i) =>
    if 0 ≤ i.toInt then some (.element aggregate i.toInt.toNat) else none
  | .field bucket (.literal i) name =>
    if 0 ≤ i.toInt then some (.field bucket (UInt64.ofNat i.toInt.toNat) name) else none
  | .element _ (.counter _) => none
  | .field _ (.counter _) _ => none

/-- What the adjustment of a term adds. -/
def Term.exactOffset? (t : Term) : Option Int :=
  match t.adjustment with
  | none => some 0
  | some ⟨.plus, .literal k⟩ => some k.toInt
  | some ⟨.minus, .literal k⟩ => some (-k.toInt)
  | some ⟨_, .counter _⟩ => none

/-- The value of a constant that is compared with a constant. -/
def Literal.exactConstant? : Literal → Option Int
  | .integer value => some value.toInt
  | .character c => some c.toNat
  | .item _ => none

/-- The unknowns: how they are found, and their keys and domains. -/
structure Directory where
  /-- The number of the unknown that a key addresses. -/
  number? : UnknownKey → Option Nat
  /-- The keys of the unknowns, in the order of their numbers. -/
  keys : List UnknownKey
  /-- The domains of the unknowns, in the order of their numbers. -/
  domains : List Domain

namespace Directory

variable (dir : Directory) (v : List Int64)

/-- A choice of one position of its domain for each unknown. -/
structure Admits : Prop where
  /-- There is one position for each unknown. -/
  length_eq : v.length = dir.domains.length
  /-- It lies between 1 and the size of the unknown's domain. -/
  inside : ∀ {n : Nat} {d : Domain} {p : Int64}, dir.domains[n]? = some d → v[n]? = some p →
    1 ≤ p ∧ p ≤ d.sizeWord

/-- The domain of the unknown that a key addresses. -/
def domain? (key : UnknownKey) : Option Domain :=
  (dir.number? key).bind fun n => dir.domains[n]?

/-- The key, as an integer, of the position chosen for the unknown that a key addresses. -/
def chosenKey? (key : UnknownKey) : Option Int := do
  let n ← dir.number? key
  let d ← dir.domains[n]?
  let p ← v[n]?
  return d.exactKey p

/-- The value of one side of a relation, given the operand on the opposite side. A constant has no
adjustment. -/
def value? (t : Term) (opposite : Operand) : Option Int :=
  match t.operand, opposite with
  | .reference r, _ => do
    let key ← (r.address?).bind (dir.chosenKey? v)
    let offset ← t.exactOffset?
    return key + offset
  | .literal l, .reference r =>
    if t.adjustment.isSome then none
    else ((r.address?).bind dir.domain?).bind fun d => d.exactLiteral? l
  | .literal l, .literal _ => if t.adjustment.isSome then none else l.exactConstant?

/-- Both sides of a relation have values, and these compare as the relation says. -/
def IsTrue (e : ConstraintExpr) : Prop :=
  ∃ x y, dir.value? v e.left e.right.operand = some x ∧
    dir.value? v e.right e.left.operand = some y ∧ e.comparison.Holds x y

/-- The positions chosen for the unknowns that two keys address have different keys. -/
def Differ (key key' : UnknownKey) : Prop :=
  ∃ x y, dir.chosenKey? v key = some x ∧ dir.chosenKey? v key' = some y ∧ x ≠ y

/-- The elements of an aggregate have pairwise different keys. -/
def AllDifferent (a : Aggregate) : Prop :=
  ∀ i j, 1 ≤ i → i < j → j ≤ a.size → dir.Differ v (.element a.name i) (.element a.name j)

/-- A constraint of a model is true: all relations that its expression stands for, or the difference
of all elements of its aggregate. -/
def Satisfies (m : Model) : ModelConstraint → Prop
  | .expression _ text =>
    ∃ relations, Template.expandText text = .ok relations ∧ ∀ e ∈ relations, dir.IsTrue v e
  | .allDifferent _ text =>
    ∃ a, m.aggregate? (allDifferentTarget text) = some a ∧ dir.AllDifferent v a

variable {dir v}

/-- A choice has a position wherever there is a domain. -/
theorem Admits.exists_position (h : dir.Admits v) {n : Nat} {d : Domain}
    (hd : dir.domains[n]? = some d) : ∃ p, v[n]? = some p ∧ p ∈ d.positions := by
  have hlt : n < v.length := by
    rw [h.length_eq]
    exact (List.getElem?_eq_some_iff.1 hd).1
  have hp : v[n]? = some v[n] := List.getElem?_eq_getElem hlt
  exact ⟨v[n], hp, Domain.mem_positions.2 (h.inside hd hp)⟩

/-- Whether a choice takes positions of the domains is decided pair by pair. -/
instance : Decidable (dir.Admits v) :=
  decidable_of_iff (v.length = dir.domains.length ∧
      ∀ pair ∈ dir.domains.zip v, 1 ≤ pair.2 ∧ pair.2 ≤ pair.1.sizeWord) <| by
    constructor
    · rintro ⟨hlength, hinside⟩
      refine ⟨hlength, ?_⟩
      intro n d p hd hp
      exact hinside (d, p) (List.mem_of_getElem? (List.getElem?_zip_eq_some.2 ⟨hd, hp⟩))
    · rintro ⟨hlength, hinside⟩
      refine ⟨hlength, ?_⟩
      rintro ⟨d, p⟩ hpair
      obtain ⟨n, hn⟩ := List.mem_iff_getElem?.1 hpair
      obtain ⟨hd, hp⟩ := List.getElem?_zip_eq_some.1 hn
      exact hinside hd hp

/-- Whether a relation is true is decided by computing both of its sides. -/
instance (e : ConstraintExpr) : Decidable (dir.IsTrue v e) :=
  decidable_of_iff (∃ x ∈ dir.value? v e.left e.right.operand,
      ∃ y ∈ dir.value? v e.right e.left.operand, e.comparison.Holds x y) <| by
    simp [IsTrue]

/-- Whether two keys differ is decided by computing both. -/
instance (key key' : UnknownKey) : Decidable (dir.Differ v key key') :=
  decidable_of_iff (∃ x ∈ dir.chosenKey? v key, ∃ y ∈ dir.chosenKey? v key', x ≠ y) <| by
    simp [Differ]

/-- Whether elements differ is decided pair by pair. -/
instance (a : Aggregate) : Decidable (dir.AllDifferent v a) :=
  decidable_of_iff (∀ j < a.size + 1, ∀ i < j, 1 ≤ i →
      dir.Differ v (.element a.name i) (.element a.name j)) <| by
    constructor
    · intro h i j hone hij hj
      exact h j (Nat.lt_succ_of_le hj) i hij hone
    · intro h j hj i hij hone
      exact h i j hone hij (Nat.le_of_lt_succ hj)

/-- Whether a constraint is true is decided relation by relation. -/
instance (m : Model) : (c : ModelConstraint) → Decidable (dir.Satisfies v m c)
  | .expression _ text =>
    decidable_of_iff (∃ relations ∈ (Template.expandText text).toOption,
        ∀ e ∈ relations, dir.IsTrue v e) <| by
      simp [Satisfies, Option.mem_def, toOption_eq_some_iff]
  | .allDifferent _ text =>
    decidable_of_iff (∃ a ∈ m.aggregate? (allDifferentTarget text), dir.AllDifferent v a) <| by
      simp [Satisfies]

/-- The chosen key of an unknown whose number, domain and position are known. -/
theorem chosenKey?_eq_some {key : UnknownKey} {n : Nat} {d : Domain} {p : Int64}
    (hn : dir.number? key = some n) (hd : dir.domains[n]? = some d) (hp : v[n]? = some p) :
    dir.chosenKey? v key = some (d.exactKey p) := by
  simp [chosenKey?, hn, hd, hp]

/-- The value of a reference with an adjustment. -/
theorem value?_of_reference {t : Term} {r : Reference} {key : UnknownKey} {n : Nat} {d : Domain}
    {p : Int64} {offset : Int} (ht : t.operand = .reference r) (hr : r.address? = some key)
    (hn : dir.number? key = some n) (hd : dir.domains[n]? = some d) (hp : v[n]? = some p)
    (hoffset : t.exactOffset? = some offset) (opposite : Operand) :
    dir.value? v t opposite = some (d.exactKey p + offset) := by
  simp [value?, ht, hr, chosenKey?_eq_some hn hd hp, hoffset]

/-- The value of a constant opposite an unknown. -/
theorem value?_of_literal {t : Term} {l : Literal} {r : Reference} {key : UnknownKey} {n : Nat}
    {d : Domain} (ht : t.operand = .literal l) (hplain : t.adjustment = none)
    (hr : r.address? = some key) (hn : dir.number? key = some n)
    (hd : dir.domains[n]? = some d) :
    dir.value? v t (.reference r) = d.exactLiteral? l := by
  simp [value?, ht, hplain, hr, domain?, hn, hd]

/-- The value of a constant opposite a constant. -/
theorem value?_of_constant {t : Term} {l l' : Literal} (ht : t.operand = .literal l)
    (hplain : t.adjustment = none) : dir.value? v t (.literal l') = l.exactConstant? := by
  simp [value?, ht, hplain]

/-- A relation whose sides have the values of two words is true exactly when the words compare as it
says. -/
theorem isTrue_iff {e : ConstraintExpr} {x y : Int64}
    (hx : dir.value? v e.left e.right.operand = some x.toInt)
    (hy : dir.value? v e.right e.left.operand = some y.toInt) :
    dir.IsTrue v e ↔ e.comparison.holds x y = true := by
  rw [IsTrue, hx, hy, Comparison.holds_iff]
  simp

end Directory

namespace Network

/-- The directory of a network. -/
def directory (net : Network) : Directory :=
  ⟨net.lookup, net.unknowns.toList.map Unknown.key, net.unknowns.toList.map Unknown.domain⟩

theorem getElem?_domains (net : Network) (n : Nat) :
    net.directory.domains[n]? = (net.unknowns[n]?).map Unknown.domain := by
  rw [directory, List.getElem?_map, Array.getElem?_toList]

theorem length_domains (net : Network) : net.directory.domains.length = net.unknowns.size := by
  rw [directory, List.length_map, Array.length_toList]

end Network

end FiniteDomain
