import FiniteDomain.Proofs.Network.Addressing
import FiniteDomain.Proofs.Network.Construction
import FiniteDomain.Proofs.Network.Effects
import Mathlib.Data.Nat.Choose.Basic
import Mathlib.Data.Sym.Sym2

/-!
# How a network represents its model

A network keeps the same facts in several places: the constraints and, for each unknown, the list of
those that it takes part in; the unknowns and the index of their keys. The search reads one and
relies on the other. In a network that was built the places fit together, and they fit the model,
whether it is valid or not and whether names are repeated or not.

Unknowns and index are there before the first constraint. After that the network changes by effects
only, which leave the declared unknowns as they are and list each new constraint at its two ends.

## Main definitions

* `Network.numbersWith`: the numbers of the constraints that join an unknown, in ascending order.
* `Network.Separates`: constraints that keep the elements of an aggregate apart.
* `Network.Represents`: the network represents the model.

## Main results

* `Network.constraintsOf_foldl_apply`: effects keep the lists of the unknowns.
* `Network.separates_map_differ`: the constraints of an aggregate whose elements are to differ.
* `Network.build_represents`: the network of a model represents it.
-/

namespace FiniteDomain

/-- The two unknowns that a constraint joins. -/
def BinaryConstraint.ends (c : BinaryConstraint) : Sym2 Nat :=
  s(c.left, c.right)

theorem BinaryConstraint.mem_ends {c : BinaryConstraint} {n : Nat} :
    n ∈ c.ends ↔ c.left = n ∨ c.right = n := by
  rw [ends, Sym2.mem_iff, eq_comm, eq_comm (a := n) (b := c.right)]

namespace Network

variable {m : Model} {net : Network}

/-! ### The lists of the unknowns -/

/-- The numbers of the constraints that join an unknown, in ascending order. -/
def numbersWith (net : Network) (n : Nat) : List Nat :=
  (List.range net.constraints.size).filter fun k => net.constraints[k]?.any fun c => n ∈ c.ends

/-- A new constraint has the number after all others. -/
theorem numbersWith_addConstraint (net : Network) (c : BinaryConstraint) (n : Nat) :
    (net.addConstraint c).numbersWith n =
      if n ∈ c.ends then net.numbersWith n ++ [net.constraints.size] else net.numbersWith n := by
  have hget (k : Nat) : (net.addConstraint c).constraints[k]? =
      if k = net.constraints.size then some c else net.constraints[k]? := Array.getElem?_push
  have hsize : (net.addConstraint c).constraints.size = net.constraints.size + 1 :=
    Array.size_push ..
  have hold : (List.range net.constraints.size).filter (fun k =>
      (net.addConstraint c).constraints[k]?.any fun c => n ∈ c.ends) = net.numbersWith n := by
    refine List.filter_congr fun k hk => ?_
    rw [hget, if_neg (Nat.ne_of_lt (List.mem_range.1 hk))]
  rw [numbersWith, hsize, List.range_succ, List.filter_append, hold, List.filter_singleton, hget,
    if_pos rfl, Option.any_some]
  by_cases hend : n ∈ c.ends
  · simp [hend]
  · simp [hend]

/-- An effect keeps the lists: it adds a constraint to none, or to the end of those of its ends. -/
theorem constraintsOf_apply {effect : Effect} (heffect : ∀ c, effect = .relate c → c.left ≠ c.right)
    {n : Nat} (hn : n < net.incidence.size) (h : net.constraintsOf n = net.numbersWith n) :
    (net.apply effect).constraintsOf n = (net.apply effect).numbersWith n := by
  cases effect with
  | prune | nothing | contradiction => exact h
  | relate c =>
    show (net.addConstraint c).constraintsOf n = (net.addConstraint c).numbersWith n
    rw [constraintsOf_addConstraint (heffect c rfl) hn, numbersWith_addConstraint, h]
    simp only [BinaryConstraint.mem_ends]

theorem size_incidence_apply (net : Network) (effect : Effect) :
    (net.apply effect).incidence.size = net.incidence.size := by
  cases effect with
  | prune | nothing | contradiction => rfl
  | relate c => simp [apply, addConstraint]

/-- Without constraints all lists are empty. -/
theorem constraintsOf_of_constraints_eq (hnet : net.WellFormed) (h : net.constraints = #[])
    {n : Nat} (hn : n < net.unknowns.size) : net.constraintsOf n = net.numbersWith n := by
  have hempty : net.constraintsOf n = [] := by
    rw [List.eq_nil_iff_forall_not_mem]
    intro k hk
    obtain ⟨c, hc, -⟩ := (hnet.mem_constraintsOf n hn k).1 hk
    rw [h] at hc
    cases hc
  rw [hempty, numbersWith, h]
  rfl

/-- Effects that join different unknowns keep the lists. -/
theorem constraintsOf_foldl_apply {es : List Effect} (hes : ∀ c, .relate c ∈ es → c.left ≠ c.right)
    {n : Nat} (hn : n < net.incidence.size) (h : net.constraintsOf n = net.numbersWith n) :
    (es.foldl apply net).constraintsOf n = (es.foldl apply net).numbersWith n := by
  induction es generalizing net with
  | nil => exact h
  | cons e es ih =>
    rw [List.foldl_cons]
    refine ih (fun c hc => hes c (List.mem_cons_of_mem e hc)) ?_ ?_
    · rw [size_incidence_apply]
      exact hn
    · refine constraintsOf_apply ?_ hn h
      rintro c rfl
      exact hes c List.mem_cons_self

/-! ### Pairs of elements -/

theorem length_pairs {α : Type} (xs : List α) :
    (pairs xs).length = xs.length * (xs.length - 1) / 2 := by
  induction xs with
  | nil => simp [pairs]
  | cons x xs ih =>
    rw [pairs, List.length_append, List.length_map, ih, List.length_cons, Nat.triangle_succ,
      Nat.add_comm]

theorem pairs_map {α β : Type} (f : α → β) (xs : List α) :
    pairs (xs.map f) = (pairs xs).map (Prod.map f f) := by
  induction xs with
  | nil => rfl
  | cons x xs ih => simp [pairs, ih]

/-- Without repetitions no two items are paired twice, in either order. -/
theorem nodup_map_mk_pairs {α : Type} {xs : List α} (h : xs.Nodup) :
    ((pairs xs).map fun pair => s(pair.1, pair.2)).Nodup := by
  induction xs with
  | nil => exact List.nodup_nil
  | cons x xs ih =>
    obtain ⟨hx, hxs⟩ := List.nodup_cons.1 h
    rw [pairs, List.map_append, List.map_map]
    refine List.nodup_append'.2 ⟨?_, ih hxs, ?_⟩
    · exact hxs.map fun y z hyz => Sym2.congr_right.1 hyz
    · -- the first item is in no pair of the others
      intro pair hfirst hrest
      obtain ⟨y, -, rfl⟩ := List.mem_map.1 hfirst
      obtain ⟨rest, hmem, heq⟩ := List.mem_map.1 hrest
      obtain ⟨hleft, hright⟩ := mem_of_mem_pairs hmem
      have hin : x ∈ s(rest.1, rest.2) := heq ▸ Sym2.mem_mk_left x y
      rcases Sym2.mem_iff.1 hin with rfl | rfl
      · exact hx hleft
      · exact hx hright

/-- Without repetitions the items that are paired are any two different ones. -/
theorem mem_map_mk_pairs {α : Type} {xs : List α} (h : xs.Nodup) {x y : α} :
    s(x, y) ∈ (pairs xs).map (fun pair => s(pair.1, pair.2)) ↔ x ≠ y ∧ x ∈ xs ∧ y ∈ xs := by
  constructor
  · intro hmem
    obtain ⟨pair, hpair, heq⟩ := List.mem_map.1 hmem
    have hne : pair.1 ≠ pair.2 := (forall_mem_pairs xs).2 h pair hpair
    obtain ⟨hleft, hright⟩ := mem_of_mem_pairs hpair
    rcases Sym2.eq_iff.1 heq with ⟨rfl, rfl⟩ | ⟨rfl, rfl⟩
    · exact ⟨hne, hleft, hright⟩
    · exact ⟨hne.symm, hright, hleft⟩
  · rintro ⟨hne, hx, hy⟩
    -- each item is paired with each later one, and the pair does not tell which is which
    have hpairs : xs.Pairwise fun x y => s(x, y) ∈ (pairs xs).map fun pair => s(pair.1, pair.2) :=
      (forall_mem_pairs xs).1 fun pair hpair => List.mem_map_of_mem hpair
    have hsymm : Std.Symm fun x y =>
        s(x, y) ∈ (pairs xs).map fun pair => s(pair.1, pair.2) := by
      refine ⟨fun x y hxy => ?_⟩
      rwa [Sym2.eq_swap]
    exact hpairs.forall hx hy hne

/-- The number is that of an unknown to which the key of an element of the aggregate leads. -/
def IsElement (net : Network) (a : Aggregate) (n : Nat) : Prop :=
  ∃ i, 1 ≤ i ∧ i ≤ a.size ∧ net.lookup (.element a.name i) = some n

/-- The constraints keep the elements of an aggregate apart: there is exactly one for each two of
them. -/
structure Separates (net : Network) (name : String) (a : Aggregate) (cs : List BinaryConstraint) :
    Prop where
  /-- There are as many constraints as pairs of elements. -/
  length_eq : cs.length = a.size * (a.size - 1) / 2
  /-- No two constraints join the same unknowns. -/
  nodup_ends : (cs.map BinaryConstraint.ends).Nodup
  /-- Those that are joined are any two different elements. -/
  mem_ends_iff : ∀ x y, s(x, y) ∈ cs.map BinaryConstraint.ends ↔
    x ≠ y ∧ net.IsElement a x ∧ net.IsElement a y
  /-- Each constraint is named as in the model and says that the keys at its ends differ. -/
  says_differ : ∀ c ∈ cs, c.name = name ∧ c.comparison = .ne ∧ c.leftOffset = 0 ∧ c.rightOffset = 0

/-- The elements of an aggregate are the unknowns found for its indices. -/
theorem isElement_iff {target : String} {a : Aggregate} {elements : List (Nat × Nat)}
    (h : net.elementNumbers target a = .ok elements) {n : Nat} :
    net.IsElement a n ↔ n ∈ elements.map Prod.snd := by
  obtain ⟨hindices, hlookup⟩ := elementNumbers_eq_ok h
  rw [List.mem_map]
  constructor
  · rintro ⟨i, hone, hle, hn⟩
    have hi : i ∈ elements.map Prod.fst := by
      rw [hindices, List.mem_range'_1]
      omega
    obtain ⟨x, hx, rfl⟩ := List.mem_map.1 hi
    exact ⟨x, hx, Option.some.inj ((hlookup x hx).symm.trans hn)⟩
  · rintro ⟨x, hx, rfl⟩
    have hi := List.mem_map_of_mem (f := Prod.fst) hx
    rw [hindices, List.mem_range'_1] at hi
    exact ⟨x.1, hi.1, by omega, hlookup x hx⟩

/-- Different indices lead to different unknowns. -/
theorem nodup_elementNumbers (hnet : net.Sound) {target : String} {a : Aggregate}
    {elements : List (Nat × Nat)} (h : net.elementNumbers target a = .ok elements) :
    (elements.map Prod.snd).Nodup := by
  obtain ⟨hindices, hlookup⟩ := elementNumbers_eq_ok h
  have hfirst : (elements.map Prod.fst).Nodup := by
    rw [hindices]
    exact List.nodup_range'
  refine (List.nodup_map_iff_inj_on hfirst.of_map).2 ?_
  intro x hx y hy heq
  have hkeys := hnet.lookup_injective (hlookup x hx) (heq ▸ hlookup y hy)
  exact Prod.ext (UnknownKey.element.inj hkeys).2 heq

/-- The constraints that the elements of an aggregate differ pairwise keep them apart. -/
theorem separates_map_differ (hnet : net.Sound) {name target : String} {a : Aggregate}
    {elements : List (Nat × Nat)} (h : net.elementNumbers target a = .ok elements) :
    net.Separates name a
      ((pairs elements).map fun (left, right) => differ name target left right) := by
  have hnodup := nodup_elementNumbers hnet h
  have hlength : elements.length = a.size := by
    rw [← List.length_map Prod.fst, (elementNumbers_eq_ok h).1, List.length_range']
  -- the ends of the constraints are the pairs of the numbers of the elements
  have hends :
      ((pairs elements).map fun (left, right) => differ name target left right).map
          BinaryConstraint.ends =
        (pairs (elements.map Prod.snd)).map fun pair => s(pair.1, pair.2) := by
    rw [pairs_map, List.map_map, List.map_map]
    rfl
  refine ⟨?_, ?_, ?_, ?_⟩
  · rw [List.length_map, length_pairs, hlength]
  · rw [hends]
    exact nodup_map_mk_pairs hnodup
  · intro x y
    rw [hends, isElement_iff h, isElement_iff h, mem_map_mk_pairs hnodup]
  · intro c hc
    obtain ⟨pair, -, rfl⟩ := List.mem_map.1 hc
    exact ⟨rfl, rfl, rfl, rfl⟩

/-! ### The network of a model -/

/-- The constraints that one constraint of a model contributes to a network: those of its relations
that are between two unknowns, or those that keep the elements of its aggregate apart. -/
def Contributes (net : Network) (m : Model) : ModelConstraint → List BinaryConstraint → Prop
  | .expression name text, cs =>
    ∃ relations effects, relationsOf text = .ok relations ∧
      relations.mapM (net.effectOf name) = .ok effects ∧ cs = effects.filterMap Effect.constraint?
  | .allDifferent name text, cs =>
    ∃ a, m.aggregate? (allDifferentTarget text) = some a ∧ net.Separates name a cs

/-- The network represents the model: its unknowns are those declared, in order, and its constraints
are those contributed, in order; the lists of the unknowns and the index of the keys fit them. -/
structure Represents (net : Network) (m : Model) : Prop where
  /-- There is a list of constraints for each unknown. -/
  incidence_size : net.incidence.size = net.unknowns.size
  /-- It has the numbers of the constraints that join the unknown, in ascending order. -/
  constraintsOf_eq : ∀ n < net.unknowns.size, net.constraintsOf n = net.numbersWith n
  /-- A constraint joins two unknowns of the network. -/
  ends_lt : ∀ c ∈ net.constraints, ∀ n ∈ c.ends, n < net.unknowns.size
  /-- These are different. -/
  not_isDiag : ∀ c ∈ net.constraints, ¬ c.ends.IsDiag
  /-- Candidates are between 1 and the size of the domain. -/
  candidates_between : ∀ u ∈ net.unknowns, ∀ p ∈ u.candidates,
    1 ≤ p.toInt ∧ p.toInt ≤ u.domain.size
  /-- The unknowns have the names of singletons, then elements, then fields, copy by copy. -/
  names_eq : net.unknowns.toList.map Unknown.name = m.declarations.map Declaration.name
  /-- They have their keys. -/
  keys_eq : net.unknowns.toList.map Unknown.key = m.declarations.map Declaration.key
  /-- They have the domains that their texts evaluate to. -/
  domains_eq : List.Forall₂ (fun d domain =>
    Resolver.evaluate m.context (Text.trim d.domain) = .ok domain) m.declarations
      (net.unknowns.toList.map Unknown.domain)
  /-- A key leads to the last unknown that carries it, and to none if no unknown does. -/
  lookup_eq_some_iff : ∀ key n, net.lookup key = some n ↔
    net.unknowns[n]?.map Unknown.key = some key ∧
      ∀ k, net.unknowns[k]?.map Unknown.key = some key → k ≤ n
  /-- The constraints are those that the constraints of the model contribute, in order. -/
  contributions : ∃ css, net.constraints.toList = css.flatten ∧
    List.Forall₂ (net.Contributes m) m.constraints css

/-- The effects of a constraint of the model add what it contributes. -/
theorem contributes_of_effectsOf (hnet : net.Sound) {c : ModelConstraint} {es : List Effect}
    (h : effectsOf m net c = .ok es) : net.Contributes m c (es.filterMap Effect.constraint?) := by
  cases c with
  | expression name text =>
    rw [effectsOf, bind_eq_ok_iff] at h
    obtain ⟨relations, hrelations, h⟩ := h
    exact ⟨relations, es, hrelations, h, rfl⟩
  | allDifferent name text =>
    rw [effectsOf] at h
    cases ha : m.aggregate? (allDifferentTarget text) with
    | none =>
      rw [ha] at h
      cases h
    | some a =>
      rw [ha] at h
      dsimp only at h
      rw [bind_eq_ok_iff] at h
      obtain ⟨elements, helements, h⟩ := h
      obtain rfl := Except.ok.inj h
      refine ⟨a, ha, ?_⟩
      rw [List.filterMap_map]
      -- every effect of an all-different constraint is a constraint
      show net.Separates name a ((pairs elements).filterMap fun pair =>
        some (differ name (allDifferentTarget text) pair.1 pair.2))
      rw [List.filterMap_eq_map']
      exact separates_map_differ hnet helements

/-- A key leads to the last unknown that carries it. -/
theorem lookup_eq_some_iff (hdir : net.directory = m.directory) (key : UnknownKey) (n : Nat) :
    net.lookup key = some n ↔ net.unknowns[n]?.map Unknown.key = some key ∧
      ∀ k, net.unknowns[k]?.map Unknown.key = some key → k ≤ n := by
  have hnumber : net.lookup key = m.directory.number? key := by
    rw [← hdir]
    rfl
  have hkey (k : Nat) : net.unknowns[k]?.map Unknown.key = m.directory.keys[k]? := by
    rw [← hdir, directory, List.getElem?_map, Array.getElem?_toList]
  simp only [hnumber, hkey]
  constructor
  · intro h
    exact ⟨Model.getElem?_keys_of_number? h, fun k hk => Model.le_of_number? h hk⟩
  · rintro ⟨hn, hlast⟩
    obtain ⟨d, hd, rfl⟩ := List.mem_map.1 (List.mem_of_getElem? hn)
    obtain ⟨last, h⟩ := Model.exists_number_of_mem hd
    rw [h, Nat.le_antisymm (hlast last (Model.getElem?_keys_of_number? h))
      (Model.le_of_number? h hn)]

/-- A network that was built is that of the declared unknowns after the effects that the constraints
of the model have on it. -/
theorem exists_effects_of_build (h : build m = .ok net) :
    ∃ b ess, Builder.declareAll m = .ok b ∧ m.constraints.mapM (effectsOf m net) = .ok ess ∧
      ess.flatten.foldl apply b.network = net := by
  rw [build, bind_eq_ok_iff] at h
  obtain ⟨b, hb, hrun⟩ := h
  rw [foldlM_addModelConstraint, map_eq_ok_iff] at hrun
  obtain ⟨ess, hess, hnet⟩ := hrun
  have hdir : net.directory = b.network.directory := by
    rw [← hnet, directory_foldl_apply]
  exact ⟨b, ess, hb, by rw [effectsOf_congr hdir, hess], hnet⟩

/-- In a network that was built each unknown lists the constraints that join it. -/
theorem constraintsOf_of_build (h : build m = .ok net) {n : Nat} (hn : n < net.unknowns.size) :
    net.constraintsOf n = net.numbersWith n := by
  obtain ⟨b, ess, hb, -, hnet⟩ := exists_effects_of_build h
  obtain ⟨_, -, hdeclares⟩ := declares_of_declareAll hb
  have hn' : n < b.network.unknowns.size := by
    rwa [← length_domains, ← directory_foldl_apply ess.flatten, hnet, length_domains]
  -- a constraint that an effect adds stays, and those that are there at the end join two unknowns
  have hdistinct : ∀ c, .relate c ∈ ess.flatten → c.left ≠ c.right := by
    intro c hc
    refine (build_eq_ok h).1.wellFormed.left_ne_right c ?_
    rw [← hnet, mem_constraints_foldl_apply]
    exact .inr hc
  rw [← hnet]
  refine constraintsOf_foldl_apply hdistinct ?_ ?_
  · rwa [hdeclares.sound.incidence_size]
  · exact constraintsOf_of_constraints_eq hdeclares.sound.wellFormed hdeclares.constraints_eq hn'

/-- The constraints of a network that was built are those contributed by its model. -/
theorem exists_contributions_of_build (h : build m = .ok net) :
    ∃ css, net.constraints.toList = css.flatten ∧
      List.Forall₂ (net.Contributes m) m.constraints css := by
  obtain ⟨b, ess, hb, hess, hnet⟩ := exists_effects_of_build h
  obtain ⟨_, -, hdeclares⟩ := declares_of_declareAll hb
  refine ⟨ess.map fun es => es.filterMap Effect.constraint?, ?_, ?_⟩
  · rw [← hnet, constraints_foldl_apply, hdeclares.constraints_eq, List.filterMap_flatten]
    rfl
  · rw [List.forall₂_map_right_iff]
    exact (forall₂_of_mapM hess).imp fun c es hes =>
      contributes_of_effectsOf (build_eq_ok h).1 hes

/-- A network that was built represents its model, whether the model is valid or not. -/
theorem build_represents (h : build m = .ok net) : net.Represents m := by
  obtain ⟨hsound, hdir, -⟩ := build_eq_ok h
  obtain ⟨b, ess, hb, -, hnet⟩ := exists_effects_of_build h
  obtain ⟨domains, hdomains, hdeclares⟩ := declares_of_declareAll hb
  refine ⟨hsound.incidence_size, fun n => constraintsOf_of_build h, ?_, ?_, ?_, ?_, ?_, ?_,
    lookup_eq_some_iff hdir, exists_contributions_of_build h⟩
  · intro c hc n hn
    rcases BinaryConstraint.mem_ends.1 hn with rfl | rfl
    · exact hsound.wellFormed.left_lt c hc
    · exact hsound.wellFormed.right_lt c hc
  · intro c hc
    rw [BinaryConstraint.ends, Sym2.mk_isDiag_iff]
    exact hsound.wellFormed.left_ne_right c hc
  · intro u hu p hp
    obtain ⟨hone, hle⟩ := Domain.mem_positions.1 (hsound.candidates_subset u hu hp)
    -- a size beyond the word is smaller as a word, never larger
    have hsize := Domain.toInt_ofNat_le u.domain.size
    exact ⟨Word.one_le_iff.1 hone, (Int64.le_iff_toInt_le.1 hle).trans hsize⟩
  · rw [← hnet, names_foldl_apply, hdeclares.names_eq]
  · exact congrArg Directory.keys hdir
  · have hdirectory : net.directory = b.network.directory := by
      rw [← hnet, directory_foldl_apply]
    have hsame : net.unknowns.toList.map Unknown.domain = domains :=
      (congrArg Directory.domains hdirectory).trans hdeclares.domains_eq
    rwa [hsame]

/-- Two aggregates share the name `x`, and a field is repeated. A relation is about one unknown on
both sides, and one is about a constant. -/
def twinsModel : Model where
  name := "twins"
  vars := [.aggregate ⟨"x", "1..4", [⟨"x1", none⟩, ⟨"x2", none⟩, ⟨"x3", some "2..5"⟩]⟩,
    .bucket ⟨"team", "crew", 2⟩, .singleton ⟨"y", "1..3"⟩,
    .aggregate ⟨"x", "1..6", [⟨"x1", none⟩, ⟨"x2", none⟩]⟩]
  sharedDomains := []
  bundles := [⟨"crew", [⟨"role", "1..2"⟩, ⟨"role", "1..3"⟩]⟩]
  tables := []
  constraints := [.allDifferent "differ" "x", .expression "low" "x[i] < y | i in 1..2",
    .expression "own" "y <= y + 1", .expression "high" "y > 1"]

/-- The network of `twinsModel` has ten unknowns and five constraints, three of which keep the
elements of the first `x` apart, and represents the model. -/
theorem build_represents_twinsModel :
    ∃ net, build twinsModel = .ok net ∧
      (List.range net.unknowns.size).map net.constraintsOf =
        [[3, 4], [], [], [1, 2], [0, 1, 3], [0, 2, 4], [], [], [], []] ∧
      net.Represents twinsModel := by
  have hlists : (build twinsModel).toOption.map (fun net =>
      (List.range net.unknowns.size).map net.constraintsOf) =
        some [[3, 4], [], [], [1, 2], [0, 1, 3], [0, 2, 4], [], [], [], []] := by
    decide +kernel
  obtain ⟨net, hnet, hlists⟩ := Option.map_eq_some_iff.1 hlists
  have hbuild := toOption_eq_some_iff.1 hnet
  exact ⟨net, hbuild, hlists, build_represents hbuild⟩

end Network

end FiniteDomain
