import FiniteDomain.Proofs.Network.Relation

/-!
# Constraints as effects

What a constraint of a model does to a network depends on the directory of the network: on its
unknowns and their domains, not on the candidates and constraints that it has so far. No effect
changes the directory. So the effects of all constraints can be computed first and applied later;
and what has become of the network then depends on which effects there are, not on their order and
not on how often they were applied.

## Main definitions

* `Network.effectsOf`: what a constraint of a model does to a network.
* `Effect.constraint?`: the constraint that an effect adds.
* `Network.Alike`: networks with the same unknowns, candidates and constraints, the latter in any
  order and any number.

## Main results

* `Network.foldlM_addModelConstraint`: adding constraints is applying their effects.
* `Network.constraints_foldl_apply`: effects add their constraints in order.
* `Network.alike_of_mem_iff`: the same effects make networks alike.
-/

namespace FiniteDomain

namespace Network

variable {m : Model} {net net₀ : Network}

/-! ### Effects and the directory -/

/-- An effect neither declares a variable nor changes a domain. -/
theorem directory_apply (net : Network) (effect : Effect) :
    (net.apply effect).directory = net.directory := by
  cases effect with
  | prune n keep => exact directory_prune n keep
  | relate | nothing | contradiction => rfl

/-- References are looked up in the directory alone. -/
theorem lookup_congr (h : net.directory = net₀.directory) : net.lookup = net₀.lookup :=
  congrArg Directory.number? h

/-- A reference leads to the same number and the same domain. -/
theorem resolve_congr (h : net.directory = net₀.directory) (r : Reference) :
    (net.resolve r).map (fun found => (found.1, found.2.domain)) =
      (net₀.resolve r).map fun found => (found.1, found.2.domain) := by
  have hdomain (n : Nat) :
      (net.unknowns[n]?).map Unknown.domain = (net₀.unknowns[n]?).map Unknown.domain := by
    rw [← getElem?_domains, ← getElem?_domains, h]
  rw [resolve, resolve, lookup_congr h]
  cases r.key with
  | error error => rfl
  | ok key =>
    dsimp only [bind, Except.bind]
    cases net₀.lookup key with
    | none => rfl
    | some n =>
      have hn := hdomain n
      dsimp only
      -- both networks have an unknown of this number, or neither has
      cases hu : net.unknowns[n]? with
      | none =>
        rw [hu] at hn
        rw [Option.map_eq_none_iff.1 hn.symm]
      | some u =>
        rw [hu] at hn
        obtain ⟨u₀, hu₀, heq⟩ := Option.map_eq_some_iff.1 hn.symm
        rw [hu₀]
        exact congrArg (fun d => Except.ok (n, d)) heq.symm

/-- The sides of a relation are resolved by the directory alone. -/
theorem side_congr (h : net.directory = net₀.directory) (t : Term) : net.side t = net₀.side t := by
  -- only the number and the domain of the unknown are used
  have hreference (net : Network) (r : Reference) (hr : t.operand = .reference r) :
      net.side t = ((net.resolve r).map fun found => (found.1, found.2.domain)).bind fun found =>
        t.offset.bind fun offset =>
          if overflows found.2 offset then .error (.unsupported (.overflow t.render found.2.render))
          else .ok (.unknown found.1 offset found.2) := by
    rw [side, hr]
    dsimp only
    cases net.resolve r with
    | error error => rfl
    | ok found =>
      cases hoffset : t.offset with
      | error error =>
        simp [Except.map, bind, Except.bind]
      | ok offset =>
        simp only [Except.map, bind, Except.bind]
        split <;> rfl
  cases hoperand : t.operand with
  | reference r => rw [hreference net r hoperand, hreference net₀ r hoperand, resolve_congr h]
  | literal value => rw [side, side, hoperand]

/-- The effect of a relation does not depend on what earlier ones did to the network. -/
theorem effectOf_congr (h : net.directory = net₀.directory) (name : String) (e : ConstraintExpr) :
    net.effectOf name e = net₀.effectOf name e := by
  rw [effectOf, effectOf, side_congr h, side_congr h]

theorem elementNumbers_congr (h : net.directory = net₀.directory) (target : String)
    (a : Aggregate) : net.elementNumbers target a = net₀.elementNumbers target a := by
  rw [elementNumbers, elementNumbers, lookup_congr h]

/-! ### Computing effects first -/

/-- What a constraint of a model does to a network. -/
def effectsOf (m : Model) (net : Network) : ModelConstraint → Except SolveError (List Effect)
  | .expression name text => do
    let relations ← relationsOf text
    relations.mapM (net.effectOf name)
  | .allDifferent name text =>
    match m.aggregate? (allDifferentTarget text) with
    | none => .error (.unknownVariable (allDifferentTarget text))
    | some a => do
      let elements ← net.elementNumbers (allDifferentTarget text) a
      return (pairs elements).map fun (left, right) =>
        .relate (differ name (allDifferentTarget text) left right)

/-- The effects of a constraint do not depend on what earlier ones did to the network. -/
theorem effectsOf_congr (h : net.directory = net₀.directory) :
    effectsOf m net = effectsOf m net₀ := by
  funext c
  cases c with
  | expression name text => simp only [effectsOf, funext (effectOf_congr h name)]
  | allDifferent name text => simp only [effectsOf, elementNumbers_congr h]

/-- No number of effects changes the directory. -/
theorem directory_foldl_apply (es : List Effect) (net : Network) :
    (es.foldl apply net).directory = net.directory := by
  induction es generalizing net with
  | nil => rfl
  | cons e es ih => rw [List.foldl_cons, ih, directory_apply]

/-- Adding a constraint is applying its effects, computed for any network with this directory. -/
theorem addModelConstraint_eq (h : net.directory = net₀.directory) (c : ModelConstraint) :
    addModelConstraint m net c = (effectsOf m net₀ c).map fun es => es.foldl apply net := by
  cases c with
  | expression name text =>
    rw [addModelConstraint, effectsOf]
    cases relationsOf text with
    | error error => rfl
    | ok relations =>
      have hstep (net : Network) (e : ConstraintExpr) (hnet : net.directory = net₀.directory) :
          addRelation name net e = (net₀.effectOf name e).map net.apply := by
        rw [addRelation, effectOf_congr hnet]
        rfl
      -- the relations before this one leave the directory as it was
      exact foldlM_eq_mapM hstep (fun net e hnet => (directory_apply net e).trans hnet) relations h
  | allDifferent name text =>
    rw [addModelConstraint, addAllDifferent, effectsOf]
    cases m.aggregate? (allDifferentTarget text) with
    | none => rfl
    | some a =>
      dsimp only
      rw [elementNumbers_congr h]
      cases net₀.elementNumbers (allDifferentTarget text) a with
      | error error => rfl
      | ok elements =>
        -- each pair of elements is one effect
        show Except.ok _ = Except.ok (((pairs elements).map _).foldl apply net)
        rw [List.foldl_map]
        rfl

/-- Adding constraints is applying all their effects, computed for the network at the start. -/
theorem foldlM_addModelConstraint (m : Model) (cs : List ModelConstraint) (net : Network) :
    cs.foldlM (addModelConstraint m) net =
      (cs.mapM (effectsOf m net)).map fun ess => ess.flatten.foldl apply net := by
  have hstep (net' : Network) (c : ModelConstraint) (hdir : net'.directory = net.directory) :
      addModelConstraint m net' c = (effectsOf m net c).map fun es => es.foldl apply net' :=
    addModelConstraint_eq hdir c
  have hrun := foldlM_eq_mapM hstep
    (fun net' es hdir => (directory_foldl_apply es net').trans hdir) cs rfl
  simpa only [List.foldl_flatten] using hrun

end Network

/-! ### Applying effects -/

/-- The unknown with the candidates whose keys are kept. -/
def Unknown.keep (u : Unknown) (keep : Int64 → Bool) : Unknown :=
  { u with
    candidates := u.candidates.filter fun position => keep (u.domain.key position)
    ascending := u.ascending.filter _ }

/-- Pruning twice keeps what both predicates keep. -/
theorem Unknown.keep_keep (u : Unknown) (keep keep' : Int64 → Bool) :
    (u.keep keep).keep keep' = u.keep fun key => keep key && keep' key := by
  simp [Unknown.keep, List.filter_filter, Bool.and_comm]

theorem Unknown.keep_true (u : Unknown) : u.keep (fun _ => true) = u := by
  simp [Unknown.keep]

/-- The constraint that an effect adds. -/
def Effect.constraint? : Effect → Option BinaryConstraint
  | .relate c => some c
  | .prune _ _ | .nothing | .contradiction => none

theorem Effect.constraint?_eq_some_iff {effect : Effect} {c : BinaryConstraint} :
    effect.constraint? = some c ↔ effect = .relate c := by
  cases effect <;> simp [constraint?]

/-- Whether a key of an unknown is kept by an effect. -/
def Effect.keeps (i : Nat) (key : Int64) : Effect → Bool
  | .prune n keep => n != i || keep key
  | .relate _ | .nothing | .contradiction => true

namespace Network

/-- An unknown keeps the candidates that all effects keep. -/
theorem getElem?_unknowns_foldl_apply (es : List Effect) (net : Network) (i : Nat) :
    (es.foldl apply net).unknowns[i]? =
      (net.unknowns[i]?).map fun u => u.keep fun key => es.all (Effect.keeps i key) := by
  induction es generalizing net with
  | nil =>
    show net.unknowns[i]? = (net.unknowns[i]?).map fun u => u.keep fun _ => true
    cases net.unknowns[i]? <;> simp [Unknown.keep_true]
  | cons e es ih =>
    -- the first effect filters the candidates, and the others filter what it leaves
    have hfirst : (net.apply e).unknowns[i]? =
        (net.unknowns[i]?).map fun u => u.keep fun key => e.keeps i key := by
      cases e with
      | prune n keep =>
        have hmodify : (net.apply (.prune n keep)).unknowns[i]? =
            if n = i then (net.unknowns[i]?).map fun u => u.keep keep else net.unknowns[i]? :=
          Array.getElem?_modify ..
        rw [hmodify]
        by_cases hn : n = i
        · simp [hn, Effect.keeps]
        · -- the candidates of this unknown are not touched
          have hkeeps (key : Int64) : Effect.keeps i key (.prune n keep) = true := by
            simp [Effect.keeps, hn]
          rw [if_neg hn]
          simp only [hkeeps]
          cases net.unknowns[i]? <;> simp [Unknown.keep_true]
      | relate | nothing | contradiction =>
        show net.unknowns[i]? = (net.unknowns[i]?).map fun u => u.keep fun _ => true
        cases net.unknowns[i]? <;> simp [Unknown.keep_true]
    rw [List.foldl_cons, ih, hfirst, Option.map_map]
    simp only [Function.comp_def, Unknown.keep_keep, List.all_cons]

/-- Effects leave the names of the unknowns. -/
theorem names_foldl_apply (es : List Effect) (net : Network) :
    (es.foldl apply net).unknowns.toList.map Unknown.name =
      net.unknowns.toList.map Unknown.name := by
  refine List.ext_getElem? fun i => ?_
  rw [List.getElem?_map, List.getElem?_map, Array.getElem?_toList, Array.getElem?_toList,
    getElem?_unknowns_foldl_apply, Option.map_map]
  rfl

/-- Effects add their constraints in order. -/
theorem constraints_foldl_apply (es : List Effect) (net : Network) :
    (es.foldl apply net).constraints.toList =
      net.constraints.toList ++ es.filterMap Effect.constraint? := by
  induction es generalizing net with
  | nil => simp
  | cons e es ih =>
    rw [List.foldl_cons, ih]
    cases e with
    | prune | nothing | contradiction => rfl
    | relate c =>
      show (net.constraints.push c).toList ++ es.filterMap Effect.constraint? = _
      rw [Array.toList_push, List.append_assoc]
      rfl

/-- The constraints are those from the start and those that were added. -/
theorem mem_constraints_foldl_apply (es : List Effect) (net : Network) (c : BinaryConstraint) :
    c ∈ (es.foldl apply net).constraints ↔ c ∈ net.constraints ∨ .relate c ∈ es := by
  rw [← Array.mem_toList_iff, constraints_foldl_apply, List.mem_append, List.mem_filterMap,
    Array.mem_toList_iff]
  simp only [Effect.constraint?_eq_some_iff, exists_eq_right]

/-- There is a contradiction if there was one, or if one was met. -/
theorem contradiction_foldl_apply (es : List Effect) (net : Network) :
    (es.foldl apply net).contradiction = true ↔
      net.contradiction = true ∨ .contradiction ∈ es := by
  induction es generalizing net with
  | nil => simp
  | cons e es ih =>
    rw [List.foldl_cons, ih, List.mem_cons]
    cases e <;> simp [apply, prune, addConstraint]

/-- Networks with the same unknowns, candidates and constraints, the latter in any order and any
number. -/
structure Alike (net net' : Network) : Prop where
  /-- The unknowns have the same domains and candidates. -/
  unknowns_eq : net.unknowns = net'.unknowns
  /-- A relation between constants was false in both or in neither. -/
  contradiction_eq : net.contradiction = net'.contradiction
  /-- They have the same constraints. -/
  mem_constraints_iff : ∀ c, c ∈ net.constraints ↔ c ∈ net'.constraints

/-- The same effects, in whatever order and number, make networks alike. -/
theorem alike_of_mem_iff {es es' : List Effect} (h : ∀ e, e ∈ es ↔ e ∈ es') (net : Network) :
    (es.foldl apply net).Alike (es'.foldl apply net) where
  unknowns_eq := by
    have hall (i : Nat) (key : Int64) :
        es.all (Effect.keeps i key) = es'.all (Effect.keeps i key) := by
      rw [Bool.eq_iff_iff, List.all_eq_true, List.all_eq_true]
      exact forall_congr' fun e => imp_congr_left (h e)
    refine Array.ext_getElem? fun i => ?_
    rw [getElem?_unknowns_foldl_apply, getElem?_unknowns_foldl_apply]
    simp only [hall]
  contradiction_eq := by
    rw [Bool.eq_iff_iff, contradiction_foldl_apply, contradiction_foldl_apply, h]
  mem_constraints_iff c := by
    rw [mem_constraints_foldl_apply, mem_constraints_foldl_apply, h]

end Network

end FiniteDomain
