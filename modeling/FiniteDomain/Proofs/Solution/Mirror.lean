import FiniteDomain.Proofs.Expression.Rendering
import FiniteDomain.Proofs.Network.Mirror
import FiniteDomain.Proofs.Search.Recursive
import FiniteDomain.Proofs.Solution.Conjunction

/-!
# Relations with their sides exchanged

A model in which the sides of some relations are exchanged has a network exactly when the model has
one, and the two networks are searched alike: with the same assignment, or both with none, and with
the same counters. It does not matter which relations these are and how they are written. A template
is not a relation, and neither is the condition that the elements of an aggregate differ.

## Main definitions

* `ModelConstraint.Mirrors`: a constraint with the sides of its relation exchanged.
* `ModelConstraint.MirroredAt`: constraints of which those at some places are rewritten in this way.

## Main results

* `ConstraintExpr.exists_parse_mirror`: a relation can be written with its sides exchanged.
* `Network.exists_build_mirrors`: the network of a model in which sides are exchanged.
* `Model.search_mirrored`: models that differ by exchanged sides are searched alike.
-/

namespace FiniteDomain

/-! ### Relations -/

/-- The two sides of a written relation can be written the other way round. -/
theorem ConstraintWord.mirror {w : List Char} {e : ConstraintExpr} (h : ConstraintWord w e)
    (hconcrete : e.isTemplate = false) : ∃ w', ConstraintWord w' e.mirror := by
  cases h with
  | @relation _ _ _ _ _ _ _ _ _ c hleft hgap₁ _ hgap₂ hright =>
    -- the terms stay as they are written, and the gaps around the comparison go with them
    exact ⟨_, .relation hright hgap₂ (symbol_mem_spellings c.flip) hgap₁ hleft⟩
  | repeated => cases hconcrete

/-- A relation that can be read can be written with its sides exchanged. -/
theorem ConstraintExpr.exists_parse_mirror {text : String} {e : ConstraintExpr}
    (hparse : ConstraintExpr.parse text = .ok e) (hconcrete : e.isTemplate = false) :
    ∃ text', ConstraintExpr.parse text' = .ok e.mirror := by
  obtain ⟨⟨-, w, -, -, hw, -⟩, hcounters⟩ := parse_eq_ok_iff_constraintWord.1 hparse
  obtain ⟨w', hw'⟩ := hw.mirror hconcrete
  refine ⟨String.ofList w', parse_eq_ok_iff_constraintWord.2 ⟨⟨[], w', [], ?_⟩, ?_⟩⟩
  · exact ⟨isGap_nil, hw', isGap_nil, by simp⟩
  · -- the same counters are used, those of the other side first
    refine ⟨hcounters.distinct, hcounters.inScope, fun name hname => hcounters.uses name ?_⟩
    exact List.mem_append.2 (List.mem_append.1 hname).symm

/-! ### Constraints of a model -/

namespace ModelConstraint

/-- A constraint that states one relation. -/
def IsRelation (c : ModelConstraint) : Prop :=
  ∃ name text e, c = .expression name text ∧ ConstraintExpr.parse text = .ok e ∧
    e.isTemplate = false

/-- A constraint that states one relation, and the constraint of its name that states the relation
with its sides exchanged. -/
inductive Mirrors : ModelConstraint → ModelConstraint → Prop where
  /-- The texts are those of a relation and of the relation with its sides exchanged. -/
  | expression {name text text' : String} {e : ConstraintExpr}
    (hparse : ConstraintExpr.parse text = .ok e) (hconcrete : e.isTemplate = false)
    (hparse' : ConstraintExpr.parse text' = .ok e.mirror) :
    Mirrors (.expression name text) (.expression name text')

/-- To be mirrored goes both ways. -/
theorem Mirrors.symm {c c' : ModelConstraint} (h : c.Mirrors c') : c'.Mirrors c := by
  cases h with
  | @expression name text text' e hparse hconcrete hparse' =>
    exact .expression hparse' hconcrete (by rw [e.mirror_mirror, hparse])

/-- Every relation without counters has a mirrored text. -/
theorem IsRelation.exists_mirrors {c : ModelConstraint} (h : c.IsRelation) :
    ∃ c', c.Mirrors c' := by
  obtain ⟨name, text, e, rfl, hparse, hconcrete⟩ := h
  obtain ⟨text', hparse'⟩ := ConstraintExpr.exists_parse_mirror hparse hconcrete
  exact ⟨_, .expression hparse hconcrete hparse'⟩

/-- The constraints of a list with those at the chosen places rewritten: they state relations, and
their sides are exchanged. The others stay. -/
def MirroredAt (chosen : Set Nat) (cs cs' : List ModelConstraint) : Prop :=
  List.Forall₂ (fun entry c' => (entry.2 ∈ chosen → entry.1.Mirrors c') ∧
    (entry.2 ∉ chosen → c' = entry.1)) cs.zipIdx cs'

theorem MirroredAt.forall₂ {chosen : Set Nat} {cs cs' : List ModelConstraint}
    (h : MirroredAt chosen cs cs') :
    List.Forall₂ (fun c c' => c.Mirrors c' ∨ c' = c) cs cs' := by
  rw [← List.zipIdx_map_fst 0 cs, List.forall₂_map_left_iff]
  refine List.Forall₂.imp (fun entry c' hentry => ?_) h
  by_cases hchosen : entry.2 ∈ chosen
  · exact .inl (hentry.1 hchosen)
  · exact .inr (hentry.2 hchosen)

/-- Any relations of a list can be rewritten. -/
theorem exists_mirroredAt {chosen : Set Nat} {cs : List ModelConstraint}
    (hchosen : ∀ i ∈ chosen, ∀ c, cs[i]? = some c → c.IsRelation) :
    ∃ cs', MirroredAt chosen cs cs' := by
  have hentry (entry : ModelConstraint × Nat) : ∃ c', entry ∈ cs.zipIdx →
      (entry.2 ∈ chosen → entry.1.Mirrors c') ∧ (entry.2 ∉ chosen → c' = entry.1) := by
    by_cases hrewrite : entry ∈ cs.zipIdx ∧ entry.2 ∈ chosen
    · obtain ⟨hmem, hin⟩ := hrewrite
      obtain ⟨c', hc'⟩ :=
        (hchosen entry.2 hin entry.1 (List.mem_zipIdx_iff_getElem?.1 hmem)).exists_mirrors
      exact ⟨c', fun _ => ⟨fun _ => hc', fun hout => absurd hin hout⟩⟩
    · exact ⟨entry.1, fun hmem => ⟨fun hin => absurd ⟨hmem, hin⟩ hrewrite, fun _ => rfl⟩⟩
  choose rewrite hrewrite using hentry
  exact ⟨cs.zipIdx.map rewrite, List.forall₂_map_right_iff.2 (List.forall₂_same.2 hrewrite)⟩

end ModelConstraint

namespace Network

variable {m : Model} {net net' : Network}

/-! ### Effects -/

/-- A constraint that states one relation does what the relation does. -/
theorem effectsOf_of_parse {name text : String} {e : ConstraintExpr}
    (hparse : ConstraintExpr.parse text = .ok e) (hconcrete : e.isTemplate = false) :
    effectsOf m net (.expression name text) =
      (net.effectOf name e).map fun effect => [effect] := by
  -- without a repeater clause a tree stands for itself
  have hrelations : relationsOf text = .ok [e] := by
    have hrepeater : e.repeater = none := by simpa [ConstraintExpr.isTemplate] using hconcrete
    rw [relationsOf, Template.expandText, hparse]
    show Except.mapError SolveError.parse (Template.expand text e) = _
    rw [Template.expand, hrepeater]
    rfl
  rw [effectsOf, hrelations]
  show [e].mapM (net.effectOf name) = _
  rw [List.mapM_cons]
  cases net.effectOf name e <;> rfl

/-- What a constraint does when the sides of its relation are exchanged. -/
theorem exists_effectsOf_mirror {c c' : ModelConstraint} (hc : c.Mirrors c') {es : List Effect}
    (h : effectsOf m net c = .ok es) :
    ∃ es', effectsOf m net c' = .ok es' ∧ List.Forall₂ Effect.Mirrors es es' := by
  cases hc with
  | @expression name text text' e hparse hconcrete hparse' =>
    rw [effectsOf_of_parse hparse hconcrete, map_eq_ok_iff] at h
    obtain ⟨effect, heffect, rfl⟩ := h
    obtain ⟨effect', heffect', hmirrors⟩ := exists_effectOf_mirror heffect
    refine ⟨[effect'], ?_, .cons hmirrors .nil⟩
    rw [effectsOf_of_parse hparse' hconcrete, heffect']
    rfl

/-! ### Construction -/

/-- If a network is built from some constraints, then one that is the same but for the sides of its
constraints is built when sides of relations are exchanged. -/
theorem exists_build_mirrors {cs cs' : List ModelConstraint}
    (hcs : List.Forall₂ (fun c c' => c.Mirrors c' ∨ c' = c) cs cs')
    (h : build (m.withConstraints cs) = .ok net) :
    ∃ net', build (m.withConstraints cs') = .ok net' ∧ net.Mirrors net' := by
  obtain ⟨b, ess, hb, hess, rfl⟩ := build_withConstraints_eq_ok_iff.1 h
  -- each constraint has the effects of the one in its place, but for the sides
  have heffects : ∀ c c' es, c.Mirrors c' ∨ c' = c → effectsOf m b.network c = .ok es →
      ∃ es', effectsOf m b.network c' = .ok es' ∧ List.Forall₂ Effect.Mirrors es es' := by
    rintro c c' es (hc | rfl) hes
    · exact exists_effectsOf_mirror hc hes
    · exact ⟨es, hes, List.forall₂_same.2 fun effect _ => .refl effect⟩
  obtain ⟨ess', hess', hmirrors⟩ := exists_mapM_of_forall₂ heffects hcs hess
  refine ⟨_, build_withConstraints_eq_ok_iff.2 ⟨b, ess', hb, hess', rfl⟩, ?_⟩
  -- both lists of effects are applied to the network of the declared unknowns
  exact (Mirrors.refl b.network).foldl_apply (List.rel_flatten hmirrors)

end Network

namespace Model

variable {m : Model} {chosen : Set Nat}

/-- Exchanging the sides of a relation changes nothing. Any relations of a model can be rewritten
with their sides exchanged and their comparisons flipped. However this is written, the network of
the model that results can be built exactly when that of the model can, and then the searches
without a limit end with the same assignment, or both with none, and with the same counters. -/
theorem search_mirrored
    (hchosen : ∀ i ∈ chosen, ∀ c, m.constraints[i]? = some c → c.IsRelation) :
    (∃ cs, ModelConstraint.MirroredAt chosen m.constraints cs) ∧
    ∀ cs, ModelConstraint.MirroredAt chosen m.constraints cs →
      ((∃ net', Network.build (m.withConstraints cs) = .ok net') ↔
        ∃ net, Network.build m = .ok net) ∧
      ∀ net net', Network.build m = .ok net →
        Network.build (m.withConstraints cs) = .ok net' →
        ∃ found statistics, Search.search net none = .ok (found, statistics) ∧
          Search.search net' none = .ok (found, statistics) := by
  refine ⟨ModelConstraint.exists_mirroredAt hchosen, fun cs hcs => ⟨⟨?_, ?_⟩, ?_⟩⟩
  · rintro ⟨net', hbuild'⟩
    -- exchanging the same sides once more gives the model back
    have hback : List.Forall₂ (fun c' c => c'.Mirrors c ∨ c = c') cs m.constraints :=
      (hcs.forall₂.imp fun c c' hc => hc.imp ModelConstraint.Mirrors.symm Eq.symm).flip
    obtain ⟨net, hbuild, -⟩ := Network.exists_build_mirrors hback hbuild'
    exact ⟨net, hbuild⟩
  · rintro ⟨net, hbuild⟩
    obtain ⟨net', hbuild', -⟩ := Network.exists_build_mirrors hcs.forall₂ hbuild
    exact ⟨net', hbuild'⟩
  · intro net net' hbuild hbuild'
    obtain ⟨net₁, hbuild₁, hmirrors⟩ := Network.exists_build_mirrors hcs.forall₂ hbuild
    obtain rfl : net' = net₁ := Except.ok.inj (hbuild'.symm.trans hbuild₁)
    obtain ⟨found, statistics, hsearch⟩ := Search.exists_search_none net
    exact ⟨found, statistics, hsearch, (hmirrors.search_eq none).trans hsearch⟩

/-- A number that is to be at least 2, and two numbers that differ from it and from each other, the
second of which is to be greater by at least 2. -/
def ladderModel : Model where
  name := "ladder"
  vars := [.singleton ⟨"x", "1..4"⟩, .aggregate ⟨"q", "1..4", [⟨"q1", none⟩, ⟨"q2", none⟩]⟩]
  sharedDomains := []
  bundles := []
  tables := []
  constraints := [.expression "low" "2 <= x", .expression "apart" "q[i] <> x | i in 1..2",
    .expression "gap" "x + 1 < q[2]", .allDifferent "differ" "q"]

/-- The constraints of `ladderModel` with the sides of the first and the third exchanged. -/
def ladderMirrored : List ModelConstraint :=
  [.expression "low" "x >= 2", .expression "apart" "q[i] <> x | i in 1..2",
    .expression "gap" "q[2]>x+1", .allDifferent "differ" "q"]

/-- The networks of `ladderModel` with either constraints can be built and are searched alike: the
numbers are 2, 1 and 4. -/
theorem search_mirrored_ladderModel :
    (∀ i ∈ ({0, 2} : Set Nat), ∀ c, ladderModel.constraints[i]? = some c → c.IsRelation) ∧
      ModelConstraint.MirroredAt {0, 2} ladderModel.constraints ladderMirrored ∧
      ∃ net net' found statistics, Network.build ladderModel = .ok net ∧
        Network.build (ladderModel.withConstraints ladderMirrored) = .ok net' ∧
        Search.search net none = .ok (found, statistics) ∧
        Search.search net' none = .ok (found, statistics) ∧
        found.map (fun a => [a.get? 0, a.get? 1, a.get? 2]) = some [some 2, some 1, some 4] := by
  let x : Term := ⟨.reference (.singleton "x"), none⟩
  let next : Term := ⟨.reference (.singleton "x"), some ⟨.plus, .literal 1⟩⟩
  let second : Term := ⟨.reference (.element "q" (.literal 2)), none⟩
  let two : Term := ⟨.literal (.integer 2), none⟩
  -- the trees of the two relations, with the sides as they are written
  have hlow : ConstraintExpr.parse "2 <= x" = .ok ⟨two, .le, x, none⟩ := by
    decide +kernel
  have hgap : ConstraintExpr.parse "x + 1 < q[2]" = .ok ⟨next, .lt, second, none⟩ := by
    decide +kernel
  have hchosen : ∀ i ∈ ({0, 2} : Set Nat), ∀ c, ladderModel.constraints[i]? = some c →
      c.IsRelation := by
    rintro i (rfl | rfl) c hc
    · exact ⟨_, _, _, (Option.some.inj hc).symm, hlow, rfl⟩
    · exact ⟨_, _, _, (Option.some.inj hc).symm, hgap, rfl⟩
  have hmirrored : ModelConstraint.MirroredAt {0, 2} ladderModel.constraints ladderMirrored := by
    refine .cons ⟨fun _ => ?_, ?_⟩ (.cons ⟨?_, fun _ => rfl⟩ (.cons ⟨fun _ => ?_, ?_⟩
      (.cons ⟨?_, fun _ => rfl⟩ .nil)))
    · exact .expression hlow rfl (by decide +kernel)
    · simp
    · simp
    · exact .expression hgap rfl (by decide +kernel)
    · simp
    · simp
  obtain ⟨net, hbuild⟩ : ∃ net, Network.build ladderModel = .ok net :=
    isSome_toOption_iff.1 (by decide +kernel)
  obtain ⟨-, hall⟩ := search_mirrored hchosen
  obtain ⟨hiff, hsearch⟩ := hall ladderMirrored hmirrored
  obtain ⟨net', hbuild'⟩ := hiff.2 ⟨net, hbuild⟩
  obtain ⟨found, statistics, hfound, hfound'⟩ := hsearch net net' hbuild hbuild'
  -- what is found is computed by the recursive search
  have hvisit : (Network.build ladderModel).toOption.map (fun net =>
      (net.isInfeasible, (Search.visit net net.unknowns.size 0 .empty .zero).1.map fun a =>
        [a.get? 0, a.get? 1, a.get? 2])) = some (false, some [some 2, some 1, some 4]) := by
    decide +kernel
  rw [toOption_eq_some_iff.2 hbuild, Option.map_some, Option.some.injEq, Prod.mk.injEq] at hvisit
  obtain ⟨hfeasible, hpositions⟩ := hvisit
  rw [Search.fst_visit_of_search hfeasible hfound] at hpositions
  exact ⟨hchosen, hmirrored, net, net', found, statistics, hbuild, hbuild', hfound, hfound',
    hpositions⟩

end Model

end FiniteDomain
