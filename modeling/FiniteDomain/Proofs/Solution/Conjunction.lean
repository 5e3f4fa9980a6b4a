import FiniteDomain.Proofs.Model.Replacement
import FiniteDomain.Proofs.Network.Anonymous
import FiniteDomain.Proofs.Search.Alike
import FiniteDomain.Proofs.Solution.Difference
import FiniteDomain.Proofs.Solution.Rejection

/-!
# Constraints are conjunctive

The constraints of a model hold all together: what they say depends neither on their order nor on
how often one of them is repeated. A list of constraints with the same members leaves a model valid,
its network can be built exactly when the network of the model can, and the two are solved alike:
with the same status and the same snapshot, or, where the number of nodes is limited, with the same
error.

The constraints are added as effects on the network of the declared unknowns, where only membership
counts. The networks are then alike, and networks that are alike are searched by the same moves.

## Main results

* `Network.exists_build_alike`: lists with the same members make networks that are alike.
* `Network.answer_alike`: networks that are alike have the same answer, but for the checks counted.
* `Model.solve_conjunctive`: rearranged and repeated constraints are solved alike.
-/

namespace FiniteDomain

namespace Network

variable {m : Model} {net net' : Network} {cs cs' : List ModelConstraint}

/-! ### Construction -/

/-- The network of a model with given constraints is that of its unknowns after the effects of all
constraints. -/
theorem build_withConstraints_eq_ok_iff :
    build (m.withConstraints cs) = .ok net ↔
      ∃ b ess, Builder.declareAll m = .ok b ∧ cs.mapM (effectsOf m b.network) = .ok ess ∧
        ess.flatten.foldl apply b.network = net := by
  have hbind : build (m.withConstraints cs) = Builder.declareAll m >>= fun b =>
      cs.foldlM (addModelConstraint m) b.network := build_withConstraints m cs
  rw [hbind, bind_eq_ok_iff]
  constructor
  · rintro ⟨b, hb, hrun⟩
    -- the effects are computed first and applied later, since none changes what a side is
    rw [foldlM_addModelConstraint] at hrun
    cases hess : cs.mapM (effectsOf m b.network) with
    | error error =>
      rw [hess] at hrun
      cases hrun
    | ok ess =>
      rw [hess] at hrun
      exact ⟨b, ess, hb, hess, Except.ok.inj hrun⟩
  · rintro ⟨b, ess, hb, hess, rfl⟩
    refine ⟨b, hb, ?_⟩
    rw [foldlM_addModelConstraint, hess]
    rfl

/-- If a network is built from some constraints, then one that is alike is built from any list with
the same members. -/
theorem exists_build_alike (hcs : ∀ c, c ∈ cs' ↔ c ∈ cs)
    (h : build (m.withConstraints cs) = .ok net) :
    ∃ net', build (m.withConstraints cs') = .ok net' ∧ net.Alike net' := by
  obtain ⟨b, ess, hb, hess, rfl⟩ := build_withConstraints_eq_ok_iff.1 h
  -- each constraint of the other list has the effects that it has in this one
  have hall : ∀ c ∈ cs', ∃ es, effectsOf m b.network c = .ok es := by
    intro c hc
    exact exists_mapM_eq_ok_iff.1 ⟨ess, hess⟩ c ((hcs c).1 hc)
  obtain ⟨ess', hess'⟩ := exists_mapM_eq_ok_iff.2 hall
  refine ⟨_, build_withConstraints_eq_ok_iff.2 ⟨b, ess', hb, hess', rfl⟩, ?_⟩
  refine alike_of_mem_iff (fun e => ?_) b.network
  rw [mem_flatten_of_mapM hess, mem_flatten_of_mapM hess']
  simp only [hcs]

/-! ### Answers -/

/-- The status and the snapshot for what a search has found. -/
def verdict (net : Network) : Option Assignment → Except SolveError (Status × Snapshot)
  | some a => (Snapshot.extract net a).map fun snapshot => (.success, snapshot)
  | none => .ok (.fail, .empty)

/-- The status and the snapshot of an answer depend on the assignment that was found, not on the
counters. -/
theorem answer_eq_verdict (net : Network) (limit : Option Nat) :
    (net.answer limit).map (fun r => (r.status, r.snapshot)) =
      (Search.search net limit).map Prod.fst >>= net.verdict := by
  rw [answer]
  cases Search.search net limit with
  | error error => rfl
  | ok outcome =>
    obtain ⟨found, statistics⟩ := outcome
    show (net.conclude (found, statistics)).map _ = net.verdict found
    cases found with
    | none => rfl
    | some a =>
      rw [conclude, verdict]
      cases Snapshot.extract net a <;> rfl

/-- Networks that are alike have the same answer, but for the counters. -/
theorem answer_alike (halike : net.Alike net') (hnet : net.Sound) (hnet' : net'.Sound)
    (limit : Option Nat) :
    (net'.answer limit).map (fun r => (r.status, r.snapshot)) =
      (net.answer limit).map fun r => (r.status, r.snapshot) := by
  have hverdict : net'.verdict = net.verdict := by
    funext found
    cases found with
    | none => rfl
    | some a => rw [verdict, verdict, Snapshot.extract, Snapshot.extract, halike.unknowns_eq]
  rw [answer_eq_verdict, answer_eq_verdict, hverdict, Search.fst_search_alike halike hnet hnet']

/-- Without a limit, the network of a valid model always has an answer. -/
theorem exists_answer (hvalid : m.validate.isValid = true) (hbuild : build m = .ok net) :
    ∃ r, net.answer none = .ok r := by
  -- the search ends, and what it finds can be read back
  obtain ⟨found, statistics, hsearch, -⟩ := search_build_findsLeast hbuild
  rw [answer, hsearch]
  cases found with
  | none => exact ⟨_, rfl⟩
  | some a =>
    obtain ⟨snapshot, hsnapshot⟩ := Model.exists_extract hvalid hbuild hsearch
    refine ⟨⟨.success, snapshot, statistics, []⟩, ?_⟩
    show net.conclude (some a, statistics) = _
    rw [conclude, hsnapshot]
    rfl

end Network

namespace Model

variable {m : Model} {cs : List ModelConstraint}

/-- A valid model stays valid. -/
theorem isValid_of_mem_iff (hvalid : m.validate.isValid = true)
    (hcs : ∀ c, c ∈ cs ↔ c ∈ m.constraints) :
    (m.withConstraints cs).validate.isValid = true := by
  rw [← withConstraints_self m, isValid_withConstraints_iff] at hvalid
  rw [isValid_withConstraints_iff]
  exact ⟨hvalid.1, fun c hc => hvalid.2 c ((hcs c).1 hc)⟩

/-- Without a limit, a valid model whose network can be built is always answered. -/
theorem exists_solve (hvalid : m.validate.isValid = true) {net : Network}
    (hbuild : Network.build m = .ok net) : ∃ r, m.solve none = .ok r := by
  rw [solve_of_isValid hvalid, hbuild]
  split
  · exact ⟨_, rfl⟩
  · exact Network.exists_answer hvalid hbuild

/-- Constraints are conjunctive. If the constraints of a valid model are put in another order and
repeated any number of times, then the model stays valid, and its network can be built exactly when
it could be before. If it can, both models are answered with the same status and the same snapshot;
and with a limit on the number of nodes, both are or neither is. -/
theorem solve_conjunctive (hvalid : m.validate.isValid = true)
    (hcs : ∀ c, c ∈ cs ↔ c ∈ m.constraints) :
    (m.withConstraints cs).validate.isValid = true ∧
    ((∃ net', Network.build (m.withConstraints cs) = .ok net') ↔
      ∃ net, Network.build m = .ok net) ∧
    ∀ net, Network.build m = .ok net →
      (∃ r r', m.solve none = .ok r ∧ (m.withConstraints cs).solve none = .ok r' ∧
        r'.status = r.status ∧ r'.snapshot = r.snapshot) ∧
      ∀ limit, ((m.withConstraints cs).solve limit).map (fun r => (r.status, r.snapshot)) =
        (m.solve limit).map fun r => (r.status, r.snapshot) := by
  have hvalid' := isValid_of_mem_iff hvalid hcs
  -- each list has the members of the other, so that either network can be built from the other
  have hbuilt : (∃ net', Network.build (m.withConstraints cs) = .ok net') ↔
      ∃ net, Network.build m = .ok net := by
    constructor
    · rintro ⟨net', hbuild'⟩
      obtain ⟨net, hbuild, -⟩ := Network.exists_build_alike (fun c => (hcs c).symm) hbuild'
      exact ⟨net, hbuild⟩
    · rintro ⟨net, hbuild⟩
      obtain ⟨net', hbuild', -⟩ := Network.exists_build_alike hcs hbuild
      exact ⟨net', hbuild'⟩
  refine ⟨hvalid', hbuilt, fun net hbuild => ?_⟩
  obtain ⟨net', hbuild', halike⟩ := Network.exists_build_alike hcs hbuild
  have hsame (limit : Option Nat) :
      ((m.withConstraints cs).solve limit).map (fun r => (r.status, r.snapshot)) =
        (m.solve limit).map fun r => (r.status, r.snapshot) := by
    rw [solve_of_isValid hvalid, solve_of_isValid hvalid', isEmpty_withConstraints, hbuild, hbuild']
    -- without variables both are answered at once
    split
    · rfl
    · exact Network.answer_alike halike (Network.build_eq_ok hbuild).1
        (Network.build_eq_ok hbuild').1 limit
  refine ⟨?_, hsame⟩
  obtain ⟨r, hr⟩ := exists_solve hvalid hbuild
  obtain ⟨r', hr'⟩ := exists_solve hvalid' hbuild'
  have hpair := hsame none
  rw [hr, hr'] at hpair
  obtain ⟨hstatus, hsnapshot⟩ := Prod.mk.inj (Except.ok.inj hpair)
  exact ⟨r, r', hr, hr', hstatus, hsnapshot⟩

/-- Three numbers that are to differ, the last two of which ascend. -/
def lineModel : Model where
  name := "line"
  vars := [.aggregate ⟨"q", "1..3", [⟨"q1", none⟩, ⟨"q2", none⟩, ⟨"q3", none⟩]⟩]
  sharedDomains := []
  bundles := []
  tables := []
  constraints := [.allDifferent "differ" "q", .expression "first" "q[i] <> 1 | i in 1",
    .expression "rising" "q[2] < q[3]", .expression "constant" "1 < 2"]

/-- The constraints of `lineModel` in another order, some of them repeated. -/
def lineConstraints : List ModelConstraint :=
  [.expression "rising" "q[2] < q[3]", .expression "first" "q[i] <> 1 | i in 1",
    .expression "rising" "q[2] < q[3]", .allDifferent "differ" "q",
    .expression "constant" "1 < 2", .expression "first" "q[i] <> 1 | i in 1"]

/-- `lineModel` has a solution, and it is solved alike with `lineConstraints`. -/
theorem solve_conjunctive_lineModel :
    lineModel.validate.isValid = true ∧ (∀ c, c ∈ lineConstraints ↔ c ∈ lineModel.constraints) ∧
      ∃ r r', lineModel.solve none = .ok r ∧
        (lineModel.withConstraints lineConstraints).solve none = .ok r' ∧
        r.status = .success ∧ r'.status = r.status ∧ r'.snapshot = r.snapshot := by
  have hvalid : lineModel.validate.isValid = true := by decide +kernel
  have hcs (c : ModelConstraint) : c ∈ lineConstraints ↔ c ∈ lineModel.constraints := by
    simp only [lineConstraints, lineModel, List.mem_cons, List.not_mem_nil, or_false]
    tauto
  have hanswer : lineModel.answer? =
      some (.success, ⟨[], [⟨"q", [.int 2, .int 1, .int 3]⟩], []⟩) := by
    decide +kernel
  obtain ⟨r₀, hr₀, hstatus₀, -⟩ := exists_solve_of_answer? hvalid rfl hanswer
  obtain ⟨net, hnet⟩ : ∃ net, Network.build lineModel = .ok net :=
    isSome_toOption_iff.1 (by decide +kernel)
  obtain ⟨-, -, hsame⟩ := solve_conjunctive hvalid hcs
  obtain ⟨⟨r, r', hr, hr', hstatus, hsnapshot⟩, -⟩ := hsame net hnet
  obtain rfl : r₀ = r := Except.ok.inj (hr₀.symm.trans hr)
  exact ⟨hvalid, hcs, r₀, r', hr, hr', hstatus₀, hstatus, hsnapshot⟩

end Model

end FiniteDomain
