import FiniteDomain.Proofs.Model.Validity
import FiniteDomain.Proofs.Network.Construction
import FiniteDomain.Proofs.Search.Limit
import FiniteDomain.Proofs.Solution.Decoding
import FiniteDomain.Solution.Solve

/-!
# Solving finds the least solution

A solve of a valid model whose network can be built answers with the decoding of the least solution
of the model, or that there is none. Solutions are those of the model itself: the network in between
does not occur in the statement.

## Main definitions

* `Model.answer?`: what a solve answers, as the recursive search evaluates it.

## Main results

* `Network.solutions_eq`: the solutions of the network of a model are those of the model.
* `Model.exists_solution_of_success`: the snapshot of a success is the decoding of a solution.
* `Model.solve_decodes_least_solution`: what a solve answers.
-/

namespace FiniteDomain

variable {m : Model} {net : Network}

namespace Network

/-- An infeasible network allows no choice. -/
theorem not_meets_of_isInfeasible (h : net.isInfeasible = true) {v : List Int64}
    (hlength : v.length = net.unknowns.size) : ¬ net.Meets v := by
  rintro ⟨hagrees, hflag⟩
  rw [isInfeasible, hflag, Bool.false_or, Array.any_eq_true] at h
  obtain ⟨i, hi, hempty⟩ := h
  have hu : net.unknowns[i]? = some net.unknowns[i] := Array.getElem?_eq_getElem hi
  have hp : v[i]? = some v[i] := List.getElem?_eq_getElem (by omega)
  have hmem := hagrees.candidate hp
  rw [candidatesOf, hu] at hmem
  dsimp only at hmem
  rw [List.isEmpty_iff.1 hempty] at hmem
  simp at hmem

/-- A solution of a sound network takes positions of the domains. -/
theorem Solves.admits (hnet : net.Sound) {v : List Int64} (hv : net.Solves v) :
    net.directory.Admits v := by
  refine ⟨hv.length_eq.trans net.length_domains.symm, ?_⟩
  intro n d p hd hp
  rw [getElem?_domains, Option.map_eq_some_iff] at hd
  obtain ⟨u, hu, rfl⟩ := hd
  have hmem := hv.agrees.candidate hp
  rw [candidatesOf, hu] at hmem
  exact Domain.mem_positions.1 (hnet.candidates_subset u (Array.mem_of_getElem? hu) hmem)

/-- The solutions of a network without contradiction are those of the model that it was built from.
-/
theorem solutions_eq (h : build m = .ok net) (hflag : net.contradiction = false) :
    {v | net.Solves v} = {v | m.Solution v} := by
  obtain ⟨hsound, hdir, hmeets⟩ := build_eq_ok h
  ext v
  constructor
  · intro hv
    have hadmits : m.directory.Admits v := hdir ▸ Solves.admits hsound hv
    exact ⟨hadmits, (hmeets v hadmits).1 ⟨hv.agrees, hflag⟩⟩
  · rintro ⟨hadmits, hsatisfies⟩
    have hlength : v.length = net.unknowns.size := by
      rw [hadmits.length_eq, ← hdir, length_domains]
    exact ⟨hlength, ((hmeets v hadmits).2 hsatisfies).1⟩

/-- A model whose network is infeasible has no solution. -/
theorem not_solution_of_isInfeasible (h : build m = .ok net) (hinfeasible : net.isInfeasible = true)
    (v : List Int64) : ¬ m.Solution v := by
  obtain ⟨-, hdir, hmeets⟩ := build_eq_ok h
  rintro ⟨hadmits, hsatisfies⟩
  have hlength : v.length = net.unknowns.size := by
    rw [hadmits.length_eq, ← hdir, length_domains]
  exact not_meets_of_isInfeasible hinfeasible hlength ((hmeets v hadmits).2 hsatisfies)

/-- The search through the network of a model ends and returns the least solution of the model. -/
theorem search_build_findsLeast (h : build m = .ok net) :
    ∃ found statistics, Search.search net none = .ok (found, statistics) ∧
      Search.FindsLeast {v | m.Solution v} found := by
  by_cases hinfeasible : net.isInfeasible = true
  · refine ⟨none, .zero, Search.search_of_infeasible hinfeasible none, ?_⟩
    exact Set.eq_empty_of_forall_notMem (not_solution_of_isInfeasible h hinfeasible)
  · have hfeasible : net.isInfeasible = false := by simpa using hinfeasible
    have hflag : net.contradiction = false := by
      rw [isInfeasible, Bool.or_eq_false_iff] at hfeasible
      exact hfeasible.1
    rw [← solutions_eq h hflag]
    exact Search.search_findsLeast (build_eq_ok h).1.wellFormed hfeasible

end Network

namespace Model

/-- There is an entry for each unknown of a model whose network can be built. -/
theorem map_fst_entries (hbuild : Network.build m = .ok net) {v : List Int64}
    (hv : m.directory.Admits v) :
    (m.directory.entries v).map Prod.fst = m.directory.keys := by
  obtain ⟨hsound, hdir, -⟩ := Network.build_eq_ok hbuild
  rw [← hdir] at hv ⊢
  exact Snapshot.map_fst_entries hsound hv

/-- An assignment that makes a choice is read back as the decoding of the choice. -/
theorem extract_eq_decode_of_admits (hnames : (m.vars.map Variable.name).Nodup)
    (hbuild : Network.build m = .ok net) {v : List Int64} (hv : m.directory.Admits v)
    {a : Assignment} (ha : ∀ i p, v[i]? = some p → a.get? i = some p) :
    Snapshot.extract net a = .ok (m.decode v) := by
  obtain ⟨hsound, hdir, -⟩ := Network.build_eq_ok hbuild
  have hadmits : net.directory.Admits v := by rwa [hdir]
  rw [Snapshot.extract_eq_ok hsound hadmits ha, hdir,
    foldl_add_entries hnames (map_fst_entries hbuild hv)]

/-- The solution of a model's network is read back as the decoding of its positions. -/
theorem extract_eq_decode (hvalid : m.validate.isValid = true) (hbuild : Network.build m = .ok net)
    {v : List Int64} (hv : m.Solution v) {a : Assignment} (ha : a.Represents v) :
    Snapshot.extract net a = .ok (m.decode v) :=
  extract_eq_decode_of_admits (noFindings_of_isValid hvalid).names hbuild hv.admits
    fun i _ hp => (ha i).trans hp

/-- A solve that succeeds, within a limit or without one, is that of a valid model. Unless the model
has no variables, its network was built, and the snapshot is the decoding of a solution. -/
theorem exists_solution_of_success {limit : Option Nat} {r : SolveResult}
    (hsolve : m.solve limit = .ok r) (hsuccess : r.status = .success) :
    m.validate.isValid = true ∧ (m.isEmpty = false → ∃ net v, Network.build m = .ok net ∧
      m.Solution v ∧ r.snapshot = m.decode v) := by
  by_cases hvalid : m.validate.isValid = true
  swap
  · -- otherwise the answer says that the model is not valid
    simp only [solve, hvalid, Bool.not_false, if_true] at hsolve
    cases hsolve
    cases hsuccess
  refine ⟨hvalid, fun hvars => ?_⟩
  simp only [solve, hvalid, hvars, Bool.not_true, Bool.false_eq_true, if_false] at hsolve
  rw [bind_eq_ok_iff] at hsolve
  obtain ⟨net, hbuild, hsolve⟩ := hsolve
  rw [bind_eq_ok_iff] at hsolve
  obtain ⟨outcome, hsearch, hsolve⟩ := hsolve
  -- the limit was not reached, so this is the search without one
  obtain ⟨found, statistics, hsearch', hfound⟩ := Network.search_build_findsLeast hbuild
  rw [Search.search_none_of_eq_ok hsearch] at hsearch'
  cases hsearch'
  rcases found with _ | a
  · cases hsolve
    cases hsuccess
  · obtain ⟨v, ha, hv⟩ := hfound
    rw [Network.conclude, extract_eq_decode hvalid hbuild hv.1 ha] at hsolve
    cases hsolve
    exact ⟨net, v, hbuild, hv.1, rfl⟩

/-- A solve of a valid model with variables, whose network can be built, always answers, without
findings. It succeeds exactly when the model has a solution; the snapshot is then the decoding of
the least solution in lexicographic order. Otherwise the solve fails and the snapshot is empty. -/
theorem solve_decodes_least_solution (hvalid : m.validate.isValid = true)
    (hvars : m.isEmpty = false) (hbuild : Network.build m = .ok net) :
    ∃ r, m.solve none = .ok r ∧ r.findings = [] ∧
      (r.status = .success ↔ ∃ v, m.Solution v) ∧
      (r.status = .success → ∃ v, IsLeast {v | m.Solution v} v ∧ r.snapshot = m.decode v) ∧
      (r.status ≠ .success → r.status = .fail ∧ r.snapshot = .empty) := by
  obtain ⟨found, statistics, hsearch, hfound⟩ := Network.search_build_findsLeast hbuild
  have hsolve : m.solve none = net.conclude (found, statistics) := by
    simp [solve, hvalid, hvars, hbuild, hsearch, bind, Except.bind]
  rw [hsolve]
  rcases found with _ | a
  · have hnone : ∀ v, ¬ m.Solution v := Set.eq_empty_iff_forall_notMem.1 hfound
    exact ⟨_, rfl, rfl, by simp [hnone], by simp, fun _ => ⟨rfl, rfl⟩⟩
  · obtain ⟨v, ha, hv⟩ := hfound
    have hconclude : net.conclude (some a, statistics) =
        .ok ⟨.success, m.decode v, statistics, []⟩ := by
      simp [Network.conclude, extract_eq_decode hvalid hbuild hv.1 ha, bind, Except.bind, pure,
        Except.pure]
    exact ⟨_, hconclude, rfl, ⟨fun _ => ⟨v, hv.1⟩, fun _ => rfl⟩, fun _ => ⟨v, hv, rfl⟩, by simp⟩

/-- The status and the snapshot that a solve of a valid model ends with, if its network is built and
not infeasible from the start. The search is the recursive one, which can be evaluated. -/
def answer? (m : Model) : Option (Status × Snapshot) := do
  let net ← (Network.build m).toOption
  if net.isInfeasible then none
  else
    let r ← (net.conclude (Search.visit net net.unknowns.size 0 .empty .zero)).toOption
    return (r.status, r.snapshot)

/-- An evaluated answer is that of the solve. -/
theorem exists_solve_of_answer? (hvalid : m.validate.isValid = true) (hvars : m.isEmpty = false)
    {status : Status} {snapshot : Snapshot} (h : m.answer? = some (status, snapshot)) :
    ∃ r, m.solve none = .ok r ∧ r.status = status ∧ r.snapshot = snapshot := by
  obtain ⟨net, hnet, h⟩ := Option.bind_eq_some_iff.1 h
  have hbuild := toOption_eq_some_iff.1 hnet
  split at h
  case isTrue => cases h
  case isFalse hfeasible =>
    have hsearch := Search.search_eq_visit (by simpa using hfeasible)
    obtain ⟨r, hr, hpair⟩ := Option.bind_eq_some_iff.1 h
    cases hpair
    refine ⟨r, ?_, rfl, rfl⟩
    rw [← toOption_eq_some_iff.1 hr]
    simp [solve, hvalid, hvars, hbuild, hsearch, bind, Except.bind]

/-- Two workers with a shift each, the second in a later one, and the last shift in use. -/
def rosterModel : Model where
  name := "roster"
  vars := [.bucket ⟨"worker", "task", 2⟩,
    .aggregate ⟨"load", "1..2", [⟨"load1", none⟩, ⟨"load2", none⟩]⟩,
    .singleton ⟨"last", "'a'..'c'"⟩]
  sharedDomains := [⟨"shifts", "'a'..'c'"⟩]
  bundles := [⟨"task", [⟨"shift", "$shifts"⟩, ⟨"place", "\"dock\", \"yard\""⟩]⟩]
  tables := []
  constraints := [.expression "later" "worker[1].shift < worker[2].shift",
    .expression "last" "worker[i].shift <= last | i in 2",
    .expression "place" "worker[2].place = \"yard\"", .allDifferent "load" "load"]

/-- The first two shifts, with the second worker in the yard. -/
def earliestRoster : Snapshot where
  singletons := [⟨"last", .char 'b'⟩]
  aggregates := [⟨"load", [.int 1, .int 2]⟩]
  buckets := [⟨"worker", [⟨1, [⟨"shift", .char 'a'⟩, ⟨"place", .item "dock"⟩]⟩,
    ⟨2, [⟨"shift", .char 'b'⟩, ⟨"place", .item "yard"⟩]⟩]⟩]

/-- A solve of `rosterModel` succeeds with `earliestRoster`, the decoding of its least solution.
Without any one of the four constraints a lesser choice would be a solution. -/
theorem solve_decodes_least_solution_rosterModel :
    rosterModel.validate.isValid = true ∧ rosterModel.isEmpty = false ∧
      (∃ net, Network.build rosterModel = .ok net) ∧
      ∃ r, rosterModel.solve none = .ok r ∧ r.findings = [] ∧ r.status = .success ∧
        r.snapshot = earliestRoster ∧
        ∃ v, IsLeast {v | rosterModel.Solution v} v ∧ rosterModel.decode v = earliestRoster := by
  have hvalid : rosterModel.validate.isValid = true := by decide +kernel
  have hanswer : rosterModel.answer? = some (.success, earliestRoster) := by decide +kernel
  obtain ⟨r₀, hr₀, hsuccess, hroster⟩ := exists_solve_of_answer? hvalid rfl hanswer
  obtain ⟨net, h⟩ : ∃ net, Network.build rosterModel = .ok net :=
    isSome_toOption_iff.1 (by decide +kernel)
  obtain ⟨r, hr, hfindings, -, hleast, -⟩ := solve_decodes_least_solution hvalid rfl h
  -- the evaluated answer is the one that the theorem speaks of
  obtain rfl : r₀ = r := Except.ok.inj (hr₀.symm.trans hr)
  obtain ⟨v, hv, hdecode⟩ := hleast hsuccess
  exact ⟨hvalid, rfl, ⟨net, h⟩, r₀, hr₀, hfindings, hsuccess, hroster, v, hv,
    hdecode.symm.trans hroster⟩

end Model

end FiniteDomain
