import FiniteDomain.Proofs.Solution.LeastSolution
import FiniteDomain.Proofs.Template.Expansion

/-!
# Valid models fail for few reasons

Validation leaves open whether a relation can be expressed: an offset may overflow, a constant may
have an adjustment or be no value of the domain it is compared with, and items may be compared with
each other. These are the only reasons for which a valid model cannot be solved. Everything that is
looked up is found, no counter is met, and a solution is always read back.

## Main definitions

* `SolveError.IsRejection`: a relation cannot be expressed.

## Main results

* `Network.isRejection_of_side`, `Network.isRejection_of_addRelation`: why a relation is given up.
* `Model.exists_declareAll`: when all unknowns are declared.
* `Model.solve_rejects_only`: why a valid model is given up.
-/

namespace FiniteDomain

/-- A relation of a model cannot be expressed. -/
inductive SolveError.IsRejection : SolveError → Prop where
  /-- A constant is no value of the domain. -/
  | unmappable (value domain : String) : IsRejection (.unmappable value domain)
  /-- An offset overflows at a key. -/
  | overflow (term domain : String) : IsRejection (.unsupported (.overflow term domain))
  /-- A constant has an adjustment. -/
  | adjustedLiteral (term : String) : IsRejection (.unsupported (.adjustedLiteral term))
  /-- An offset cannot be negated. -/
  | offsetOverflow (amount : Int64) : IsRejection (.unsupported (.offsetOverflow amount))
  /-- Items are compared with each other. -/
  | itemConstants (constraint : String) : IsRejection (.unsupported (.itemConstants constraint))

/-! ### Relations -/

/-- The offset of a term without counters fails only where it cannot be negated. -/
theorem isRejection_of_offset {t : Term} {e : SolveError}
    (hcounter : (t.adjustment.map Adjustment.amount).bind Index.counter? = none)
    (h : t.offset = .error e) : e.IsRejection := by
  unfold Term.offset at h
  rcases t with ⟨operand, _ | ⟨sign, amount⟩⟩
  · cases h
  · cases amount with
    | counter name => cases hcounter
    | literal k =>
      cases sign with
      | plus => cases h
      | minus =>
        simp only [Adjustment.offset] at h
        split at h <;> cases h
        exact .offsetOverflow k

theorem isRejection_of_literalKey {d : Domain} {l : Literal} {e : SolveError}
    (h : d.literalKey l = .error e) : e.IsRejection := by
  unfold Domain.literalKey at h
  split at h <;> cases h
  exact .unmappable _ _

theorem isRejection_of_constantKey {c : ConstraintExpr} {l : Literal} {e : SolveError}
    (h : constantKey c l = .error e) : e.IsRejection := by
  cases l <;> cases h
  exact .itemConstants _

namespace Network

variable {m : Model} {net : Network}

/-- A side that can be resolved is refused only for its offset or as an adjusted constant. -/
theorem isRejection_of_side {t : Term} {e : SolveError}
    (hresolve : ∀ r, t.reference? = some r → ∃ found, net.resolve r = .ok found)
    (hcounter : (t.adjustment.map Adjustment.amount).bind Index.counter? = none)
    (h : net.side t = .error e) : e.IsRejection := by
  unfold side at h
  split at h
  · next r hr =>
    -- the unknown is found, so its offset or the sum with its keys is to blame
    obtain ⟨⟨n, u⟩, hfound⟩ := hresolve r (by rw [Term.reference?, hr])
    rw [hfound, bind_eq_error_iff] at h
    rcases h with h | ⟨found, -, h⟩
    · cases h
    rw [bind_eq_error_iff] at h
    rcases h with h | ⟨offset, -, h⟩
    · exact isRejection_of_offset hcounter h
    · dsimp only at h
      split at h <;> cases h
      exact .overflow _ _
  · split at h <;> cases h
    exact .adjustedLiteral _

/-- A relation whose references can be resolved, and that has no counters, is only rejected. -/
theorem isRejection_of_addRelation {name : String} {c : ConstraintExpr} {e : SolveError}
    (hresolve : ∀ r ∈ c.references, ∃ found, net.resolve r = .ok found)
    (hcounter : c.counterUses = []) (h : addRelation name net c = .error e) : e.IsRejection := by
  simp only [ConstraintExpr.counterUses, Term.counterUses, List.append_eq_nil_iff,
    Option.toList_eq_nil_iff] at hcounter
  simp only [ConstraintExpr.references, List.mem_append, Option.mem_toList] at hresolve
  rw [addRelation, bind_eq_error_iff] at h
  rcases h with h | ⟨effect, -, h⟩
  swap
  · cases h
  rw [effectOf, bind_eq_error_iff] at h
  rcases h with h | ⟨left, -, h⟩
  · exact isRejection_of_side (fun r hr => hresolve r (.inl hr)) hcounter.1.2 h
  rw [bind_eq_error_iff] at h
  rcases h with h | ⟨right, -, h⟩
  · exact isRejection_of_side (fun r hr => hresolve r (.inr hr)) hcounter.2.2 h
  -- both sides are resolved, so only a constant is left to fail
  rcases left with ⟨a, offsetA, dA⟩ | l <;> rcases right with ⟨b, offsetB, dB⟩ | r <;>
    dsimp only at h
  · split at h <;> cases h
  · rw [bind_eq_error_iff] at h
    rcases h with h | ⟨constant, -, h⟩
    · exact isRejection_of_literalKey h
    · cases h
  · rw [bind_eq_error_iff] at h
    rcases h with h | ⟨constant, -, h⟩
    · exact isRejection_of_literalKey h
    · cases h
  · rw [bind_eq_error_iff] at h
    rcases h with h | ⟨x, -, h⟩
    · exact isRejection_of_constantKey h
    rw [bind_eq_error_iff] at h
    rcases h with h | ⟨y, -, h⟩
    · exact isRejection_of_constantKey h
    · cases h

/-- A key that the model gives to an unknown leads to one in its network. -/
theorem resolve_of_number (hnet : net.Sound) (hdir : net.directory = m.directory) {r : Reference}
    {key : UnknownKey} {n : Nat} (hkey : r.key = .ok key)
    (hn : m.directory.number? key = some n) : ∃ found, net.resolve r = .ok found := by
  rw [← hdir] at hn
  have hlookup : net.lookup key = some n := hn
  obtain ⟨u, hu, -⟩ := hnet.lookup_key hlookup
  refine ⟨(n, u), ?_⟩
  simp [resolve, hkey, hlookup, hu, bind, Except.bind]

/-- The elements of an aggregate of the model are found. -/
theorem exists_elementNumbers (hdir : net.directory = m.directory) {a : Aggregate}
    (ha : a ∈ m.aggregates) (target : String) :
    ∃ elements, net.elementNumbers target a = .ok elements := by
  have hfound : ∀ i ∈ List.range' 1 a.size, ∃ n, net.lookup (.element a.name i) = some n := by
    intro i hi
    obtain ⟨hone, hlt⟩ := List.mem_range'_1.1 hi
    obtain ⟨n, hn⟩ := Model.exists_number_element ha hone (by omega)
    rw [← hdir] at hn
    exact ⟨n, hn⟩
  refine ⟨(List.range' 1 a.size).map fun i =>
    (i, (net.lookup (.element a.name i)).getD 0), mapM_eq_ok fun i hi => ?_⟩
  obtain ⟨n, hn⟩ := hfound i hi
  rw [hn]
  rfl

/-- A reference in a relation without counters has no counter as its subscript. -/
theorem counter?_of_counterUses {c : ConstraintExpr} (hcounter : c.counterUses = [])
    {r : Reference} (hr : r ∈ c.references) : r.index?.bind Index.counter? = none := by
  simp only [ConstraintExpr.counterUses, Term.counterUses, List.append_eq_nil_iff,
    Option.toList_eq_nil_iff] at hcounter
  obtain ⟨⟨hleft, -⟩, hright, -⟩ := hcounter
  simp only [ConstraintExpr.references, List.mem_append, Option.mem_toList] at hr
  rcases hr with hr | hr
  · simpa [hr] using hleft
  · simpa [hr] using hright

/-- A constraint without findings is only rejected. -/
theorem isRejection_of_addModelConstraint (hm : m.NoFindings) (hnet : net.Sound)
    (hdir : net.directory = m.directory) {c : ModelConstraint} (hc : m.constraintFindings c = [])
    {e : SolveError} (h : addModelConstraint m net c = .error e) : e.IsRejection := by
  cases c with
  | expression name text =>
    unfold Model.constraintFindings at hc
    dsimp only at hc
    cases hexpand : Template.expandText text with
    | error error => simp [hexpand] at hc
    | ok trees =>
      simp only [hexpand, List.flatMap_eq_nil_iff] at hc
      have hrelations : relationsOf text = .ok trees := by
        rw [relationsOf, hexpand]
        rfl
      rw [addModelConstraint, hrelations] at h
      -- the relations are added one after the other, to networks with the same directory
      refine foldlM_error (P := fun net => net.Sound ∧ net.directory = m.directory)
        ?_ ?_ ⟨hnet, hdir⟩ h
      · rintro net₁ tree htree ⟨hnet₁, hdir₁⟩ e₁ h₁
        have hcounter := Template.counterUses_of_expandText hexpand htree
        refine isRejection_of_addRelation ?_ hcounter h₁
        intro r hr
        obtain ⟨key, n, hkey, hn⟩ :=
          hm.exists_number (hc tree htree r hr) (counter?_of_counterUses hcounter hr)
        exact resolve_of_number hnet₁ hdir₁ hkey hn
      · rintro net₁ tree net₂ ⟨hnet₁, hdir₁⟩ h₁
        have hrefines := refines_addRelation hnet₁ h₁
        exact ⟨hrefines.sound, hrefines.directory_eq.trans hdir₁⟩
  | allDifferent name text =>
    -- the aggregate and its elements are found, so nothing fails
    exfalso
    obtain ⟨a, hmem, haggregate⟩ := Model.exists_aggregate_of_constraintFindings hc
    obtain ⟨elements, helements⟩ := exists_elementNumbers hdir hmem (allDifferentTarget text)
    rw [addModelConstraint, addAllDifferent, haggregate] at h
    dsimp only at h
    rw [helements] at h
    cases h

end Network

namespace Model

variable {m : Model} {net : Network}

/-! ### Whole solves -/

/-- All unknowns of a model are declared if its bundles exist and its domain texts evaluate. -/
theorem exists_declareAll
    (hbundles : ∀ bucket ∈ m.buckets, ∃ bundle, m.bundle? bucket.bundle = some bundle)
    (hdomains : ∀ d ∈ m.declarations,
      ∃ domain, Resolver.evaluate m.context (Text.trim d.domain) = .ok domain) :
    ∃ b, Builder.declareAll m = .ok b := by
  rw [Builder.declareAll_eq hbundles]
  -- the resolver remembers texts, but what it knows is what they evaluate to in the model
  refine exists_foldlM_eq_ok
    (P := fun b => b.resolver.Faithful ∧ b.resolver.context = m.context)
    ?_ ?_ ⟨Resolver.faithful_new m.context, rfl⟩
  · rintro b d hd ⟨-, hcontext⟩
    obtain ⟨domain, hdomain⟩ := hdomains d hd
    rw [← hcontext] at hdomain
    obtain ⟨result, hresult⟩ := Resolver.exists_resolve_eq_ok hdomain
    rw [Builder.declare, hresult]
    exact ⟨_, rfl⟩
  · rintro b d b' ⟨hfaithful, hcontext⟩ hb'
    rw [Builder.declare, bind_eq_ok_iff] at hb'
    obtain ⟨⟨domain, resolver⟩, hresolve, hb'⟩ := hb'
    cases hb'
    obtain ⟨-, hfaithful', hsame⟩ := Resolver.resolve_eq_ok hfaithful hresolve
    exact ⟨hfaithful', hsame.trans hcontext⟩

theorem NoFindings.exists_declareAll (h : m.NoFindings) : ∃ b, Builder.declareAll m = .ok b :=
  Model.exists_declareAll (fun _ => h.exists_bundle) fun _ => h.exists_evaluate

/-- The construction for a model without findings ends with nothing but a rejection. -/
theorem NoFindings.isRejection_of_build (h : m.NoFindings) {e : SolveError}
    (hbuild : Network.build m = .error e) : e.IsRejection := by
  obtain ⟨b, hb⟩ := h.exists_declareAll
  obtain ⟨hsound, hdir, -⟩ := declareAll_eq_ok hb
  rw [Network.build, hb] at hbuild
  refine foldlM_error (P := fun net => net.Sound ∧ net.directory = m.directory)
    ?_ ?_ ⟨hsound, hdir⟩ hbuild
  · rintro net c hc ⟨hnet, hdir⟩ e' he'
    exact Network.isRejection_of_addModelConstraint h hnet hdir (h.constraints c hc) he'
  · rintro net c net' ⟨hnet, hdir⟩ hnet'
    have hrefines := Network.refines_addModelConstraint hnet hnet'
    exact ⟨hrefines.sound, hrefines.directory_eq.trans hdir⟩

/-- What a search through the network of a valid model finds is read back. -/
theorem exists_extract (hvalid : m.validate.isValid = true) (hbuild : Network.build m = .ok net)
    {a : Assignment} {statistics : Statistics}
    (hsearch : Search.search net none = .ok (some a, statistics)) :
    ∃ snapshot, Snapshot.extract net a = .ok snapshot := by
  obtain ⟨found, statistics', hsearch', hfound⟩ := Network.search_build_findsLeast hbuild
  rw [hsearch'] at hsearch
  cases hsearch
  obtain ⟨v, ha, hv⟩ := hfound
  exact ⟨_, extract_eq_decode hvalid hbuild hv.1 ha⟩

/-- A valid model is given up only because one of its relations cannot be expressed: this is the
only way in which the construction of its network fails, and in which an unlimited solve does. What
an unlimited search through its network finds is always read back. -/
theorem solve_rejects_only (hvalid : m.validate.isValid = true) :
    (∀ e, Network.build m = .error e → e.IsRejection) ∧
    (∀ net a statistics, Network.build m = .ok net →
      Search.search net none = .ok (some a, statistics) →
        ∃ snapshot, Snapshot.extract net a = .ok snapshot) ∧
    (∀ e, m.solve none = .error e → e.IsRejection) := by
  have hnoFindings := noFindings_of_isValid hvalid
  refine ⟨fun e => hnoFindings.isRejection_of_build,
    fun net a statistics hbuild hsearch => exists_extract hvalid hbuild hsearch, ?_⟩
  intro e hsolve
  simp only [solve, hvalid, Bool.not_true, Bool.false_eq_true, if_false] at hsolve
  split at hsolve
  · cases hsolve
  rw [bind_eq_error_iff] at hsolve
  rcases hsolve with hbuild | ⟨net, hbuild, hsolve⟩
  · exact hnoFindings.isRejection_of_build hbuild
  -- the search ends, and its result can be read back
  exfalso
  obtain ⟨found, statistics, hsearch, -⟩ := Network.search_build_findsLeast hbuild
  rw [hsearch] at hsolve
  rcases found with _ | a
  · cases hsolve
  · obtain ⟨snapshot, hsnapshot⟩ := exists_extract hvalid hbuild hsearch
    simp [Network.conclude, hsnapshot, bind, Except.bind, pure, Except.pure] at hsolve

/-- A number of the word and its successor, which the last number does not have. -/
def successorModel : Model where
  name := "successor"
  vars := [.singleton ⟨"x", "$top"⟩, .singleton ⟨"y", " 1..3 "⟩]
  sharedDomains := [⟨"top", "9223372036854775806..9223372036854775807"⟩]
  bundles := []
  tables := []
  constraints := [.expression "next" "x + i = y | i in 1"]

/-- `successorModel` is valid, and its solve is given up with the rejection of the offset. -/
theorem solve_rejects_only_successorModel :
    successorModel.validate.isValid = true ∧
      successorModel.solve none =
        .error (.unsupported (.overflow "x + 1" "9223372036854775806..9223372036854775807")) ∧
      SolveError.IsRejection
        (.unsupported (.overflow "x + 1" "9223372036854775806..9223372036854775807")) := by
  have hvalid : successorModel.validate.isValid = true := by decide +kernel
  have hvars : successorModel.isEmpty = false := rfl
  have hcause : (match Network.build successorModel with
      | .error e => some e
      | .ok _ => none) =
        some (.unsupported (.overflow "x + 1" "9223372036854775806..9223372036854775807")) := by
    decide +kernel
  split at hcause
  case h_2 => cases hcause
  case h_1 e hbuild =>
    have hsolve : successorModel.solve none = .error e := by
      simp [solve, hvalid, hvars, hbuild, bind, Except.bind]
    rw [Option.some.inj hcause] at hsolve
    exact ⟨hvalid, hsolve, (solve_rejects_only hvalid).2.2 _ hsolve⟩

end Model

end FiniteDomain
