import FiniteDomain.Model.Validation
import FiniteDomain.Proofs.Expression.DomainWord
import FiniteDomain.Proofs.Network.Declaration

/-!
# What validity ensures

Validation and construction walk over a model in different ways. Validation reads domain texts as
they stand, looks at each shared domain once, and finds variables by name; construction trims the
texts, resolves shared domains wherever they are used, and finds unknowns by key. What the one has
found no fault with, the other can resolve: every domain text evaluates, every bundle exists, and
every reference without counters addresses an unknown.

## Main definitions

* `Model.NoFindings`: there is nothing to report, declaration by declaration.

## Main results

* `Model.noFindings_of_isValid`: valid models are such models.
* `Model.NoFindings.exists_evaluate`: the domain text of each declaration evaluates.
* `Model.NoFindings.exists_number`: each reference without counters addresses an unknown.
-/

namespace FiniteDomain

/-- A shared domain evaluates to what its expression does, unless that is a shared domain again. -/
theorem Domain.evaluate_shared {context : Context} {name text : String} {tree : DomainExpr}
    (hshared : context.sharedDomain name = some text) (hparse : DomainExpr.parse text = .ok tree)
    (htree : ∀ other, tree ≠ .shared other) :
    Domain.evaluate context (.shared name) = Domain.evaluate context tree := by
  show evaluateShared context name = _
  rw [evaluateShared, hshared]
  dsimp only
  rw [hparse]
  cases tree with
  | shared other => exact absurd rfl (htree other)
  | range low high | list items | table slice => rfl

namespace Model

variable {m : Model}

/-- A model is valid exactly when there is no finding on it. -/
theorem isValid_iff : m.validate.isValid = true ↔ m.findings = [] := by
  rw [validate, Report.isValid, List.isEmpty_iff]
  constructor
  · intro h
    by_contra hne
    obtain ⟨f, fs, hcons⟩ := List.exists_cons_of_ne_nil hne
    rw [hcons, List.eraseDups_cons] at h
    cases h
  · intro h
    rw [h, List.eraseDups_nil]

/-- There is nothing to report on any declaration of the model. -/
structure NoFindings (m : Model) : Prop where
  /-- The variables have different names. -/
  names : (m.vars.map Variable.name).Nodup
  /-- Nothing is wrong with a shared domain. -/
  sharedDomains : ∀ d ∈ m.sharedDomains, m.sharedDomainFindings d = []
  /-- Nor with a variable. -/
  vars : ∀ v ∈ m.vars, m.variableFindings v = []
  /-- Nor with a bundle. -/
  bundles : ∀ b ∈ m.bundles, m.bundleFindings b = []
  /-- Nor with a constraint. -/
  constraints : ∀ c ∈ m.constraints, m.constraintFindings c = []

/-- A valid model has nothing to report about any of its parts. -/
theorem noFindings_of_isValid (h : m.validate.isValid = true) : m.NoFindings := by
  rw [isValid_iff] at h
  simp only [findings, nameFindings, List.append_eq_nil_iff, List.map_eq_nil_iff,
    List.flatMap_eq_nil_iff] at h
  obtain ⟨⟨⟨⟨⟨⟨hnames, -⟩, -⟩, hshared⟩, hvars⟩, hbundles⟩, hconstraints⟩ := h
  exact ⟨(repetitions_eq_nil_iff _).1 hnames, hshared, hvars, hbundles, hconstraints⟩

/-! ### Domains -/

/-- A domain that was read has no finding exactly when it evaluates. -/
theorem evaluationFindings_eq_nil_iff {subject : String} {tree : DomainExpr} :
    m.evaluationFindings subject tree = [] ↔ ∃ d, Domain.evaluate m.context tree = .ok d := by
  unfold evaluationFindings
  cases Domain.evaluate m.context tree <;> simp

/-- The domain of a shared domain without findings. -/
theorem NoFindings.exists_evaluate_shared (h : m.NoFindings) {name : String}
    (hname : (m.sharedDomain? name).isSome = true) :
    ∃ d, Domain.evaluate m.context (.shared name) = .ok d := by
  obtain ⟨shared, hshared⟩ := Option.isSome_iff_exists.1 hname
  have hfindings := h.sharedDomains shared (List.mem_of_find?_eq_some hshared)
  have hcontext : m.context.sharedDomain name = some shared.expression := by
    show (m.sharedDomain? name).map SharedDomain.expression = _
    rw [hshared]
    rfl
  -- a reference to a shared domain has been reported, so the expression evaluates by itself
  unfold sharedDomainFindings at hfindings
  split at hfindings
  · cases hfindings
  · cases hfindings
  next tree hne hparse =>
    obtain ⟨d, hd⟩ := evaluationFindings_eq_nil_iff.1 hfindings
    exact ⟨d, by rw [Domain.evaluate_shared hcontext hparse (by simpa using hne), hd]⟩

/-- A text without findings evaluates once it is trimmed. -/
theorem NoFindings.exists_evaluate_text (h : m.NoFindings) {subject text : String}
    (htext : m.domainFindings subject text = []) :
    ∃ d, Resolver.evaluate m.context (Text.trim text) = .ok d := by
  unfold domainFindings at htext
  cases hparse : DomainExpr.parse text with
  | error error => simp [hparse] at htext
  | ok tree =>
    suffices hsuffices : ∃ d, Domain.evaluate m.context tree = .ok d by
      obtain ⟨d, hd⟩ := hsuffices
      exact ⟨d, Resolver.evaluate_eq_ok_iff.2 ⟨tree, DomainExpr.parse_trim hparse, hd⟩⟩
    rw [hparse] at htext
    cases tree with
    | shared name =>
      -- only the name is looked up here; the shared domain itself has been validated once
      refine h.exists_evaluate_shared ?_
      by_contra hnone
      simp [hnone] at htext
    | range low high | list items | table slice => exact evaluationFindings_eq_nil_iff.1 htext

/-- The variables of one kind are those that are made from their declarations. -/
theorem mem_filterMap_kind {α : Type} {kind? : Variable → Option α} {make : α → Variable}
    (hkind : ∀ v x, kind? v = some x ↔ v = make x) {x : α} :
    x ∈ m.vars.filterMap kind? ↔ make x ∈ m.vars := by
  simp [List.mem_filterMap, hkind]

theorem mem_singletons {s : Singleton} : s ∈ m.singletons ↔ .singleton s ∈ m.vars :=
  mem_filterMap_kind fun v _ => by cases v <;> simp

theorem mem_aggregates {a : Aggregate} : a ∈ m.aggregates ↔ .aggregate a ∈ m.vars :=
  mem_filterMap_kind fun v _ => by cases v <;> simp [Variable.aggregate?]

theorem mem_buckets {b : Bucket} : b ∈ m.buckets ↔ .bucket b ∈ m.vars :=
  mem_filterMap_kind fun v _ => by cases v <;> simp [Variable.bucket?]

/-- The bundle of a bucket exists. -/
theorem NoFindings.exists_bundle (h : m.NoFindings) {b : Bucket} (hb : b ∈ m.buckets) :
    ∃ bundle, m.bundle? b.bundle = some bundle := by
  have hfindings := h.vars (.bucket b) (mem_buckets.1 hb)
  rw [← Option.isSome_iff_exists]
  by_contra hnone
  simp [variableFindings, hnone] at hfindings

/-- The domain text of each declaration evaluates once it is trimmed. -/
theorem NoFindings.exists_evaluate (h : m.NoFindings) {d : Declaration}
    (hd : d ∈ m.declarations) :
    ∃ domain, Resolver.evaluate m.context (Text.trim d.domain) = .ok domain := by
  simp only [declarations, List.mem_append, List.mem_map, List.mem_flatMap] at hd
  rcases hd with (⟨s, hs, rfl⟩ | ⟨a, ha, hd⟩) | ⟨b, hb, hd⟩
  · exact h.exists_evaluate_text (h.vars (.singleton s) (mem_singletons.1 hs))
  · have hfindings := h.vars (.aggregate a) (mem_aggregates.1 ha)
    simp only [variableFindings, List.append_eq_nil_iff, List.flatMap_eq_nil_iff] at hfindings
    obtain ⟨hdomain, hoverrides⟩ := hfindings
    obtain ⟨i, hi, rfl⟩ := List.mem_mapIdx.1 hd
    have hoverride := hoverrides a.elements[i] (List.getElem_mem hi)
    -- an element without override has the text of its aggregate
    unfold overrideFindings at hoverride
    dsimp only
    cases htext : a.elements[i].domainOverride with
    | none => exact h.exists_evaluate_text hdomain
    | some text =>
      rw [htext] at hoverride
      exact h.exists_evaluate_text hoverride
  · obtain ⟨bundle, hbundle⟩ := h.exists_bundle hb
    rw [bucketDeclarations, hbundle] at hd
    obtain ⟨copy, -, hd⟩ := List.mem_flatMap.1 hd
    obtain ⟨s, hs, rfl⟩ := List.mem_map.1 hd
    have hfindings := h.bundles bundle (List.mem_of_find?_eq_some hbundle)
    rw [bundleFindings, List.flatMap_eq_nil_iff] at hfindings
    exact h.exists_evaluate_text (hfindings s hs)

/-- The target of an all-different constraint without findings is an aggregate. -/
theorem exists_aggregate_of_constraintFindings {name text : String}
    (h : m.constraintFindings (.allDifferent name text) = []) :
    ∃ a ∈ m.aggregates, m.aggregate? (allDifferentTarget text) = some a := by
  unfold constraintFindings at h
  dsimp only at h
  split at h
  · cases h
  · next a ha =>
    refine ⟨a, mem_aggregates.2 (List.mem_of_find?_eq_some ha), ?_⟩
    rw [aggregate?, ha]
    rfl
  · cases h

/-! ### References -/

/-- A declared key leads to an unknown. -/
theorem exists_number_of_mem {d : Declaration} (hd : d ∈ m.declarations) :
    ∃ n, m.directory.number? d.key = some n := by
  rw [← Option.isSome_iff_exists, directory, List.lookup_isSome_iff]
  obtain ⟨n, hn⟩ := List.mem_iff_getElem?.1 (List.mem_map_of_mem hd)
  exact ⟨(d.key, n), List.mem_reverse.2 (List.mem_zipIdx_iff_getElem?.2 hn), BEq.rfl⟩

/-- The unknown that a key leads to has this key. -/
theorem getElem?_keys_of_number? {key : UnknownKey} {n : Nat}
    (h : m.directory.number? key = some n) : m.directory.keys[n]? = some key := by
  obtain ⟨before, after, hsplit, -⟩ := List.lookup_eq_some_iff.1 h
  have hmem : (key, n) ∈ (m.declarations.map Declaration.key).zipIdx.reverse := by
    rw [hsplit]
    exact List.mem_append_right _ List.mem_cons_self
  exact List.mem_zipIdx_iff_getElem?.1 (List.mem_reverse.1 hmem)

/-- Every singleton has an unknown. -/
theorem exists_number_singleton {s : Singleton} (hs : s ∈ m.singletons) :
    ∃ n, m.directory.number? (.singleton s.name) = some n := by
  refine exists_number_of_mem (d := s.declaration) ?_
  exact List.mem_append_left _ (List.mem_append_left _ (List.mem_map_of_mem hs))

/-- Every element of an aggregate has an unknown, under its index counted from 1. -/
theorem exists_number_element {a : Aggregate} (ha : a ∈ m.aggregates) {i : Nat} (hone : 1 ≤ i)
    (hle : i ≤ a.size) : ∃ n, m.directory.number? (.element a.name i) = some n := by
  have hlt : i - 1 < a.elements.length := by
    rw [Aggregate.size] at hle
    omega
  have hmem : (⟨a.elements[i - 1].name, .element a.name (i - 1 + 1),
      a.elements[i - 1].domainOverride.getD a.domain⟩ : Declaration) ∈ m.declarations := by
    refine List.mem_append_left _ (List.mem_append_right _ (List.mem_flatMap.2 ⟨a, ha, ?_⟩))
    exact List.mem_mapIdx.2 ⟨i - 1, hlt, rfl⟩
  have hnumber := exists_number_of_mem hmem
  rwa [Nat.sub_add_cancel hone] at hnumber

/-- Every field of every copy of a bucket has an unknown. -/
theorem exists_number_field {b : Bucket} (hb : b ∈ m.buckets) {bundle : Bundle}
    (hbundle : m.bundle? b.bundle = some bundle) {s : Singleton} (hs : s ∈ bundle.singletons)
    {i : Nat} (hone : 1 ≤ i) (hle : i ≤ b.size.toNat) :
    ∃ n, m.directory.number? (.field b.name (UInt64.ofNat i) s.name) = some n := by
  have hcopy : UInt64.ofNat i ∈ b.copies := by
    refine List.mem_map.2 ⟨i - 1, List.mem_range.2 (by omega), ?_⟩
    rw [Nat.sub_add_cancel hone]
  obtain ⟨d, hd, hkey⟩ : ∃ d ∈ b.copyDeclarations bundle (UInt64.ofNat i),
      d.key = .field b.name (UInt64.ofNat i) s.name := ⟨_, List.mem_map_of_mem hs, rfl⟩
  rw [← hkey]
  refine exists_number_of_mem (List.mem_append_right _ (List.mem_flatMap.2 ⟨b, hb, ?_⟩))
  rw [bucketDeclarations, hbundle]
  exact List.mem_flatMap.2 ⟨_, hcopy, hd⟩

/-- A subscript without findings lies between 1 and the size. -/
theorem subscript_of_subscriptFindings {constraint unknown : String} {size : Nat} {i : Int64}
    (h : subscriptFindings constraint unknown (UInt64.ofNat size) (.literal i) = []) :
    1 ≤ i.toInt ∧ i.toInt ≤ size := by
  have hinside : ¬ (i < 1 ∨ (UInt64.ofNat size).toInt64 < i) := by
    intro hout
    rw [subscriptFindings, if_pos hout] at h
    cases h
  -- a size beyond the word is smaller as a word, never larger
  have hle := Domain.toInt_ofNat_le size
  rw [UInt64.toInt64_ofNat', Int64.lt_iff_toInt_lt, Int64.lt_iff_toInt_lt] at hinside
  have hone : (1 : Int64).toInt = 1 := rfl
  omega

/-- The key of an element is that of its subscript, which must not be negative. -/
theorem key_element_eq_ok_iff {name : String} {i : Int64} {key : UnknownKey} :
    (Reference.element name (.literal i)).key = .ok key ↔
      0 ≤ i.toInt ∧ .element name i.toInt.toNat = key := by
  have hneg : i < 0 ↔ i.toInt < 0 := Int64.lt_iff_toInt_lt
  rw [Reference.key, ← Int64.toNat_toInt]
  split
  case isTrue hi =>
    have hi' := hneg.1 hi
    simp only [reduceCtorEq, false_iff]
    omega
  case isFalse hi =>
    have hi' := mt hneg.2 hi
    simp only [Except.ok.injEq]
    exact (and_iff_right (by omega)).symm

/-- The key of a field has its subscript as the number of the copy. -/
theorem key_field_eq_ok_iff {name field : String} {i : Int64} {key : UnknownKey} :
    (Reference.field name (.literal i) field).key = .ok key ↔
      0 ≤ i.toInt ∧ .field name (UInt64.ofNat i.toInt.toNat) field = key := by
  have hneg : i < 0 ↔ i.toInt < 0 := Int64.lt_iff_toInt_lt
  rw [Reference.key]
  split
  case isTrue hi =>
    have hi' := hneg.1 hi
    simp only [reduceCtorEq, false_iff]
    omega
  case isFalse hi =>
    have hi' := mt hneg.2 hi
    have hnonneg : 0 ≤ i := Int64.le_iff_toInt_le.2 (Int.not_lt.1 hi')
    rw [Int64.toNat_toInt, ← Int64.toNat_toUInt64_of_le hnonneg, UInt64.ofNat_toNat]
    simp only [Except.ok.injEq]
    exact (and_iff_right (by omega)).symm

/-- An index that counts from 1 addresses the element with this number. -/
theorem key_element {aggregate : String} {i : Int64} (hone : 1 ≤ i.toInt) :
    (Reference.element aggregate (.literal i)).key = .ok (.element aggregate i.toInt.toNat) :=
  key_element_eq_ok_iff.2 ⟨by omega, rfl⟩

/-- A copy is addressed by its number, counted from 1. -/
theorem key_field {bucket name : String} {i : Int64} (hone : 1 ≤ i.toInt) :
    (Reference.field bucket (.literal i) name).key =
      .ok (.field bucket (UInt64.ofNat i.toInt.toNat) name) :=
  key_field_eq_ok_iff.2 ⟨by omega, rfl⟩

/-- A reference without findings and without counters has a key that leads to an unknown. -/
theorem NoFindings.exists_number (h : m.NoFindings) {constraint : String} {r : Reference}
    (hr : m.referenceFindings constraint r = []) (hcounter : r.index?.bind Index.counter? = none) :
    ∃ key n, r.key = .ok key ∧ m.directory.number? key = some n := by
  unfold referenceFindings at hr
  split at hr
  · cases hr
  next v hv =>
    have hmem := List.mem_of_find?_eq_some hv
    have hname : v.name = r.name := by simpa using List.find?_some hv
    -- a reference has to be of the kind of its variable
    cases r with
    | singleton name =>
      cases v with
      | singleton s =>
        obtain ⟨n, hn⟩ := exists_number_singleton (mem_singletons.2 hmem)
        obtain rfl : s.name = name := hname
        exact ⟨_, n, rfl, hn⟩
      | aggregate | bucket => cases hr
    | element name subscript =>
      cases v with
      | aggregate a =>
        cases subscript with
        | counter counter => cases hcounter
        | literal i =>
          obtain ⟨hone, hle⟩ := subscript_of_subscriptFindings hr
          obtain ⟨n, hn⟩ := exists_number_element (mem_aggregates.2 hmem) (i := i.toInt.toNat)
            (by omega) (by omega)
          obtain rfl : a.name = name := hname
          exact ⟨_, n, key_element hone, hn⟩
      | singleton | bucket => cases hr
    | field name copy field =>
      cases v with
      | bucket b =>
        cases copy with
        | counter counter => cases hcounter
        | literal i =>
          obtain ⟨hsubscript, hfield⟩ := List.append_eq_nil_iff.1 hr
          rw [← UInt64.ofNat_toNat (x := b.size)] at hsubscript
          obtain ⟨hone, hle⟩ := subscript_of_subscriptFindings hsubscript
          have hb := mem_buckets.2 hmem
          obtain ⟨bundle, hbundle⟩ := h.exists_bundle hb
          obtain ⟨s, hs⟩ : ∃ s, bundle.field? field = some s := by
            rw [← Option.isSome_iff_exists]
            by_contra hnone
            simp [fieldFindings, hbundle, hnone] at hfield
          obtain ⟨n, hn⟩ := exists_number_field hb hbundle (List.mem_of_find?_eq_some hs)
            (i := i.toInt.toNat) (by omega) (by omega)
          obtain rfl : b.name = name := hname
          obtain rfl : s.name = field := by simpa using List.find?_some hs
          exact ⟨_, n, key_field hone, hn⟩
      | singleton | aggregate => cases hr

end Model

end FiniteDomain
