import FiniteDomain.Proofs.Network.Addressing
import FiniteDomain.Proofs.Solution.Rejection

/-!
# What references denote

Validation compares a reference with the variable of its name; the network of a model resolves it by
the key that it addresses. Where names are not repeated, the network resolves exactly the references
that denote a declared unknown, and validation finds fault with the others. It also finds fault with
every subscript into a variable whose size is no word: there the size wraps below zero, and no
subscript is inside it.

## Main definitions

* `Model.Denotes`: the reference denotes an unknown that is declared.
* `Model.Oversized`: the reference has a subscript into a variable whose size is no word.

## Main results

* `Model.subscriptFindings_eq_nil_iff`: when a subscript is accepted.
* `Model.referenceFindings_eq_nil_iff`: when a reference is accepted.
* `Network.exists_resolve_iff`: when a reference is resolved.
* `Model.referenceFindings_iff_not_denotes`: the two compared.
-/

namespace FiniteDomain

namespace Model

variable {m : Model}

/-- The reference denotes an unknown that the model declares: a singleton of its name, an element of
an aggregate of its name, or a field of a copy of a bucket of its name. -/
def Denotes (m : Model) : Reference → Prop
  | .singleton name => ∃ s, .singleton s ∈ m.vars ∧ s.name = name
  | .element name (.literal i) =>
    ∃ a, .aggregate a ∈ m.vars ∧ a.name = name ∧ 1 ≤ i.toInt ∧ i.toInt ≤ a.size
  | .field name (.literal i) field =>
    ∃ b, .bucket b ∈ m.vars ∧ b.name = name ∧ (1 ≤ i.toInt ∧ i.toInt ≤ b.size.toNat) ∧
      ∃ bundle ∈ m.bundles, bundle.name = b.bundle ∧ ∃ s ∈ bundle.singletons, s.name = field
  | .element _ (.counter _) => False
  | .field _ (.counter _) _ => False

/-- The reference has a subscript into a variable with more elements or copies than the greatest
word. -/
def Oversized (m : Model) : Reference → Prop
  | .singleton _ => False
  | .element name _ => ∃ a, .aggregate a ∈ m.vars ∧ a.name = name ∧ Int64.maxValue.toInt < a.size
  | .field name _ _ => ∃ b, .bucket b ∈ m.vars ∧ b.name = name ∧ Int64.maxValue.toInt < b.size.toNat

/-! ### Looking up by name -/

/-- Where no name is repeated, the first item of a name is the only one. -/
theorem find?_name_eq_some_iff {α : Type} {name : α → String} {xs : List α}
    (hnodup : (xs.map name).Nodup) {n : String} {x : α} :
    (xs.find? fun y => name y == n) = some x ↔ x ∈ xs ∧ name x = n := by
  constructor
  · intro h
    exact ⟨List.mem_of_find?_eq_some h, by simpa using List.find?_some h⟩
  · rintro ⟨hx, rfl⟩
    cases hfind : xs.find? fun y => name y == name x with
    | none => exact absurd BEq.rfl (List.find?_eq_none.1 hfind x hx)
    | some y =>
      have hname : name y = name x := by simpa using List.find?_some hfind
      rw [List.inj_on_of_nodup_map hnodup (List.mem_of_find?_eq_some hfind) hx hname]

section Kind

variable {α : Type} (kind : α → Variable) (hvars : (m.vars.map Variable.name).Nodup) {name : String}
  {P Q : α → Prop}
include hvars

/-- Where no name is repeated, a variable of a name and a kind is the one found by the name. -/
theorem exists_kind_iff :
    (∃ x, kind x ∈ m.vars ∧ (kind x).name = name ∧ P x) ↔
      ∃ x, m.variableNamed? name = some (kind x) ∧ P x := by
  simp only [variableNamed?, find?_name_eq_some_iff hvars, and_assoc]

/-- So if one such variable has a property and none has another, they are about the same variable.
-/
theorem exists_kind_and_not_iff (hkind : Function.Injective kind) :
    (∃ x, kind x ∈ m.vars ∧ (kind x).name = name ∧ P x) ∧
        ¬ (∃ x, kind x ∈ m.vars ∧ (kind x).name = name ∧ Q x) ↔
      ∃ x, m.variableNamed? name = some (kind x) ∧ P x ∧ ¬ Q x := by
  rw [exists_kind_iff kind hvars, exists_kind_iff kind hvars]
  constructor
  · rintro ⟨⟨x, hx, hP⟩, hQ⟩
    exact ⟨x, hx, hP, fun h => hQ ⟨x, hx, h⟩⟩
  · rintro ⟨x, hx, hP, hQ⟩
    refine ⟨⟨x, hx, hP⟩, ?_⟩
    rintro ⟨y, hy, h⟩
    rw [hkind (Option.some.inj (hy.symm.trans hx))] at h
    exact hQ h

end Kind

/-! ### Findings -/

/-- A subscript is accepted exactly when it lies between 1 and the size, and the size is a word. -/
theorem subscriptFindings_eq_nil_iff {constraint unknown : String} {size : Nat}
    (hsize : size < UInt64.size) {i : Int64} :
    subscriptFindings constraint unknown (UInt64.ofNat size) (.literal i) = [] ↔
      (1 ≤ i.toInt ∧ i.toInt ≤ size) ∧ ¬ Int64.maxValue.toInt < size := by
  -- the subscript is compared with the size as a signed word
  have hfindings : subscriptFindings constraint unknown (UInt64.ofNat size) (.literal i) = [] ↔
      1 ≤ i.toInt ∧ i.toInt ≤ (Int64.ofNat size).toInt := by
    have hone : (1 : Int64).toInt = 1 := rfl
    simp only [subscriptFindings, UInt64.toInt64_ofNat', Int64.lt_iff_toInt_lt, hone]
    split
    case isTrue hout => simp only [List.cons_ne_nil, false_iff]; omega
    case isFalse hin => simp only [true_iff]; omega
  have hmax : Int64.maxValue.toInt = 9223372036854775807 := rfl
  have hwords : UInt64.size = 18446744073709551616 := rfl
  rw [hfindings, hmax]
  by_cases hword : size < 9223372036854775808
  · rw [Int64.toInt_ofNat_of_lt hword]
    omega
  · -- the size wraps below zero
    have hwrap : (Int64.ofNat size).toInt < 0 := by
      have hword64 : (Int64.size : Int) = 18446744073709551616 := rfl
      rw [Int64.toInt_ofNat', Int.bmod_def, hword64]
      split <;> omega
    omega

/-- The fields of a bucket are those of the bundle that it names. -/
theorem mem_fieldNames_iff (hbundles : (m.bundles.map Bundle.name).Nodup) {b : Bucket}
    {field : String} :
    field ∈ m.fieldNames b ↔
      ∃ bundle ∈ m.bundles, bundle.name = b.bundle ∧ ∃ s ∈ bundle.singletons, s.name = field := by
  have hfind {bundle : Bundle} : m.bundle? b.bundle = some bundle ↔
      bundle ∈ m.bundles ∧ bundle.name = b.bundle := find?_name_eq_some_iff hbundles
  unfold fieldNames
  cases hbundle : m.bundle? b.bundle with
  | none =>
    simp only [List.not_mem_nil, false_iff]
    rintro ⟨bundle, hmem, hname, -⟩
    rw [hfind.2 ⟨hmem, hname⟩] at hbundle
    cases hbundle
  | some bundle =>
    obtain ⟨hmem, hname⟩ := hfind.1 hbundle
    simp only [List.mem_map]
    constructor
    · exact fun h => ⟨bundle, hmem, hname, h⟩
    · rintro ⟨other, hother, hsame, h⟩
      rwa [List.inj_on_of_nodup_map hbundles hother hmem (hsame.trans hname.symm)] at h

/-- A field is accepted exactly when the bundle of its bucket has it. -/
theorem fieldFindings_eq_nil_iff {constraint field : String} {b : Bucket}
    (hbundle : (m.bundle? b.bundle).isSome = true) :
    m.fieldFindings constraint b field = [] ↔ field ∈ m.fieldNames b := by
  obtain ⟨bundle, hfind⟩ := Option.isSome_iff_exists.1 hbundle
  simp [fieldFindings, fieldNames, hfind, Bundle.field?]

variable {constraint name field : String} {i : Int64}

/-- A singleton is accepted exactly when the variable of its name is one. -/
theorem referenceFindings_singleton :
    m.referenceFindings constraint (.singleton name) = [] ↔
      ∃ s, m.variableNamed? name = some (.singleton s) := by
  unfold referenceFindings
  rcases hv : m.variableNamed? name with _ | (s | a | b) <;> simp [Reference.name, hv]

/-- An element is accepted exactly when the variable of its name is an aggregate and its subscript
is. -/
theorem referenceFindings_element {subscript : Index} :
    m.referenceFindings constraint (.element name subscript) = [] ↔
      ∃ a, m.variableNamed? name = some (.aggregate a) ∧
        subscriptFindings constraint name (UInt64.ofNat a.size) subscript = [] := by
  unfold referenceFindings
  rcases hv : m.variableNamed? name with _ | (s | a | b) <;> simp [Reference.name, hv]

/-- A field is accepted exactly when the variable of its name is a bucket, and its subscript and the
name of the field are. -/
theorem referenceFindings_field {subscript : Index} :
    m.referenceFindings constraint (.field name subscript field) = [] ↔
      ∃ b, m.variableNamed? name = some (.bucket b) ∧
        subscriptFindings constraint name b.size subscript = [] ∧
          m.fieldFindings constraint b field = [] := by
  unfold referenceFindings
  rcases hv : m.variableNamed? name with _ | (s | a | b) <;> simp [Reference.name, hv]

/-- Where no name is repeated and bundles exist, a reference is accepted exactly when it denotes an
unknown and has no subscript into a variable whose size is no word. -/
theorem referenceFindings_eq_nil_iff (hvars : (m.vars.map Variable.name).Nodup)
    (hbundles : (m.bundles.map Bundle.name).Nodup)
    (hsizes : ∀ a, .aggregate a ∈ m.vars → a.size < UInt64.size) {r : Reference}
    (hcounter : r.index?.bind Index.counter? = none)
    (hbundle : ∀ name i field, r = .field name i field → ∀ b, .bucket b ∈ m.vars → b.name = name →
      ∃ bundle ∈ m.bundles, bundle.name = b.bundle) :
    m.referenceFindings constraint r = [] ↔ m.Denotes r ∧ ¬ m.Oversized r := by
  cases r with
  | singleton name =>
    have hdenotes : m.Denotes (.singleton name) ↔
        ∃ s, m.variableNamed? name = some (.singleton s) := by
      -- a name is that of one variable, so the kind of the first one decides
      have hkind : (∃ s, .singleton s ∈ m.vars ∧ (Variable.singleton s).name = name ∧ True) ↔
          ∃ s, m.variableNamed? name = some (.singleton s) ∧ True := exists_kind_iff _ hvars
      simpa [Denotes, Variable.name] using hkind
    rw [referenceFindings_singleton, hdenotes, Oversized, not_false_eq_true, and_true]
  | element name subscript =>
    cases subscript with
    | counter counter => cases hcounter
    | literal i =>
      refine referenceFindings_element.trans (Iff.trans ?_
        (exists_kind_and_not_iff .aggregate hvars fun _ _ => Variable.aggregate.inj).symm)
      refine exists_congr fun a => and_congr_right fun hfind => ?_
      exact subscriptFindings_eq_nil_iff (hsizes a (List.mem_of_find?_eq_some hfind))
  | field name copy field =>
    cases copy with
    | counter counter => cases hcounter
    | literal i =>
      refine referenceFindings_field.trans (Iff.trans ?_
        (exists_kind_and_not_iff .bucket hvars fun _ _ => Variable.bucket.inj).symm)
      refine exists_congr fun b => and_congr_right fun hfind => ?_
      obtain ⟨hmem, hname⟩ := (find?_name_eq_some_iff hvars).1 hfind
      obtain ⟨bundle, hbundle⟩ := hbundle name _ field rfl b hmem hname
      -- the bundle exists, so only the subscript and the field can be at fault
      have hexists : m.bundle? b.bundle = some bundle := (find?_name_eq_some_iff hbundles).2 hbundle
      rw [fieldFindings_eq_nil_iff (by rw [hexists]; rfl), mem_fieldNames_iff hbundles,
        ← UInt64.ofNat_toNat (x := b.size), subscriptFindings_eq_nil_iff b.size.toNat_lt_size,
        UInt64.ofNat_toNat, and_right_comm]

/-! ### Resolving -/

/-- A key leads to an unknown exactly when the model declares it. -/
theorem exists_number?_iff {key : UnknownKey} :
    (∃ n, m.directory.number? key = some n) ↔ key ∈ m.directory.keys := by
  constructor
  · rintro ⟨n, hn⟩
    exact List.mem_of_getElem? (getElem?_keys_of_number? hn)
  · intro hkey
    obtain ⟨d, hd, rfl⟩ := List.mem_map.1 hkey
    exact exists_number_of_mem hd

theorem mem_keys_singleton :
    .singleton name ∈ m.directory.keys ↔ ∃ s ∈ m.singletons, s.name = name := by
  simp [keys_directory, mem_singletonKeys, mem_elementKeys, mem_fieldKeys, eq_comm]

/-- The copies of a bucket are numbered from 1 to its size. -/
theorem mem_copies {b : Bucket} {copy : UInt64} :
    copy ∈ b.copies ↔ 1 ≤ copy.toNat ∧ copy.toNat ≤ b.size.toNat := by
  have hsize := b.size.toNat_lt_size
  simp only [Bucket.copies, List.mem_map, List.mem_range]
  constructor
  · rintro ⟨i, hi, rfl⟩
    rw [UInt64.toNat_ofNat_of_lt' (by omega)]
    omega
  · rintro ⟨hone, hle⟩
    refine ⟨copy.toNat - 1, by omega, ?_⟩
    rw [Nat.sub_add_cancel hone, UInt64.ofNat_toNat]

/-- A reference denotes an unknown exactly when it has a key and the model declares the key. -/
theorem denotes_iff_mem_keys (hbundles : (m.bundles.map Bundle.name).Nodup) (r : Reference) :
    m.Denotes r ↔ ∃ key, r.key = .ok key ∧ key ∈ m.directory.keys := by
  cases r with
  | singleton name => simp [Reference.key, Denotes, mem_keys_singleton, mem_singletons]
  | element name subscript =>
    cases subscript with
    | counter counter => simp [Reference.key, Denotes]
    | literal i =>
      simp only [key_element_eq_ok_iff, and_assoc, exists_and_left, exists_eq_left', Denotes,
        mem_keys_element, mem_aggregates]
      constructor
      · rintro ⟨a, ha, hname, hone, hle⟩
        exact ⟨by omega, a, ha, hname, by omega, by omega⟩
      · rintro ⟨hnonneg, a, ha, hname, hone, hle⟩
        exact ⟨a, ha, hname, by omega, by omega⟩
  | field name subscript field =>
    cases subscript with
    | counter counter => simp [Reference.key, Denotes]
    | literal i =>
      -- an index that is not negative fits the word of a copy
      have hword : (UInt64.ofNat i.toInt.toNat).toNat = i.toInt.toNat := by
        have hlt := i.toInt_lt
        have hwords : UInt64.size = 18446744073709551616 := rfl
        rw [UInt64.toNat_ofNat_of_lt' (by omega)]
      simp only [key_field_eq_ok_iff, and_assoc, exists_and_left, exists_eq_left', Denotes,
        mem_keys_field, mem_buckets, mem_copies, hword, mem_fieldNames_iff hbundles]
      constructor
      · rintro ⟨b, hb, hname, hone, hle, hfield⟩
        exact ⟨by omega, b, hb, hname, by omega, by omega, hfield⟩
      · rintro ⟨hnonneg, b, hb, hname, hone, hle, hfield⟩
        exact ⟨b, hb, hname, by omega, by omega, hfield⟩

end Model

namespace Network

/-- In the network of a model a reference is resolved exactly when it denotes an unknown. -/
theorem exists_resolve_iff {m : Model} {net : Network}
    (hbundles : (m.bundles.map Bundle.name).Nodup) (h : build m = .ok net) (r : Reference) :
    (∃ found, net.resolve r = .ok found) ↔ m.Denotes r := by
  obtain ⟨hsound, hdir, -⟩ := build_eq_ok h
  rw [Model.denotes_iff_mem_keys hbundles]
  constructor
  · rintro ⟨⟨n, u⟩, hfound⟩
    obtain ⟨key, hkey, hlookup, -⟩ := resolve_eq_ok hfound
    have hn : net.directory.number? key = some n := hlookup
    rw [hdir] at hn
    exact ⟨key, hkey, Model.exists_number?_iff.1 ⟨n, hn⟩⟩
  · rintro ⟨key, hkey, hmem⟩
    obtain ⟨n, hn⟩ := Model.exists_number?_iff.2 hmem
    exact resolve_of_number hsound hdir hkey hn

end Network

namespace Model

/-- Validation and the network agree on references. For a model in which no variable and no bundle
has a repeated name, and a reference in an expansion that is not into a bucket without a bundle:
there is a finding on the reference exactly when it denotes no declared unknown or its subscript is
into a variable whose size is no word, and the network resolves it exactly when it denotes one. -/
theorem referenceFindings_iff_not_denotes {m : Model} (hvars : (m.vars.map Variable.name).Nodup)
    (hbundles : (m.bundles.map Bundle.name).Nodup)
    (hsizes : ∀ a, .aggregate a ∈ m.vars → a.size < UInt64.size) {text : String}
    {trees : List ConstraintExpr} (htrees : Template.expandText text = .ok trees)
    {tree : ConstraintExpr} (htree : tree ∈ trees) {r : Reference} (hr : r ∈ tree.references)
    (hbundle : ∀ name i field, r = .field name i field → ∀ b, .bucket b ∈ m.vars → b.name = name →
      ∃ bundle ∈ m.bundles, bundle.name = b.bundle) (constraint : String) :
    (m.referenceFindings constraint r ≠ [] ↔ ¬ m.Denotes r ∨ m.Oversized r) ∧
      ∀ net, Network.build m = .ok net →
        ((∃ found, net.resolve r = .ok found) ↔ m.Denotes r) := by
  have hcounter : r.index?.bind Index.counter? = none :=
    Network.counter?_of_counterUses (Template.counterUses_of_expandText htrees htree) hr
  refine ⟨?_, fun net hnet => Network.exists_resolve_iff hbundles hnet r⟩
  rw [Ne, referenceFindings_eq_nil_iff hvars hbundles hsizes hcounter hbundle, not_and_or, not_not]

/-- A team of two and a reserve of three, who are to have other roles than the team. -/
def teamModel : Model where
  name := "team"
  vars := [.bucket ⟨"team", "crew", 2⟩,
    .aggregate ⟨"reserve", "1..4", [⟨"reserve1", none⟩, ⟨"reserve2", none⟩, ⟨"reserve3", none⟩]⟩]
  sharedDomains := []
  bundles := [⟨"crew", [⟨"role", "1..4"⟩]⟩]
  tables := []
  constraints := [.expression "apart" "team[i].role <> reserve[i] | i in 1..2"]

/-- The role in one of the copies of the crew. -/
def teamRole (i : Int64) : Reference :=
  .field "team" (.literal i) "role"

/-- A relation between the team and the reserve. -/
def teamRelation (i : Int64) : ConstraintExpr :=
  ⟨⟨.reference (teamRole i), none⟩, .ne, ⟨.reference (.element "reserve" (.literal i)), none⟩, none⟩

/-- Relations that leave the team: the second copy that they refer to is accepted and resolved, and
the third one is neither. -/
theorem referenceFindings_iff_not_denotes_teamModel :
    Template.expandText "team[i].role <> reserve[i] | i in 1..3" =
        .ok [teamRelation 1, teamRelation 2, teamRelation 3] ∧
      ∃ net, Network.build teamModel = .ok net ∧
        (teamModel.referenceFindings "apart" (teamRole 2) = [] ∧ teamModel.Denotes (teamRole 2) ∧
          ∃ found, net.resolve (teamRole 2) = .ok found) ∧
        (teamModel.referenceFindings "apart" (teamRole 3) =
            [.subscriptOutOfRange "apart" "team" 3 2] ∧
          ¬ teamModel.Denotes (teamRole 3) ∧ ¬ ∃ found, net.resolve (teamRole 3) = .ok found) := by
  have htrees : Template.expandText "team[i].role <> reserve[i] | i in 1..3" =
      .ok [teamRelation 1, teamRelation 2, teamRelation 3] := by decide +kernel
  obtain ⟨net, hbuild⟩ : ∃ net, Network.build teamModel = .ok net :=
    isSome_toOption_iff.1 (by decide +kernel)
  have haggregate (a : Aggregate) (ha : .aggregate a ∈ teamModel.vars) : a.size = 3 := by
    simp only [teamModel, List.mem_cons, reduceCtorEq, Variable.aggregate.injEq, List.not_mem_nil,
      or_false, false_or] at ha
    rw [ha]
    rfl
  have hbucket (b : Bucket) (hb : .bucket b ∈ teamModel.vars) : b = ⟨"team", "crew", 2⟩ := by
    simpa [teamModel] using hb
  -- findings and network compared for a copy that one of the relations refers to
  have hagree (i : Int64) (htree : teamRelation i ∈ [teamRelation 1, teamRelation 2,
      teamRelation 3]) :
      (teamModel.referenceFindings "apart" (teamRole i) ≠ [] ↔
        ¬ teamModel.Denotes (teamRole i) ∨ teamModel.Oversized (teamRole i)) ∧
      ((∃ found, net.resolve (teamRole i) = .ok found) ↔ teamModel.Denotes (teamRole i)) := by
    have hr : teamRole i ∈ (teamRelation i).references := List.mem_cons_self
    obtain ⟨hfindings, hresolve⟩ := referenceFindings_iff_not_denotes (m := teamModel) (by decide)
      (by decide) (fun a ha => by rw [haggregate a ha]; decide) htrees htree hr
      (fun _ _ _ _ b hb _ => ⟨_, List.mem_singleton.2 rfl, by rw [hbucket b hb]⟩) "apart"
    exact ⟨hfindings, hresolve net hbuild⟩
  obtain ⟨hfindings, hresolve⟩ := hagree 2 (by simp)
  obtain ⟨hfindings', hresolve'⟩ := hagree 3 (by simp)
  have hnone : teamModel.referenceFindings "apart" (teamRole 2) = [] := by decide +kernel
  have hout : teamModel.referenceFindings "apart" (teamRole 3) =
      [.subscriptOutOfRange "apart" "team" 3 2] := by decide +kernel
  have hdenotes : teamModel.Denotes (teamRole 2) := by
    by_contra hnot
    exact hfindings.2 (.inl hnot) hnone
  have hsmall : ¬ teamModel.Oversized (teamRole 3) := by
    rintro ⟨b, hb, -, hlt⟩
    rw [hbucket b hb] at hlt
    exact absurd hlt (by decide)
  have hnot : ¬ teamModel.Denotes (teamRole 3) :=
    (hfindings'.1 (by rw [hout]; simp)).resolve_right hsmall
  exact ⟨htrees, net, hbuild, ⟨hnone, hdenotes, hresolve.2 hdenotes⟩, hout, hnot,
    fun h => hnot (hresolve'.1 h)⟩

/-- One more copy of a crew than the greatest word, and a relation on the first. -/
def crowdModel : Model where
  name := "crowd"
  vars := [.bucket ⟨"team", "crew", 9223372036854775808⟩]
  sharedDomains := []
  bundles := [⟨"crew", [⟨"role", "1..2"⟩]⟩]
  tables := []
  constraints := [.expression "first" "team[1].role = 1"]

/-- The first copy of the crew in `crowdModel` is declared, and yet there is a finding on the
reference to it. -/
theorem referenceFindings_crowdModel :
    (crowdModel.vars.map Variable.name).Nodup ∧ (crowdModel.bundles.map Bundle.name).Nodup ∧
      (∃ tree, Template.expandText "team[1].role = 1" = .ok [tree] ∧
        .field "team" (.literal 1) "role" ∈ tree.references) ∧
      crowdModel.Denotes (.field "team" (.literal 1) "role") ∧
      crowdModel.referenceFindings "first" (.field "team" (.literal 1) "role") =
        [.subscriptOutOfRange "first" "team" 1 9223372036854775808] := by
  refine ⟨by decide, by decide, ⟨⟨⟨.reference (.field "team" (.literal 1) "role"), none⟩, .eq,
    ⟨.literal (.integer 1), none⟩, none⟩, by decide +kernel, by decide⟩, ?_, by decide +kernel⟩
  exact ⟨_, List.mem_singleton.2 rfl, rfl, by decide, _, List.mem_singleton.2 rfl, rfl, _,
    List.mem_singleton.2 rfl, rfl⟩

end Model

end FiniteDomain
