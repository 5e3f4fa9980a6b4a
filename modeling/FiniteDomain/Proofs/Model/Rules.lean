import FiniteDomain.Model.Edit
import FiniteDomain.Proofs.Outcome

/-!
# The rules of editing

An edit either is accepted and makes one model of another, or it is rejected. The rules say when an
edit is accepted and what it makes: each adds one item after the others of its collection, takes one
item out, or puts another item in the place of one. Everything else stays as it is and where it is.

Where an edit names an item, it is the first item of this name. Models that were read from a file
may have more than one.

## Main definitions

* `FreshName`: a name that can be given to a new item.
* `Edit.Step`: the rules of editing.

## Main results

* `takeFirst?_eq_some_iff`, `updateVariable_eq_ok_iff`: what is taken out and what is changed.
* `Edit.apply_eq_ok_iff`: the rules are what edits do.
-/

namespace FiniteDomain

/-! ### Checks -/

/-- A text with something else than white space in it. -/
def Text.Visible (s : String) : Prop :=
  isBlankText s = false

/-- A name that can be given to a new item beside items with the given names. The item gets the name
without the white space around it. -/
structure FreshName (names : List String) (name : String) : Prop where
  /-- The name is visible. -/
  visible : Text.Visible name
  /-- No item has the trimmed name. -/
  not_mem : Text.trim name ∉ names

/-- A name is accepted if it is visible, and it is trimmed then. -/
theorem requireName_eq_ok_iff {name n : String} :
    requireName name = .ok n ↔ Text.Visible name ∧ Text.trim name = n := by
  rw [requireName, Text.Visible]
  cases Text.isBlankText name <;> simp

/-- An expression is accepted if it is visible, and it is kept as given. -/
theorem requireExpression_eq_ok_iff {owner expression e : String} :
    requireExpression owner expression = .ok e ↔ Text.Visible expression ∧ expression = e := by
  rw [requireExpression, Text.Visible]
  cases Text.isBlankText expression <;> simp

/-- An item is found by its name exactly when an item has the name. -/
theorem isSome_find?_iff_mem_map {α : Type} {name : α → String} {as : List α} {n : String} :
    (as.find? fun a => name a == n).isSome = true ↔ n ∈ as.map name := by
  simp [List.find?_isSome]

/-- The trimmed name of a new variable is compared with the names of all kinds of variables. -/
theorem requireFreshVariable_eq_ok_iff {m : Model} {name n : String} :
    m.requireFreshVariable name = .ok n ↔
      FreshName (m.vars.map Variable.name) name ∧ Text.trim name = n := by
  simp only [Model.requireFreshVariable, Model.variableNamed?, bind_eq_ok_iff, guard_eq_ok_iff,
    requireName_eq_ok_iff, isSome_find?_iff_mem_map]
  constructor
  · rintro ⟨-, ⟨hvisible, rfl⟩, hfresh, ⟨⟩⟩
    exact ⟨⟨hvisible, hfresh⟩, rfl⟩
  · rintro ⟨⟨hvisible, hfresh⟩, rfl⟩
    exact ⟨_, ⟨hvisible, rfl⟩, hfresh, rfl⟩

/-- Fields that a bundle can be made of: names and domains are visible, and trimmed names differ. -/
structure ProperFields (fields : List (String × String)) : Prop where
  /-- Names are visible. -/
  name : ∀ f ∈ fields, Text.Visible f.1
  /-- Domains are visible. -/
  domain : ∀ f ∈ fields, Text.Visible f.2
  /-- No trimmed name occurs twice. -/
  nodup : (fields.map fun f => Text.trim f.1).Nodup

/-- The field of a bundle that is declared by a name and a domain. -/
def declaredField (field : String × String) : Singleton :=
  ⟨Text.trim field.1, field.2⟩

/-- One field is added if its trimmed name differs from the names of those before it. -/
theorem addField_eq_ok_iff {fields fields' : List Singleton} {field : String × String} :
    addField fields field = .ok fields' ↔
      FreshName (fields.map Singleton.name) field.1 ∧ Text.Visible field.2 ∧
        fields ++ [declaredField field] = fields' := by
  have htaken (n : String) :
      (fields.any fun s => s.name == n) = true ↔ n ∈ fields.map Singleton.name := by
    simp
  simp only [addField, bind_eq_ok_iff, guard_eq_ok_iff, requireName_eq_ok_iff,
    requireExpression_eq_ok_iff, htaken]
  constructor
  · rintro ⟨-, ⟨hvisible, rfl⟩, hfresh, -, ⟨hdomain, rfl⟩, ⟨⟩⟩
    exact ⟨⟨hvisible, hfresh⟩, hdomain, rfl⟩
  · rintro ⟨⟨hvisible, hfresh⟩, hdomain, rfl⟩
    exact ⟨_, ⟨hvisible, rfl⟩, hfresh, _, ⟨hdomain, rfl⟩, rfl⟩

/-- Fields are added one by one, and each is checked against those before it. -/
theorem foldlM_addField_eq_ok_iff {fields : List (String × String)}
    {start result : List Singleton} :
    fields.foldlM addField start = .ok result ↔
      ProperFields fields ∧ (∀ f ∈ fields, Text.trim f.1 ∉ start.map Singleton.name) ∧
        start ++ fields.map declaredField = result := by
  induction fields generalizing start with
  | nil =>
    have hnone : ProperFields [] := ⟨by simp, by simp, by simp⟩
    simp [hnone, pure, Except.pure]
  | cons f fields ih =>
    simp only [List.foldlM_cons, bind_eq_ok_iff, addField_eq_ok_iff, ih]
    constructor
    · rintro ⟨-, ⟨⟨hname, hfresh⟩, hdomain, rfl⟩, ⟨hnames, hdomains, hnodup⟩, hlater, rfl⟩
      -- a later name differs from the names in front and from the one just added
      have hdiffer : ∀ g ∈ fields, Text.trim g.1 ∉ start.map Singleton.name ∧
          Text.trim g.1 ≠ Text.trim f.1 := by
        intro g hg
        simpa [declaredField, not_or] using hlater g hg
      refine ⟨⟨?_, ?_, ?_⟩, ?_, by simp⟩
      · exact List.forall_mem_cons.2 ⟨hname, hnames⟩
      · exact List.forall_mem_cons.2 ⟨hdomain, hdomains⟩
      · rw [List.map_cons, List.nodup_cons, List.mem_map]
        exact ⟨fun ⟨g, hg, heq⟩ => (hdiffer g hg).2 heq, hnodup⟩
      · exact List.forall_mem_cons.2 ⟨hfresh, fun g hg => (hdiffer g hg).1⟩
    · rintro ⟨⟨hnames, hdomains, hnodup⟩, hfresh, rfl⟩
      rw [List.forall_mem_cons] at hnames hdomains hfresh
      rw [List.map_cons, List.nodup_cons, List.mem_map] at hnodup
      refine ⟨_, ⟨⟨hnames.1, hfresh.1⟩, hdomains.1, rfl⟩, ⟨hnames.2, hdomains.2, hnodup.2⟩, ?_,
        by simp⟩
      intro g hg
      rw [List.map_append, List.mem_append, List.map_singleton, List.mem_singleton, not_or]
      exact ⟨hfresh.2 g hg, fun heq => hnodup.1 ⟨g, hg, heq⟩⟩

/-! ### Searches through lists -/

/-- What is taken out of a list is its first item with a property; the others keep their order. -/
theorem takeFirst?_eq_some_iff {α : Type} {p : α → Bool} {as rest : List α} {a : α} :
    takeFirst? p as = some (a, rest) ↔
      ∃ before after, as = before ++ a :: after ∧ rest = before ++ after ∧ p a = true ∧
        ∀ b ∈ before, p b = false := by
  induction as generalizing a rest with
  | nil => simp [takeFirst?]
  | cons c as ih =>
    rw [takeFirst?]
    by_cases hc : p c = true
    · rw [if_pos hc, Option.some.injEq, Prod.mk.injEq]
      constructor
      · rintro ⟨rfl, rfl⟩
        exact ⟨[], as, rfl, rfl, hc, by simp⟩
      · rintro ⟨before, after, has, rfl, -, hbefore⟩
        -- nothing stands before the item, since the first item has the property
        obtain rfl : before = [] := by
          rcases before with - | ⟨b, before⟩
          · rfl
          · obtain ⟨rfl, -⟩ := List.cons.inj has
            simp [hbefore] at hc
        exact ⟨(List.cons.inj has).1, (List.cons.inj has).2⟩
    · simp only [if_neg hc, Option.map_eq_some_iff, Prod.exists, Prod.mk.injEq, ih]
      constructor
      · rintro ⟨a, -, ⟨before, after, rfl, rfl, ha, hbefore⟩, rfl, rfl⟩
        refine ⟨c :: before, after, rfl, rfl, ha, ?_⟩
        exact List.forall_mem_cons.2 ⟨by simpa using hc, hbefore⟩
      · rintro ⟨before, after, has, rfl, ha, hbefore⟩
        rcases before with - | ⟨b, before⟩
        · obtain ⟨rfl, -⟩ := List.cons.inj has
          exact absurd ha hc
        · obtain ⟨rfl, rfl⟩ := List.cons.inj has
          exact ⟨a, _, ⟨before, after, rfl, rfl, ha, (List.forall_mem_cons.1 hbefore).2⟩, rfl, rfl⟩

/-- The first item of a name is taken out. -/
theorem takeFirst?_name_eq_some_iff {α : Type} {name : α → String} {n : String} {as rest : List α}
    {a : α} : takeFirst? (fun a => name a == n) as = some (a, rest) ↔
      ∃ before after, as = before ++ a :: after ∧ rest = before ++ after ∧ name a = n ∧
        n ∉ before.map name := by
  simp [takeFirst?_eq_some_iff]

/-- A change of a variable by name changes the first variable of this name, where it stands. -/
theorem updateVariable_eq_ok_iff {name : String} {change : Variable → Except ModelError Variable}
    {vs vs' : List Variable} :
    updateVariable name change vs = .ok vs' ↔
      ∃ before v v' after, vs = before ++ v :: after ∧ vs' = before ++ v' :: after ∧
        v.name = name ∧ name ∉ before.map Variable.name ∧ change v = .ok v' := by
  induction vs generalizing vs' with
  | nil => simp [updateVariable]
  | cons w vs ih =>
    rw [updateVariable]
    -- the variable is the first one of the list or one after it
    by_cases hw : w.name = name
    · rw [if_pos (beq_iff_eq.2 hw), bind_eq_ok_iff]
      constructor
      · rintro ⟨w', hw', ⟨⟩⟩
        exact ⟨[], w, w', vs, rfl, rfl, hw, by simp, hw'⟩
      · rintro ⟨before, v, v', after, hvs, rfl, -, hfirst, hv'⟩
        rcases before with - | ⟨b, before⟩
        · obtain ⟨rfl, rfl⟩ := List.cons.inj hvs
          exact ⟨v', hv', rfl⟩
        · obtain ⟨rfl, -⟩ := List.cons.inj hvs
          simp [hw] at hfirst
    · rw [if_neg (by simpa using hw), bind_eq_ok_iff]
      simp only [ih]
      constructor
      · rintro ⟨-, ⟨before, v, v', after, rfl, rfl, hv, hfirst, hv'⟩, ⟨⟩⟩
        refine ⟨w :: before, v, v', after, rfl, rfl, hv, ?_, hv'⟩
        rw [List.map_cons, List.mem_cons, not_or]
        exact ⟨Ne.symm hw, hfirst⟩
      · rintro ⟨before, v, v', after, hvs, rfl, hv, hfirst, hv'⟩
        rcases before with - | ⟨b, before⟩
        · obtain ⟨rfl, -⟩ := List.cons.inj hvs
          exact absurd hv hw
        · obtain ⟨rfl, rfl⟩ := List.cons.inj hvs
          rw [List.map_cons, List.mem_cons, not_or] at hfirst
          exact ⟨_, ⟨before, v, v', after, rfl, rfl, hv, hfirst.2, hv'⟩, rfl⟩

/-! ### Rules -/

/-- What an accepted edit makes of a model. -/
inductive Edit.Step (m : Model) : Edit → Model → Prop where
  /-- A singleton is declared after the other variables. -/
  | addSingleton {name domain : String} (hname : FreshName (m.vars.map Variable.name) name)
    (hdomain : Text.Visible domain) :
    Step m (.addSingleton name domain)
      { m with vars := m.vars ++ [.singleton ⟨Text.trim name, domain⟩] }
  /-- An aggregate is declared after the other variables. -/
  | addAggregate {name domain : String} {size : Nat}
    (hname : FreshName (m.vars.map Variable.name) name) (hdomain : Text.Visible domain)
    (hsize : size ≠ 0) :
    Step m (.addAggregate name size domain)
      { m with
        vars := m.vars ++ [.aggregate
          ⟨Text.trim name, domain, Aggregate.freshElements (Text.trim name) 0 size⟩] }
  /-- A bundle is declared after the others, with its fields in the order given. -/
  | addBundle {name : String} {fields : List (String × String)}
    (hname : FreshName (m.bundles.map Bundle.name) name) (hfields : ProperFields fields) :
    Step m (.addBundle name fields)
      { m with bundles := m.bundles ++ [⟨Text.trim name, fields.map declaredField⟩] }
  /-- A bucket of a declared bundle is declared after the other variables. -/
  | addBucket {name bundle : String} {size : UInt64}
    (hname : FreshName (m.vars.map Variable.name) name)
    (hbundle : bundle ∈ m.bundles.map Bundle.name) (hsize : size ≠ 0) :
    Step m (.addBucket name bundle size)
      { m with vars := m.vars ++ [.bucket ⟨Text.trim name, bundle, size⟩] }
  /-- A shared domain is declared after the others. A dollar sign is dropped from its trimmed name.
  -/
  | addSharedDomain {name expression : String} (hname : Text.Visible name)
    (hfresh : dropDollar (Text.trim name) ∉ m.sharedDomains.map SharedDomain.name)
    (hexpression : Text.Visible expression) :
    Step m (.addSharedDomain name expression)
      { m with sharedDomains := m.sharedDomains ++ [⟨dropDollar (Text.trim name), expression⟩] }
  /-- A table is declared after the others, under its name as given. -/
  | addTable {table : Table} (hname : FreshName (m.tables.map Table.name) table.name) :
    Step m (.addTable table) { m with tables := m.tables ++ [table] }
  /-- A constraint expression is added after the other constraints. -/
  | addExpression {expression : String} (hexpression : Text.Visible expression) :
    Step m (.addExpression expression)
      { m with constraints := m.constraints ++ [.expression m.nextConstraintName expression] }
  /-- An all-different constraint is added after the other constraints. -/
  | addAllDifferent {aggregate : String} (haggregate : Text.Visible aggregate) :
    Step m (.addAllDifferent aggregate)
      { m with constraints := m.constraints ++ [.allDifferent m.nextConstraintName aggregate] }
  /-- The first variable of a name is taken out. -/
  | deleteVariable {before after : List Variable} {v : Variable}
    (hvars : m.vars = before ++ v :: after) (hfirst : v.name ∉ before.map Variable.name) :
    Step m (.deleteVariable v.name) { m with vars := before ++ after }
  /-- The first shared domain of a name is taken out. -/
  | deleteSharedDomain {before after : List SharedDomain} {d : SharedDomain}
    (hdomains : m.sharedDomains = before ++ d :: after)
    (hfirst : d.name ∉ before.map SharedDomain.name) :
    Step m (.deleteSharedDomain d.name) { m with sharedDomains := before ++ after }
  /-- The first constraint of a name is taken out. -/
  | deleteConstraint {before after : List ModelConstraint} {c : ModelConstraint}
    (hconstraints : m.constraints = before ++ c :: after)
    (hfirst : c.name ∉ before.map ModelConstraint.name) :
    Step m (.deleteConstraint c.name) { m with constraints := before ++ after }
  /-- The first variable of a name gets a name that no variable has. -/
  | renameVariable {newName : String} {before after : List Variable} {v : Variable}
    (hname : FreshName (m.vars.map Variable.name) newName)
    (hvars : m.vars = before ++ v :: after) (hfirst : v.name ∉ before.map Variable.name) :
    Step m (.renameVariable v.name newName)
      { m with vars := before ++ v.rename (Text.trim newName) :: after }
  /-- The first variable of a name is an aggregate, and its elements after `size` are dropped or new
  ones are added up to `size`. -/
  | resizeAggregate {before after : List Variable} {a : Aggregate} {size : Nat}
    (hvars : m.vars = before ++ .aggregate a :: after)
    (hfirst : a.name ∉ before.map Variable.name) (hsize : size ≠ 0) :
    Step m (.resizeAggregate a.name size)
      { m with
        vars := before ++ .aggregate { a with
          elements := a.elements.take size ++
            Aggregate.freshElements a.name a.elements.length size } :: after }
  /-- The first variable of a name is a bucket, and the number of its copies is changed. -/
  | resizeBucket {before after : List Variable} {b : Bucket} {size : UInt64}
    (hvars : m.vars = before ++ .bucket b :: after) (hfirst : b.name ∉ before.map Variable.name)
    (hsize : size ≠ 0) :
    Step m (.resizeBucket b.name size)
      { m with vars := before ++ .bucket { b with size } :: after }
  /-- The first variable of a name is an aggregate, and one element gets a domain of its own. -/
  | overrideDomain {before after : List Variable} {a : Aggregate} {index : Nat} {domain : String}
    (hdomain : Text.Visible domain) (hvars : m.vars = before ++ .aggregate a :: after)
    (hfirst : a.name ∉ before.map Variable.name) (hindex : 1 ≤ index ∧ index ≤ a.size) :
    Step m (.overrideDomain a.name index domain)
      { m with
        vars := before ++ .aggregate { a with
          elements := a.elements.modify (index - 1) fun e =>
            { e with domainOverride := some domain } } :: after }

/-! ### Edits of variables -/

/-- An aggregate without elements is refused; the elements of any other are numbered from 1. -/
theorem Aggregate.new_eq_ok_iff {name domain : String} {size : Nat} {a : Aggregate} :
    Aggregate.new name size domain = .ok a ↔
      size ≠ 0 ∧ ⟨name, domain, freshElements name 0 size⟩ = a := by
  rw [Aggregate.new]
  by_cases hsize : size = 0 <;> simp [hsize]

/-- A resized aggregate keeps the elements up to its new size, with the domains of their own. -/
theorem Aggregate.resize_eq_ok_iff {a a' : Aggregate} {size : Nat} :
    a.resize size = .ok a' ↔ size ≠ 0 ∧ { a with
      elements := a.elements.take size ++ freshElements a.name a.elements.length size } = a' := by
  rw [Aggregate.resize]
  by_cases hsize : size = 0 <;> simp [hsize]

/-- Elements are counted from 1, and an element that is not there is refused. -/
theorem Aggregate.overrideDomain_eq_ok_iff {a a' : Aggregate} {index : Nat} {domain : String} :
    a.overrideDomain index domain = .ok a' ↔ (1 ≤ index ∧ index ≤ a.size) ∧ { a with
      elements := a.elements.modify (index - 1) fun e =>
        { e with domainOverride := some domain } } = a' := by
  rw [Aggregate.overrideDomain]
  by_cases hindex : index = 0 ∨ a.size < index
  · rw [if_pos hindex]
    refine iff_of_false (by simp) fun h => ?_
    omega
  · rw [if_neg hindex, Except.ok.injEq]
    exact (and_iff_right (by omega)).symm

/-- A bucket without copies is refused. -/
theorem Bucket.new_eq_ok_iff {name bundle : String} {size : UInt64} {b : Bucket} :
    Bucket.new name bundle size = .ok b ↔ size ≠ 0 ∧ ⟨name, bundle, size⟩ = b := by
  rw [Bucket.new]
  by_cases hsize : size = 0 <;> simp [hsize]

/-- No bucket is resized to have no copies. -/
theorem Bucket.resize_eq_ok_iff {b b' : Bucket} {size : UInt64} :
    b.resize size = .ok b' ↔ size ≠ 0 ∧ { b with size } = b' := by
  rw [Bucket.resize]
  by_cases hsize : size = 0 <;> simp [hsize]

namespace Model

variable {m m' : Model} {name : String}

/-- A singleton needs a fresh name and a visible domain. -/
theorem addSingleton_eq_ok_iff {domain : String} :
    m.addSingleton name domain = .ok m' ↔ Edit.Step m (.addSingleton name domain) m' := by
  simp only [addSingleton, bind_eq_ok_iff, requireFreshVariable_eq_ok_iff,
    requireExpression_eq_ok_iff]
  constructor
  · rintro ⟨_, ⟨hname, rfl⟩, _, ⟨hdomain, rfl⟩, ⟨⟩⟩
    exact .addSingleton hname hdomain
  · intro h
    cases h with
    | addSingleton hname hdomain => exact ⟨_, ⟨hname, rfl⟩, _, ⟨hdomain, rfl⟩, rfl⟩

/-- An aggregate needs a fresh name, a visible domain and at least one element. -/
theorem addAggregate_eq_ok_iff {size : Nat} {domain : String} :
    m.addAggregate name size domain = .ok m' ↔
      Edit.Step m (.addAggregate name size domain) m' := by
  simp only [addAggregate, bind_eq_ok_iff, requireFreshVariable_eq_ok_iff,
    requireExpression_eq_ok_iff, Aggregate.new_eq_ok_iff]
  constructor
  · rintro ⟨_, ⟨hname, rfl⟩, _, ⟨hdomain, rfl⟩, _, ⟨hsize, rfl⟩, ⟨⟩⟩
    exact .addAggregate hname hdomain hsize
  · intro h
    cases h with
    | addAggregate hname hdomain hsize =>
      exact ⟨_, ⟨hname, rfl⟩, _, ⟨hdomain, rfl⟩, _, ⟨hsize, rfl⟩, rfl⟩

/-- A bucket needs a fresh name, a bundle that is declared already and at least one copy. -/
theorem addBucket_eq_ok_iff {bundle : String} {size : UInt64} :
    m.addBucket name bundle size = .ok m' ↔ Edit.Step m (.addBucket name bundle size) m' := by
  -- a bundle is looked up by its name and not changed
  have hdeclared : ¬ (m.bundle? bundle).isNone = true ↔ bundle ∈ m.bundles.map Bundle.name := by
    rw [← isSome_find?_iff_mem_map, bundle?, Option.isNone_iff_eq_none, Option.isSome_iff_ne_none]
  simp only [addBucket, bind_eq_ok_iff, guard_eq_ok_iff, requireFreshVariable_eq_ok_iff,
    Bucket.new_eq_ok_iff, hdeclared]
  constructor
  · rintro ⟨_, ⟨hname, rfl⟩, hbundle, _, ⟨hsize, rfl⟩, ⟨⟩⟩
    exact .addBucket hname hbundle hsize
  · intro h
    cases h with
    | addBucket hname hbundle hsize =>
      exact ⟨_, ⟨hname, rfl⟩, hbundle, _, ⟨hsize, rfl⟩, rfl⟩

/-- A deletion by name takes the first item of this name out of its collection. -/
theorem deletion_eq_ok_iff {α : Type} {itemName : α → String} {items : List α}
    {error : ModelError} (withItems : List α → Model) :
    Except.map Prod.snd ((takeFirst? (fun a => itemName a == name) items).elim (.error error)
      fun found => .ok (found.1, withItems found.2)) = .ok m' ↔
    ∃ before a after, items = before ++ a :: after ∧ withItems (before ++ after) = m' ∧
      itemName a = name ∧ name ∉ before.map itemName := by
  cases htake : takeFirst? (fun a => itemName a == name) items with
  | none =>
    refine iff_of_false (fun h => nomatch h) ?_
    rintro ⟨before, a, after, hitems, -, hname, hfirst⟩
    -- an item of this name would have been found
    rw [takeFirst?_name_eq_some_iff.2 ⟨before, after, hitems, rfl, hname, hfirst⟩] at htake
    exact nomatch htake
  | some found =>
    obtain ⟨before, after, hitems, hrest, hname, hfirst⟩ := takeFirst?_name_eq_some_iff.1 htake
    constructor
    · rintro ⟨⟩
      exact ⟨before, found.1, after, hitems, by rw [hrest], hname, hfirst⟩
    · rintro ⟨before', a, after', hitems', rfl, hname', hfirst'⟩
      have htake' := takeFirst?_name_eq_some_iff.2 ⟨before', after', hitems', rfl, hname', hfirst'⟩
      obtain rfl := Option.some.inj (htake.symm.trans htake')
      rfl

/-- A variable is deleted like an item of any other list. -/
theorem deleteVariable_eq (m : Model) (name : String) :
    m.deleteVariable name = (takeFirst? (fun v => v.name == name) m.vars).elim
      (.error (.unknownVariable name)) fun found => .ok (found.1, { m with vars := found.2 }) := by
  rw [deleteVariable]
  cases takeFirst? (fun v => v.name == name) m.vars <;> rfl

/-- A variable is deleted whether or not a constraint mentions it. -/
theorem deleteVariable_eq_ok_iff :
    (m.deleteVariable name).map Prod.snd = .ok m' ↔ Edit.Step m (.deleteVariable name) m' := by
  rw [deleteVariable_eq, deletion_eq_ok_iff fun vars => { m with vars }]
  constructor
  · rintro ⟨before, v, after, hvars, rfl, rfl, hfirst⟩
    exact .deleteVariable hvars hfirst
  · intro h
    cases h with
    | deleteVariable hvars hfirst => exact ⟨_, _, _, hvars, rfl, rfl, hfirst⟩

/-- A variable is renamed where it stands. Its own name counts as taken. -/
theorem renameVariable_eq_ok_iff {newName : String} :
    m.renameVariable name newName = .ok m' ↔ Edit.Step m (.renameVariable name newName) m' := by
  simp only [renameVariable, bind_eq_ok_iff, requireFreshVariable_eq_ok_iff,
    updateVariable_eq_ok_iff]
  constructor
  · rintro ⟨_, ⟨hname, rfl⟩, _, ⟨before, v, _, after, hvars, rfl, rfl, hfirst, ⟨⟩⟩, ⟨⟩⟩
    exact .renameVariable hname hvars hfirst
  · intro h
    cases h with
    | renameVariable hname hvars hfirst =>
      exact ⟨_, ⟨hname, rfl⟩, _, ⟨_, _, _, _, hvars, rfl, rfl, hfirst, rfl⟩, rfl⟩

/-- A change of an aggregate by name changes the first variable of this name, which is one. -/
theorem updateAggregate_eq_ok_iff {change : Aggregate → Except ModelError Aggregate} :
    m.updateAggregate name change = .ok m' ↔
      ∃ before a a' after, m.vars = before ++ .aggregate a :: after ∧
        m' = { m with vars := before ++ .aggregate a' :: after } ∧ a.name = name ∧
        name ∉ before.map Variable.name ∧ change a = .ok a' := by
  simp only [updateAggregate, bind_eq_ok_iff, updateVariable_eq_ok_iff]
  constructor
  · rintro ⟨_, ⟨before, v, _, after, hvars, rfl, hv, hfirst, hchange⟩, ⟨⟩⟩
    -- the first variable of the name decides, also if a later one is an aggregate
    cases v with
    | aggregate a =>
      obtain ⟨a', ha', rfl⟩ := map_eq_ok_iff.1 hchange
      exact ⟨before, a, a', after, hvars, rfl, hv, hfirst, ha'⟩
    | singleton | bucket => cases hchange
  · rintro ⟨before, a, a', after, hvars, rfl, hname, hfirst, hchange⟩
    exact ⟨_, ⟨before, _, _, after, hvars, rfl, hname, hfirst, map_eq_ok_iff.2 ⟨a', hchange, rfl⟩⟩,
      rfl⟩

/-- Of a name that several variables have, only the first can be resized, and only as an aggregate.
-/
theorem resizeAggregate_eq_ok_iff {size : Nat} :
    m.resizeAggregate name size = .ok m' ↔ Edit.Step m (.resizeAggregate name size) m' := by
  simp only [resizeAggregate, updateAggregate_eq_ok_iff, Aggregate.resize_eq_ok_iff]
  constructor
  · rintro ⟨before, a, _, after, hvars, rfl, rfl, hfirst, hsize, rfl⟩
    exact .resizeAggregate hvars hfirst hsize
  · intro h
    cases h with
    | resizeAggregate hvars hfirst hsize =>
      exact ⟨_, _, _, _, hvars, rfl, rfl, hfirst, hsize, rfl⟩

/-- Only an aggregate that is the first variable of its name has an element to give a domain to. -/
theorem overrideDomain_eq_ok_iff {index : Nat} {domain : String} :
    m.overrideDomain name index domain = .ok m' ↔
      Edit.Step m (.overrideDomain name index domain) m' := by
  simp only [overrideDomain, bind_eq_ok_iff, requireExpression_eq_ok_iff,
    updateAggregate_eq_ok_iff, Aggregate.overrideDomain_eq_ok_iff]
  constructor
  · rintro ⟨_, ⟨hdomain, rfl⟩, before, a, _, after, hvars, rfl, rfl, hfirst, hindex, rfl⟩
    exact .overrideDomain hdomain hvars hfirst hindex
  · intro h
    cases h with
    | overrideDomain hdomain hvars hfirst hindex =>
      exact ⟨_, ⟨hdomain, rfl⟩, _, _, _, _, hvars, rfl, rfl, hfirst, hindex, rfl⟩

/-- Of a name that several variables have, only the first can be resized, and only as a bucket. -/
theorem resizeBucket_eq_ok_iff {size : UInt64} :
    m.resizeBucket name size = .ok m' ↔ Edit.Step m (.resizeBucket name size) m' := by
  simp only [resizeBucket, bind_eq_ok_iff, updateVariable_eq_ok_iff]
  constructor
  · rintro ⟨_, ⟨before, v, _, after, hvars, rfl, rfl, hfirst, hchange⟩, ⟨⟩⟩
    cases v with
    | bucket b =>
      obtain ⟨b', hb', rfl⟩ := map_eq_ok_iff.1 hchange
      obtain ⟨hsize, rfl⟩ := Bucket.resize_eq_ok_iff.1 hb'
      exact .resizeBucket hvars hfirst hsize
    | singleton | aggregate => cases hchange
  · intro h
    cases h with
    | resizeBucket hvars hfirst hsize =>
      refine ⟨_, ⟨_, _, _, _, hvars, rfl, rfl, hfirst, ?_⟩, rfl⟩
      exact map_eq_ok_iff.2 ⟨_, Bucket.resize_eq_ok_iff.2 ⟨hsize, rfl⟩, rfl⟩

/-! ### Edits of bundles, domains, tables and constraints -/

/-- A bundle needs a fresh name and fields with fresh names and visible domains; it may have none.
-/
theorem addBundle_eq_ok_iff {fields : List (String × String)} :
    m.addBundle name fields = .ok m' ↔ Edit.Step m (.addBundle name fields) m' := by
  simp only [addBundle, bundle?, bind_eq_ok_iff, guard_eq_ok_iff, requireName_eq_ok_iff,
    isSome_find?_iff_mem_map, foldlM_addField_eq_ok_iff]
  constructor
  · rintro ⟨_, ⟨hvisible, rfl⟩, hfresh, _, ⟨hfields, -, rfl⟩, ⟨⟩⟩
    exact .addBundle ⟨hvisible, hfresh⟩ hfields
  · intro h
    cases h with
    | addBundle hname hfields =>
      exact ⟨_, ⟨hname.visible, rfl⟩, hname.not_mem, _, ⟨hfields, by simp, rfl⟩, rfl⟩

/-- The name of a shared domain is compared without its dollar sign, and only the name with the sign
must be visible. -/
theorem addSharedDomain_eq_ok_iff {expression : String} :
    m.addSharedDomain name expression = .ok m' ↔
      Edit.Step m (.addSharedDomain name expression) m' := by
  simp only [addSharedDomain, sharedDomain?, bind_eq_ok_iff, guard_eq_ok_iff,
    requireName_eq_ok_iff, requireExpression_eq_ok_iff, isSome_find?_iff_mem_map]
  constructor
  · rintro ⟨_, ⟨hvisible, rfl⟩, hfresh, _, ⟨hexpression, rfl⟩, ⟨⟩⟩
    exact .addSharedDomain hvisible hfresh hexpression
  · intro h
    cases h with
    | addSharedDomain hvisible hfresh hexpression =>
      exact ⟨_, ⟨hvisible, rfl⟩, hfresh, _, ⟨hexpression, rfl⟩, rfl⟩

/-- The trimmed name of a table is compared, but the table keeps the name as given. -/
theorem addTable_eq_ok_iff {table : Table} :
    m.addTable table = .ok m' ↔ Edit.Step m (.addTable table) m' := by
  simp only [addTable, table?, bind_eq_ok_iff, guard_eq_ok_iff, requireName_eq_ok_iff,
    isSome_find?_iff_mem_map]
  constructor
  · rintro ⟨_, ⟨hvisible, rfl⟩, hfresh, ⟨⟩⟩
    exact .addTable ⟨hvisible, hfresh⟩
  · intro h
    cases h with
    | addTable hname => exact ⟨_, ⟨hname.visible, rfl⟩, hname.not_mem, rfl⟩

theorem deleteSharedDomain_eq (m : Model) (name : String) :
    m.deleteSharedDomain name = (takeFirst? (fun d => d.name == name) m.sharedDomains).elim
      (.error (.unknownSharedDomain name))
      fun found => .ok (found.1, { m with sharedDomains := found.2 }) := by
  rw [deleteSharedDomain]
  cases takeFirst? (fun d => d.name == name) m.sharedDomains <;> rfl

/-- A shared domain is deleted whether or not a domain refers to it. -/
theorem deleteSharedDomain_eq_ok_iff :
    (m.deleteSharedDomain name).map Prod.snd = .ok m' ↔
      Edit.Step m (.deleteSharedDomain name) m' := by
  rw [deleteSharedDomain_eq, deletion_eq_ok_iff fun sharedDomains => { m with sharedDomains }]
  constructor
  · rintro ⟨before, d, after, hdomains, rfl, rfl, hfirst⟩
    exact .deleteSharedDomain hdomains hfirst
  · intro h
    cases h with
    | deleteSharedDomain hdomains hfirst => exact ⟨_, _, _, hdomains, rfl, rfl, hfirst⟩

/-- A constraint expression only has to be visible. It is not parsed here. -/
theorem addExpression_eq_ok_iff {expression : String} :
    (m.addExpression expression).map Prod.snd = .ok m' ↔
      Edit.Step m (.addExpression expression) m' := by
  simp only [addExpression, map_eq_ok_iff, bind_eq_ok_iff, requireExpression_eq_ok_iff]
  constructor
  · rintro ⟨_, ⟨_, ⟨hexpression, rfl⟩, ⟨⟩⟩, rfl⟩
    exact .addExpression hexpression
  · intro h
    cases h with
    | addExpression hexpression => exact ⟨_, ⟨_, ⟨hexpression, rfl⟩, rfl⟩, rfl⟩

/-- An all-different constraint is accepted for any visible name, whether or not an aggregate has
it. -/
theorem addAllDifferent_eq_ok_iff {aggregate : String} :
    (m.addAllDifferent aggregate).map Prod.snd = .ok m' ↔
      Edit.Step m (.addAllDifferent aggregate) m' := by
  simp only [addAllDifferent, map_eq_ok_iff, bind_eq_ok_iff, requireExpression_eq_ok_iff]
  constructor
  · rintro ⟨_, ⟨_, ⟨haggregate, rfl⟩, ⟨⟩⟩, rfl⟩
    exact .addAllDifferent haggregate
  · intro h
    cases h with
    | addAllDifferent haggregate => exact ⟨_, ⟨_, ⟨haggregate, rfl⟩, rfl⟩, rfl⟩

theorem deleteConstraint_eq (m : Model) (name : String) :
    m.deleteConstraint name = (takeFirst? (fun c => c.name == name) m.constraints).elim
      (.error (.unknownConstraint name))
      fun found => .ok (found.1, { m with constraints := found.2 }) := by
  rw [deleteConstraint]
  cases takeFirst? (fun c => c.name == name) m.constraints <;> rfl

/-- The first constraint of a name is deleted, of whichever kind. -/
theorem deleteConstraint_eq_ok_iff :
    (m.deleteConstraint name).map Prod.snd = .ok m' ↔ Edit.Step m (.deleteConstraint name) m' := by
  rw [deleteConstraint_eq, deletion_eq_ok_iff fun constraints => { m with constraints }]
  constructor
  · rintro ⟨before, c, after, hconstraints, rfl, rfl, hfirst⟩
    exact .deleteConstraint hconstraints hfirst
  · intro h
    cases h with
    | deleteConstraint hconstraints hfirst => exact ⟨_, _, _, hconstraints, rfl, rfl, hfirst⟩

end Model

/-- An edit is accepted and makes a model exactly when the rules say so. -/
theorem Edit.apply_eq_ok_iff {m m' : Model} {e : Edit} : e.apply m = .ok m' ↔ e.Step m m' := by
  -- the rules have one case for each kind of edit
  cases e with
  | addSingleton name domain => exact Model.addSingleton_eq_ok_iff
  | addAggregate name size domain => exact Model.addAggregate_eq_ok_iff
  | addBundle name fields => exact Model.addBundle_eq_ok_iff
  | addBucket name bundle size => exact Model.addBucket_eq_ok_iff
  | addSharedDomain name expression => exact Model.addSharedDomain_eq_ok_iff
  | addTable table => exact Model.addTable_eq_ok_iff
  | addExpression expression => exact Model.addExpression_eq_ok_iff
  | addAllDifferent aggregate => exact Model.addAllDifferent_eq_ok_iff
  | deleteVariable name => exact Model.deleteVariable_eq_ok_iff
  | deleteSharedDomain name => exact Model.deleteSharedDomain_eq_ok_iff
  | deleteConstraint name => exact Model.deleteConstraint_eq_ok_iff
  | renameVariable name newName => exact Model.renameVariable_eq_ok_iff
  | resizeAggregate name size => exact Model.resizeAggregate_eq_ok_iff
  | resizeBucket name size => exact Model.resizeBucket_eq_ok_iff
  | overrideDomain name index domain => exact Model.overrideDomain_eq_ok_iff

end FiniteDomain
