import FiniteDomain.Proofs.Model.Rules
import Mathlib.Data.List.DropRight
import Mathlib.Data.List.Nodup
import Mathlib.Data.List.Perm.Subperm
import Mathlib.Order.Bounds.Basic

/-!
# Models made by edits

Each edit checks its own arguments and no more. Together the edits keep a model consistent: names
are told apart and written without white space around them, elements are named after their
aggregate, and buckets are made of declared bundles. This holds after any edits in any order,
whether they are accepted or rejected.

The name of a constraint is generated. The search for a free one ends, since among one name more
than there are constraints one is free, also when constraints have been deleted.

## Main definitions

* `Model.editAll`: the model after edits, where a rejected edit changes nothing.
* `Model.Consistent`: what edits keep.

## Main results

* `Model.editAll_invariant`: what accepted edits keep holds after any edits.
* `Model.exists_isLeast_constraintName`: a generated name has the least free number.
* `Model.Consistent.step`: an accepted edit keeps a model consistent.
* `Model.consistent_editAll`: models made by edits are consistent.
-/

namespace FiniteDomain

namespace Model

/-- The model after an edit. A rejected edit leaves it as it was. -/
def edit (m : Model) (e : Edit) : Model :=
  match e.apply m with
  | .ok m' => m'
  | .error _ => m

/-- The model after edits made one after the other. -/
def editAll (m : Model) (edits : List Edit) : Model :=
  edits.foldl edit m

variable {m m' : Model}

theorem editAll_concat (edits : List Edit) (e : Edit) :
    m.editAll (edits ++ [e]) = (m.editAll edits).edit e := by
  rw [editAll, editAll, List.foldl_append]
  rfl

/-- An accepted edit is made. -/
theorem edit_of_step {e : Edit} (h : e.Step m m') : m.edit e = m' := by
  rw [edit, Edit.apply_eq_ok_iff.2 h]

/-- What accepted edits keep is kept by an edit, since a rejected one changes nothing. -/
theorem edit_invariant {P : Model → Prop} {e : Edit} (hstep : ∀ m', e.Step m m' → P m')
    (hm : P m) : P (m.edit e) := by
  rw [edit]
  split
  · next hm' => exact hstep _ (Edit.apply_eq_ok_iff.1 hm')
  · exact hm

/-- What accepted edits keep holds after any edits, accepted or rejected. -/
theorem editAll_invariant {P : Model → Prop} {edits : List Edit}
    (hstep : ∀ e ∈ edits, ∀ m m', P m → e.Step m m' → P m') (hm : P m) : P (m.editAll edits) := by
  induction edits generalizing m with
  | nil => exact hm
  | cons e edits ih =>
    rw [List.forall_mem_cons] at hstep
    exact ih hstep.2 (edit_invariant (hstep.1 m · hm) hm)

end Model

/-! ### Names -/

/-- A name as edits keep it: not empty, and without white space around it. -/
def ProperName (name : String) : Prop :=
  name ≠ "" ∧ Text.trim name = name

/-- Names that are proper and differ from each other. -/
structure ProperNames (names : List String) : Prop where
  /-- No name occurs twice. -/
  nodup : names.Nodup
  /-- Each name is proper. -/
  proper : ∀ name ∈ names, ProperName name

namespace Text

/-- What is left after the white space in front starts visibly. -/
theorem not_isBlank_of_trimStart {cs rest : List Char} {c : Char} (h : trimStart cs = c :: rest) :
    isBlank c = false := by
  have hhead := List.head?_dropWhile_not isBlank cs
  rw [← trimStart, h] at hhead
  simpa using hhead

/-- Trimming white space at the end keeps a visible start. -/
theorem trimStart_trimEnd (cs : List Char) :
    trimStart (trimEnd (trimStart cs)) = trimEnd (trimStart cs) := by
  have hprefix : trimEnd (trimStart cs) <+: trimStart cs := List.rdropWhile_prefix isBlank _
  cases hstart : trimEnd (trimStart cs) with
  | nil => rfl
  | cons c rest =>
    -- the first character that is left was the first one before
    obtain ⟨tail, htail⟩ := hstart ▸ hprefix
    have hc := not_isBlank_of_trimStart htail.symm
    exact List.dropWhile_cons_of_neg (by simp [hc])

/-- Trimming twice is trimming once. -/
theorem trim_trim (s : String) : trim (trim s) = trim s := by
  have hend : trimEnd (trimEnd (trimStart s.toList)) = trimEnd (trimStart s.toList) :=
    List.rdropWhile_idempotent isBlank _
  rw [trim, trim, String.toList_ofList, trimStart_trimEnd, hend]

/-- Only a blank text is trimmed to nothing. -/
theorem isBlankText_of_trim_eq_empty {s : String} (h : trim s = "") : isBlankText s = true := by
  have hnil : trimEnd (trimStart s.toList) = [] := by
    simpa [trim] using congrArg String.toList h
  have hblank : ∀ c ∈ trimStart s.toList, isBlank c = true := List.rdropWhile_eq_nil_iff.1 hnil
  cases hstart : trimStart s.toList with
  | nil =>
    rw [isBlankText, List.all_eq_true]
    exact List.dropWhile_eq_nil_iff.1 hstart
  | cons c rest =>
    have hc := hblank c (hstart ▸ List.mem_cons_self)
    rw [not_isBlank_of_trimStart hstart] at hc
    cases hc

end Text

/-- The trimmed form of a visible name is a proper name. -/
theorem Text.Visible.properName {name : String} (h : Text.Visible name) :
    ProperName (Text.trim name) := by
  refine ⟨fun hempty => ?_, Text.trim_trim name⟩
  rw [Text.Visible, Text.isBlankText_of_trim_eq_empty hempty] at h
  exact Bool.noConfusion h

namespace ProperNames

variable {names : List String}

theorem sublist {names' : List String} (h : ProperNames names) (hsub : names'.Sublist names) :
    ProperNames names' :=
  ⟨h.nodup.sublist hsub, fun name hname => h.proper name (hsub.subset hname)⟩

/-- A new name is added between others, or after them. -/
theorem insert {before after : List String} (h : ProperNames (before ++ after)) {name : String}
    (hname : ProperName name) (hfresh : name ∉ before ++ after) :
    ProperNames (before ++ name :: after) := by
  refine ⟨List.nodup_middle.2 (List.nodup_cons.2 ⟨hfresh, h.nodup⟩), ?_⟩
  intro other hother
  rcases List.mem_cons.1 (List.perm_middle.mem_iff.1 hother) with rfl | hother
  · exact hname
  · exact h.proper other hother

/-- A fresh name is added after others. -/
theorem concat (h : ProperNames names) {name : String} (hname : FreshName names name) :
    ProperNames (names ++ [Text.trim name]) :=
  insert (by simpa using h) hname.visible.properName (by simpa using hname.not_mem)

end ProperNames

/-! ### Generated names -/

namespace Model

variable {m m' : Model}

theorem constraintName_injective : Function.Injective constraintName := by
  intro i j h
  have hnumber : Decimal.ofNat i = Decimal.ofNat j := by
    simpa [constraintName] using h
  exact Decimal.ofNat_inj.1 hnumber

/-- A generated name has the least number that is greater than the number of constraints and free.
So the search for it ends. -/
theorem exists_isLeast_constraintName (m : Model) :
    ∃ n, m.nextConstraintName = constraintName n ∧
      IsLeast {n | m.constraints.length < n ∧
        constraintName n ∉ m.constraints.map ModelConstraint.name} n := by
  have hfree (n : Nat) : (m.constraints.all fun c => c.name != constraintName n) = true ↔
      constraintName n ∉ m.constraints.map ModelConstraint.name := by
    simp [List.all_eq_true]
  have hsearch : ∃ n, ((List.range' (m.constraints.length + 1) (m.constraints.length + 1)).find?
      fun n => m.constraints.all fun c => c.name != constraintName n) = some n := by
    rw [← Option.isSome_iff_exists, List.find?_isSome]
    by_contra hnone
    -- otherwise there would be more names than constraints
    have hsubset : (List.range' (m.constraints.length + 1) (m.constraints.length + 1)).map
        constraintName ⊆ m.constraints.map ModelConstraint.name := by
      intro name hname
      obtain ⟨n, hn, rfl⟩ := List.mem_map.1 hname
      by_contra hmem
      exact hnone ⟨n, hn, (hfree n).2 hmem⟩
    have hle := (List.subperm_of_subset
      (List.Nodup.map constraintName_injective (List.nodup_range' 1)) hsubset).length_le
    rw [List.length_map, List.length_range', List.length_map] at hle
    omega
  obtain ⟨n, hn⟩ := hsearch
  have hname : m.nextConstraintName = constraintName n := by
    rw [nextConstraintName, List.find?_map, Function.comp_def, hn]
    rfl
  refine ⟨n, hname, ?_⟩
  obtain ⟨hall, hmem, hleast⟩ := List.find?_range'_eq_some.1 hn
  refine ⟨⟨by have := List.mem_range'_1.1 hmem; omega, (hfree n).1 hall⟩, ?_⟩
  rintro k ⟨hk, hkfree⟩
  by_contra hlt
  have htaken := hleast k (by omega) (by omega)
  rw [(hfree k).2 hkfree] at htaken
  cases htaken

end Model

/-! ### What edits keep -/

/-- An aggregate has elements, and each is named by the aggregate and its index. -/
structure Aggregate.WellFormed (a : Aggregate) : Prop where
  /-- There is an element. -/
  nonempty : a.elements ≠ []
  /-- An element is named by its index, counted from 1. -/
  named : ∀ {index : Nat} {e : Element}, a.element? index = some e →
    e.name = Aggregate.elementName a.name index

/-- A bucket has copies of one of the bundles. -/
structure Bucket.WellFormed (bundles : List Bundle) (b : Bucket) : Prop where
  /-- There is a copy. -/
  size_pos : 0 < b.size
  /-- The bundle is declared. -/
  bundle_mem : b.bundle ∈ bundles.map Bundle.name

/-- What a variable of each kind keeps beside its name. -/
def Variable.WellFormed (bundles : List Bundle) : Variable → Prop
  | .singleton _ => True
  | .aggregate a => a.WellFormed
  | .bucket b => b.WellFormed bundles

/-- A model whose parts are told apart by name and fit together. -/
structure Model.Consistent (m : Model) : Prop where
  /-- Variables, of whatever kind, have different names. -/
  vars : ProperNames (m.vars.map Variable.name)
  /-- So do bundles. -/
  bundles : ProperNames (m.bundles.map Bundle.name)
  /-- So do the fields of each bundle. -/
  fields : ∀ b ∈ m.bundles, ProperNames (b.singletons.map Singleton.name)
  /-- Shared domains have different names. -/
  sharedDomains : (m.sharedDomains.map SharedDomain.name).Nodup
  /-- So do constraints. -/
  constraints : (m.constraints.map ModelConstraint.name).Nodup
  /-- Aggregates have elements and buckets have copies. -/
  wellFormed : ∀ v ∈ m.vars, v.WellFormed m.bundles

namespace Aggregate

variable {a : Aggregate}

/-- The elements of an aggregate by their place. -/
theorem wellFormed_iff : a.WellFormed ↔ a.elements ≠ [] ∧
    ∀ i e, a.elements[i]? = some e → e.name = elementName a.name (i + 1) := by
  constructor
  · rintro ⟨hne, hnamed⟩
    refine ⟨hne, fun i e he => hnamed ?_⟩
    simpa [element?] using he
  · rintro ⟨hne, hnamed⟩
    refine ⟨hne, ?_⟩
    intro index e he
    rw [element?] at he
    split at he
    · cases he
    · next hindex =>
      rw [hnamed _ e he, Nat.sub_add_cancel (Nat.pos_of_ne_zero hindex)]

theorem getElem?_freshElements (base : String) (count size i : Nat) :
    (freshElements base count size)[i]? =
      if i < size - count then some ⟨elementName base (count + i + 1), none⟩ else none := by
  rw [freshElements, List.getElem?_map]
  split
  · next hi =>
    rw [List.getElem?_range' hi]
    simp [Nat.add_right_comm]
  · next hi => simp [Nat.le_of_not_lt hi]

theorem wellFormed_fresh (name domain : String) {size : Nat} (hsize : size ≠ 0) :
    (Aggregate.mk name domain (freshElements name 0 size)).WellFormed := by
  refine wellFormed_iff.2 ⟨?_, ?_⟩
  · simp [freshElements, List.range'_eq_nil_iff, hsize]
  · intro i e he
    rw [getElem?_freshElements, Option.ite_none_right_eq_some] at he
    obtain ⟨-, ⟨⟩⟩ := he
    simp

/-- Elements are kept with their names or made after those kept. -/
theorem WellFormed.resize (ha : a.WellFormed) {size : Nat} (hsize : size ≠ 0) :
    { a with elements := a.elements.take size ++
        freshElements a.name a.elements.length size : Aggregate }.WellFormed := by
  obtain ⟨hne, hnamed⟩ := wellFormed_iff.1 ha
  refine wellFormed_iff.2 ⟨by simp [hsize, hne], ?_⟩
  intro i e he
  dsimp only at he ⊢
  rcases Nat.lt_or_ge i (a.elements.take size).length with hi | hi
  · rw [List.getElem?_append_left hi,
      List.getElem?_take_of_lt (Nat.lt_of_lt_of_le hi (List.length_take_le _ _))] at he
    exact hnamed i e he
  · rw [List.getElem?_append_right hi, getElem?_freshElements, Option.ite_none_right_eq_some] at he
    rw [List.length_take] at hi he
    obtain ⟨hlt, ⟨⟩⟩ := he
    have hkept : min size a.elements.length = a.elements.length := by omega
    rw [hkept] at hi ⊢
    rw [Nat.add_sub_cancel' hi]

theorem WellFormed.rename (ha : a.WellFormed) (name : String) : (a.rename name).WellFormed := by
  refine wellFormed_iff.2 ⟨by simpa [Aggregate.rename] using ha.nonempty, ?_⟩
  intro i e he
  rw [Aggregate.rename, List.getElem?_mapIdx, Option.map_eq_some_iff] at he
  obtain ⟨e', -, rfl⟩ := he
  rfl

theorem WellFormed.overrideDomain (ha : a.WellFormed) (index : Nat) (domain : String) :
    { a with elements := a.elements.modify index fun e =>
        { e with domainOverride := some domain } : Aggregate }.WellFormed := by
  obtain ⟨hne, hnamed⟩ := wellFormed_iff.1 ha
  refine wellFormed_iff.2 ⟨by simpa using hne, ?_⟩
  intro i e he
  simp only [List.getElem?_modify, Option.map_eq_map, Option.map_eq_some_iff] at he
  obtain ⟨e', he', rfl⟩ := he
  rw [← hnamed i e' he']
  split <;> rfl

end Aggregate

/-- More bundles do no harm. -/
theorem Variable.WellFormed.mono {bundles bundles' : List Bundle} (hsub : bundles ⊆ bundles')
    {v : Variable} (h : v.WellFormed bundles) : v.WellFormed bundles' := by
  cases v with
  | singleton s => trivial
  | aggregate a => exact h
  | bucket b => exact ⟨h.size_pos, List.map_subset _ hsub h.bundle_mem⟩

namespace Model

variable {m m' : Model}

theorem consistent_new (name : String) : (new name).Consistent := by
  refine ⟨⟨?_, ?_⟩, ⟨?_, ?_⟩, ?_, ?_, ?_, ?_⟩ <;> simp [new]

namespace Consistent

/-! ### Variables -/

/-- Changes of the variables alone. -/
theorem withVars (h : m.Consistent) {vs : List Variable}
    (hnames : ProperNames (vs.map Variable.name)) (hvs : ∀ v ∈ vs, v.WellFormed m.bundles) :
    ({ m with vars := vs } : Model).Consistent :=
  { h with vars := hnames, wellFormed := hvs }

/-- A variable is declared. -/
theorem addVariable (h : m.Consistent) {name : String} {v : Variable}
    (hfresh : FreshName (m.vars.map Variable.name) name) (hname : v.name = Text.trim name)
    (hv : v.WellFormed m.bundles) : ({ m with vars := m.vars ++ [v] } : Model).Consistent := by
  refine h.withVars ?_ ?_
  · rw [List.map_append, List.map_singleton, hname]
    exact h.vars.concat hfresh
  · intro w hw
    rcases List.mem_append.1 hw with hw | hw
    · exact h.wellFormed w hw
    · rwa [List.mem_singleton.1 hw]

/-- A variable is replaced by one of the same name or of a new name. -/
theorem replaceVariable (h : m.Consistent) {before after : List Variable} {v v' : Variable}
    (hvars : m.vars = before ++ v :: after)
    (hname : v'.name = v.name ∨ ProperName v'.name ∧ v'.name ∉ m.vars.map Variable.name)
    (hv' : v.WellFormed m.bundles → v'.WellFormed m.bundles) :
    ({ m with vars := before ++ v' :: after } : Model).Consistent := by
  have hnames := h.vars
  rw [hvars, List.map_append, List.map_cons] at hnames
  refine h.withVars ?_ ?_
  · rw [List.map_append, List.map_cons]
    rcases hname with hname | ⟨hproper, hfresh⟩
    · rwa [hname]
    · -- without the old name the others stay, and the new one is not among them
      refine ProperNames.insert (hnames.sublist ?_) hproper ?_
      · exact (List.Sublist.refl _).append (List.sublist_cons_self _ _)
      · rw [hvars, List.map_append, List.map_cons] at hfresh
        exact fun hmem => hfresh (List.perm_middle.mem_iff.2 (List.mem_cons_of_mem _ hmem))
  · intro w hw
    rcases List.mem_cons.1 (List.perm_middle.mem_iff.1 hw) with rfl | hw
    · exact hv' (h.wellFormed v (by simp [hvars]))
    · refine h.wellFormed w ?_
      rw [hvars]
      exact List.perm_middle.mem_iff.2 (List.mem_cons_of_mem _ hw)

/-- A variable is renamed. -/
theorem renameVariable (h : m.Consistent) {before after : List Variable} {v : Variable}
    {name : String} (hvars : m.vars = before ++ v :: after)
    (hfresh : FreshName (m.vars.map Variable.name) name) :
    ({ m with vars := before ++ v.rename (Text.trim name) :: after } : Model).Consistent := by
  have hname : (v.rename (Text.trim name)).name = Text.trim name := by
    cases v <;> rfl
  refine h.replaceVariable hvars (.inr ?_) fun hv => ?_
  · rw [hname]
    exact ⟨hfresh.visible.properName, hfresh.not_mem⟩
  · cases v with
    | singleton s => trivial
    | aggregate a => exact Aggregate.WellFormed.rename hv _
    | bucket b => exact ⟨hv.size_pos, hv.bundle_mem⟩

/-- A variable is taken out. -/
theorem deleteVariable (h : m.Consistent) {before after : List Variable} {v : Variable}
    (hvars : m.vars = before ++ v :: after) :
    ({ m with vars := before ++ after } : Model).Consistent := by
  have hsub : (before ++ after).Sublist m.vars := by
    rw [hvars]
    exact (List.Sublist.refl before).append (List.sublist_cons_self v after)
  exact h.withVars (h.vars.sublist (hsub.map _)) fun w hw => h.wellFormed w (hsub.subset hw)

/-! ### Bundles and constraints -/

/-- A bundle is declared. Its fields are named like variables. -/
theorem addBundle (h : m.Consistent) {name : String} {fields : List (String × String)}
    (hname : FreshName (m.bundles.map Bundle.name) name) (hfields : ProperFields fields) :
    ({ m with bundles := m.bundles ++ [⟨Text.trim name, fields.map declaredField⟩] } :
      Model).Consistent := by
  refine { h with bundles := ?_, fields := ?_, wellFormed := ?_ }
  · rw [List.map_append]
    exact h.bundles.concat hname
  · intro b hb
    rcases List.mem_append.1 hb with hb | hb
    · exact h.fields b hb
    · obtain rfl := List.mem_singleton.1 hb
      rw [List.map_map]
      refine ⟨hfields.nodup, ?_⟩
      intro n hn
      obtain ⟨f, hf, rfl⟩ := List.mem_map.1 hn
      exact (hfields.name f hf).properName
  · exact fun v hv => (h.wellFormed v hv).mono (List.subset_append_left _ _)

/-- A constraint is added under the name that is generated for it. -/
theorem addConstraint (h : m.Consistent) {c : ModelConstraint}
    (hname : c.name = m.nextConstraintName) :
    ({ m with constraints := m.constraints ++ [c] } : Model).Consistent := by
  refine { h with constraints := ?_ }
  obtain ⟨n, hn, ⟨-, hfresh⟩, -⟩ := exists_isLeast_constraintName m
  rw [List.map_append, List.map_singleton, hname, hn, ← List.concat_eq_append]
  exact h.constraints.concat hfresh

/-! ### All edits -/

/-- An accepted edit keeps a model consistent. -/
theorem step (h : m.Consistent) {e : Edit} (hm : e.Step m m') : m'.Consistent := by
  -- each rule adds one item, drops one or changes one in its place
  cases hm with
  | addSingleton hname => exact h.addVariable hname rfl trivial
  | addAggregate hname _ hsize =>
    exact h.addVariable hname rfl (Aggregate.wellFormed_fresh _ _ hsize)
  | addBundle hname hfields => exact h.addBundle hname hfields
  | addBucket hname hbundle hsize =>
    exact h.addVariable hname rfl ⟨UInt64.pos_iff_ne_zero.2 hsize, hbundle⟩
  | addSharedDomain _ hfresh =>
    refine { h with sharedDomains := ?_ }
    rw [List.map_append, List.map_singleton, ← List.concat_eq_append]
    dsimp only
    exact h.sharedDomains.concat hfresh
  | addTable => exact { h with }
  | addExpression | addAllDifferent => exact h.addConstraint rfl
  | deleteVariable hvars => exact h.deleteVariable hvars
  | deleteSharedDomain hdomains =>
    refine { h with sharedDomains := (h.sharedDomains.sublist ?_) }
    rw [hdomains]
    exact ((List.Sublist.refl _).append (List.sublist_cons_self _ _)).map _
  | deleteConstraint hconstraints =>
    refine { h with constraints := (h.constraints.sublist ?_) }
    rw [hconstraints]
    exact ((List.Sublist.refl _).append (List.sublist_cons_self _ _)).map _
  | renameVariable hname hvars => exact h.renameVariable hvars hname
  | resizeAggregate hvars _ hsize =>
    exact h.replaceVariable hvars (.inl rfl) fun ha => Aggregate.WellFormed.resize ha hsize
  | resizeBucket hvars _ hsize =>
    exact h.replaceVariable hvars (.inl rfl) fun hb =>
      ⟨UInt64.pos_iff_ne_zero.2 hsize, hb.bundle_mem⟩
  | overrideDomain _ hvars =>
    exact h.replaceVariable hvars (.inl rfl) fun ha => Aggregate.WellFormed.overrideDomain ha _ _

/-- Edits, accepted or rejected, keep a model consistent. -/
theorem editAll (h : m.Consistent) (edits : List Edit) : (m.editAll edits).Consistent :=
  editAll_invariant (fun _ _ _ _ hm => hm.step) h

end Consistent

end Model

end FiniteDomain
