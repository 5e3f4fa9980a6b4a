import FiniteDomain.Proofs.Expression.Wording
import FiniteDomain.Proofs.Model.Editing

/-!
# Names of tables and shared domains

Variables, bundles and fields are kept under the name that was checked, so their names are proper
and differ. Tables and shared domains are not. A table is checked under its trimmed name and kept
under its name as given: white space around the name stays, and two tables can be kept under one
such name. The name of a shared domain is checked before its dollar sign is dropped: a dollar sign
alone leaves no name, and white space after a dollar sign stays.

What the tables and the shared domains of models made by edits can be is said exactly.

## Main definitions

* `DeclaredTables`, `DeclaredDomains`: what edits can make of the tables and of the shared domains.
* `BareDollar`: a name that is given as a dollar sign with nothing or white space after it.

## Main results

* `properName_dropDollar_iff`: only from such a name no proper name is left.
* `Model.tables_editAll`: the tables of models made by edits, and when their names are proper.
* `Model.sharedDomains_editAll`: the shared domains of models made by edits, and when their names
  are proper.
-/

namespace FiniteDomain

/-! ### Proper names -/

/-- A proper name starts and ends visibly. -/
theorem properName_iff {s : String} :
    ProperName s ↔ StartsVisibly s.toList ∧ EndsVisibly s.toList := by
  constructor
  · rintro ⟨hne, htrim⟩
    -- a text that trimming leaves as it is loses nothing at either end
    have hs : Text.trimEnd (Text.trimStart s.toList) = s.toList := by
      simpa [Text.trim] using congrArg String.toList htrim
    have hstart : Text.trimStart s.toList = s.toList := by
      rw [← hs, Text.trimStart_trimEnd]
    have hend : Text.trimEnd s.toList = s.toList := by
      rwa [hstart] at hs
    have hnil : s.toList ≠ [] := by
      simpa using hne
    refine ⟨?_, s.toList.getLast hnil, List.getLast?_eq_some_getLast hnil, ?_⟩
    · obtain ⟨c, rest, hcs⟩ := List.exists_cons_of_ne_nil hnil
      exact ⟨c, rest, hcs, Text.not_isBlank_of_trimStart (hstart.trans hcs)⟩
    · simpa using List.rdropWhile_eq_self_iff.1 hend hnil
  · rintro ⟨⟨c, rest, hs, hc⟩, hend⟩
    have hstart : Text.trimStart s.toList = s.toList := by
      rw [hs]
      exact List.dropWhile_cons_of_neg (by simp [hc])
    have htrim : Text.trimEnd s.toList = s.toList := by
      simpa using trimEnd_append hend isGap_nil
    refine ⟨?_, ?_⟩
    · rintro rfl
      simp at hs
    · rw [Text.trim, hstart, htrim, String.ofList_toList]

/-- A proper name is visible. -/
theorem ProperName.visible {s : String} (h : ProperName s) : Text.Visible s := by
  obtain ⟨⟨c, rest, hs, hc⟩, -⟩ := properName_iff.1 h
  simp [Text.Visible, Text.isBlankText, hs, hc]

/-! ### Tables -/

/-- Tables as edits can declare them: names are visible, and no table has the trimmed name of a
later one. -/
structure DeclaredTables (ts : List Table) : Prop where
  /-- Names are visible. -/
  visible : ∀ t ∈ ts, Text.Visible t.name
  /-- The trimmed name of a table differs from the names of the tables before it. -/
  apart : ts.Pairwise fun s t => s.name ≠ Text.trim t.name

/-- A table is declared after others exactly when its name is fresh. -/
theorem declaredTables_concat_iff {ts : List Table} {t : Table} :
    DeclaredTables (ts ++ [t]) ↔ DeclaredTables ts ∧ FreshName (ts.map Table.name) t.name := by
  constructor
  · rintro ⟨hvisible, hapart⟩
    rw [List.forall_mem_append] at hvisible
    rw [List.pairwise_append] at hapart
    refine ⟨⟨hvisible.1, hapart.1⟩, hvisible.2 t (by simp), ?_⟩
    rw [List.mem_map]
    rintro ⟨s, hs, hname⟩
    exact hapart.2.2 s hs t (by simp) hname
  · rintro ⟨⟨hvisible, hapart⟩, ht, hfresh⟩
    refine ⟨List.forall_mem_append.2 ⟨hvisible, by simpa using ht⟩, ?_⟩
    refine List.pairwise_append.2 ⟨hapart, List.pairwise_singleton _ _, ?_⟩
    intro s hs t' ht' hname
    obtain rfl := List.mem_singleton.1 ht'
    exact hfresh (List.mem_map.2 ⟨s, hs, hname⟩)

/-- Names of declared tables are proper and differ as soon as none has white space around it. -/
theorem DeclaredTables.properNames_iff {ts : List Table} (h : DeclaredTables ts) :
    ProperNames (ts.map Table.name) ↔ ∀ t ∈ ts, Text.trim t.name = t.name := by
  constructor
  · intro hnames t ht
    exact (hnames.proper t.name (List.mem_map_of_mem ht)).2
  · intro htrim
    refine ⟨?_, ?_⟩
    · rw [List.Nodup, List.pairwise_map]
      refine h.apart.imp_of_mem fun _ ht hne => ?_
      rwa [htrim _ ht] at hne
    · intro name hname
      obtain ⟨t, ht, rfl⟩ := List.mem_map.1 hname
      rw [← htrim t ht]
      exact (h.visible t ht).properName

namespace Model

variable {m m' : Model}

/-- Tables are only added, one by one. -/
theorem tables_step {e : Edit} (h : e.Step m m') :
    m'.tables = m.tables ∨
      ∃ t, FreshName (m.tables.map Table.name) t.name ∧ m'.tables = m.tables ++ [t] := by
  cases h with
  | addTable hname => exact .inr ⟨_, hname, rfl⟩
  | _ => exact .inl rfl

/-- However a model is edited, its tables could have been declared one after the other. -/
theorem declaredTables_editAll (name : String) (edits : List Edit) :
    DeclaredTables ((new name).editAll edits).tables := by
  refine editAll_invariant (P := fun m => DeclaredTables m.tables) ?_ ⟨by simp [new], .nil⟩
  intro e _ m m' hm hstep
  rcases tables_step hstep with htables | ⟨t, ht, htables⟩
  · rwa [htables]
  · rw [htables]
    exact declaredTables_concat_iff.2 ⟨hm, ht⟩

/-- Tables that can be declared one after the other are those of some model. -/
theorem exists_tables_editAll (name : String) {ts : List Table} (h : DeclaredTables ts) :
    ∃ edits, ((new name).editAll edits).tables = ts := by
  induction ts using List.reverseRecOn with
  | nil => exact ⟨[], rfl⟩
  | append_singleton ts t ih =>
    -- the last table is declared after edits that make the others
    obtain ⟨hts, ht⟩ := declaredTables_concat_iff.1 h
    obtain ⟨edits, rfl⟩ := ih hts
    refine ⟨edits ++ [.addTable t], ?_⟩
    rw [editAll_concat, edit_of_step (.addTable ht)]

/-- The tables of models made by edits are exactly those with visible names where no table has the
trimmed name of a later one. Their names are proper and differ exactly when none has white space
around it. -/
theorem tables_editAll (name : String) :
    (∀ ts, (∃ edits, ((new name).editAll edits).tables = ts) ↔ DeclaredTables ts) ∧
    ∀ edits, ProperNames (((new name).editAll edits).tables.map Table.name) ↔
      ∀ t ∈ ((new name).editAll edits).tables, Text.trim t.name = t.name := by
  refine ⟨fun ts => ⟨?_, exists_tables_editAll name⟩, fun edits => ?_⟩
  · rintro ⟨edits, rfl⟩
    exact declaredTables_editAll name edits
  · exact (declaredTables_editAll name edits).properNames_iff

/-- A table that is declared twice, under a name with white space in front. -/
def twinTables : List Edit :=
  [.addTable ⟨" t", []⟩, .addTable ⟨" t", []⟩]

/-- Two tables are kept under one name, which has white space in front. -/
theorem tables_editAll_twinTables :
    ((new "m").editAll twinTables).tables.map Table.name = [" t", " t"] ∧
      ¬ ProperNames (((new "m").editAll twinTables).tables.map Table.name) := by
  have hnames : ((new "m").editAll twinTables).tables.map Table.name = [" t", " t"] := by
    decide +kernel
  rw [hnames]
  exact ⟨rfl, fun hproper => absurd hproper.nodup (by decide)⟩

end Model

/-! ### Shared domains -/

/-- Shared domains as edits can declare them: names differ and do not end with white space, and
expressions are visible. -/
structure DeclaredDomains (ds : List SharedDomain) : Prop where
  /-- No name occurs twice. -/
  nodup : (ds.map SharedDomain.name).Nodup
  /-- A name is empty or ends visibly. -/
  name : ∀ d ∈ ds, d.name = "" ∨ EndsVisibly d.name.toList
  /-- Expressions are visible. -/
  expression : ∀ d ∈ ds, Text.Visible d.expression

/-- A shared domain is declared after others exactly when it has a new name, which is empty or ends
visibly, and a visible expression. -/
theorem declaredDomains_concat_iff {ds : List SharedDomain} {d : SharedDomain} :
    DeclaredDomains (ds ++ [d]) ↔ DeclaredDomains ds ∧ d.name ∉ ds.map SharedDomain.name ∧
      (d.name = "" ∨ EndsVisibly d.name.toList) ∧ Text.Visible d.expression := by
  have hnodup : ((ds ++ [d]).map SharedDomain.name).Nodup ↔
      d.name ∉ ds.map SharedDomain.name ∧ (ds.map SharedDomain.name).Nodup := by
    rw [List.map_append, List.map_singleton, ← List.concat_eq_append, List.nodup_concat]
  constructor
  · rintro ⟨hnames, hname, hexpression⟩
    rw [List.forall_mem_append] at hname hexpression
    obtain ⟨hfresh, hnames⟩ := hnodup.1 hnames
    exact ⟨⟨hnames, hname.1, hexpression.1⟩, hfresh, hname.2 d (by simp), hexpression.2 d (by simp)⟩
  · rintro ⟨⟨hnames, hname, hexpression⟩, hfresh, hd, hvisible⟩
    refine ⟨hnodup.2 ⟨hfresh, hnames⟩, ?_, ?_⟩
    · exact List.forall_mem_append.2 ⟨hname, by simpa using hd⟩
    · exact List.forall_mem_append.2 ⟨hexpression, by simpa using hvisible⟩

/-- Shared domains that are left after deletions could have been declared without the others. -/
theorem DeclaredDomains.sublist {ds ds' : List SharedDomain} (h : DeclaredDomains ds)
    (hsub : ds'.Sublist ds) : DeclaredDomains ds' :=
  ⟨h.nodup.sublist (hsub.map _), fun d hd => h.name d (hsub.subset hd),
    fun d hd => h.expression d (hsub.subset hd)⟩

/-- A name that is given as a dollar sign with nothing or white space after it. -/
def BareDollar (name : String) : Prop :=
  ∃ rest, (Text.trim name).toList = '$' :: rest ∧ ¬ StartsVisibly rest

/-- A dollar sign at the start is dropped, and only the first one. -/
theorem dropDollar_of_cons {s : String} {rest : List Char} (h : s.toList = '$' :: rest) :
    dropDollar s = String.ofList rest := by
  rw [dropDollar, h]
  rfl

theorem dropDollar_of_forall_ne {s : String} (h : ∀ rest, s.toList ≠ '$' :: rest) :
    dropDollar s = s := by
  rw [dropDollar]
  split
  · next rest hs => exact absurd hs (h rest)
  · rfl

/-- After its dollar sign is dropped, a proper name is empty or ends visibly. -/
theorem eq_empty_or_endsVisibly_dropDollar {s : String} (h : ProperName s) :
    dropDollar s = "" ∨ EndsVisibly (dropDollar s).toList := by
  have hend := (properName_iff.1 h).2
  by_cases hdollar : ∃ rest, s.toList = '$' :: rest
  · obtain ⟨rest, hs⟩ := hdollar
    rw [dropDollar_of_cons hs, String.toList_ofList]
    by_cases hrest : rest = []
    · rw [hrest]
      exact .inl rfl
    · -- the last character is still there
      obtain ⟨c, hc, hblank⟩ := hend
      rw [hs, List.getLast?_cons_of_ne_nil hrest] at hc
      exact .inr ⟨c, hc, hblank⟩
  · rw [dropDollar_of_forall_ne (by simpa using hdollar)]
    exact .inr hend

/-- A name is proper after its dollar sign is dropped, unless it was given as a bare dollar sign. -/
theorem properName_dropDollar_iff {name : String} (h : Text.Visible name) :
    ProperName (dropDollar (Text.trim name)) ↔ ¬ BareDollar name := by
  have hproper := h.properName
  by_cases hdollar : ∃ rest, (Text.trim name).toList = '$' :: rest
  · obtain ⟨rest, hs⟩ := hdollar
    have hbare : BareDollar name ↔ ¬ StartsVisibly rest := by
      simp [BareDollar, hs]
    have hdrop := eq_empty_or_endsVisibly_dropDollar hproper
    rw [hbare, not_not, dropDollar_of_cons hs, properName_iff, String.toList_ofList]
    rw [dropDollar_of_cons hs, String.toList_ofList] at hdrop
    refine and_iff_left_of_imp fun hstart => hdrop.resolve_left ?_
    rintro hempty
    obtain ⟨c, tail, rfl, -⟩ := hstart
    simp at hempty
  · have hbare : ¬ BareDollar name := by
      rintro ⟨rest, hs, -⟩
      exact hdollar ⟨rest, hs⟩
    rw [dropDollar_of_forall_ne (by simpa using hdollar)]
    exact iff_of_true hproper hbare

/-- A name that is empty or ends visibly is left when it is given with a dollar sign. -/
theorem dropDollar_trim_dollar {name : String} (h : name = "" ∨ EndsVisibly name.toList) :
    Text.Visible ("$" ++ name) ∧ dropDollar (Text.trim ("$" ++ name)) = name := by
  have hlist : ("$" ++ name).toList = '$' :: name.toList := by
    simp
  have hproper : ProperName ("$" ++ name) := by
    rw [properName_iff, hlist]
    refine ⟨⟨'$', name.toList, rfl, by decide⟩, ?_⟩
    rcases h with rfl | hend
    · exact ⟨'$', rfl, by decide⟩
    · exact hend.append ['$']
  refine ⟨hproper.visible, ?_⟩
  rw [hproper.2, dropDollar_of_cons hlist, String.ofList_toList]

namespace Model

variable {m m' : Model}

/-- Shared domains are added one by one or taken out. -/
theorem sharedDomains_step {e : Edit} (h : e.Step m m') :
    m'.sharedDomains.Sublist m.sharedDomains ∨
      ∃ given expression, e = .addSharedDomain given expression ∧ Text.Visible given ∧
        dropDollar (Text.trim given) ∉ m.sharedDomains.map SharedDomain.name ∧
        Text.Visible expression ∧
        m'.sharedDomains = m.sharedDomains ++ [⟨dropDollar (Text.trim given), expression⟩] := by
  cases h with
  | addSharedDomain hname hfresh hexpression =>
    exact .inr ⟨_, _, rfl, hname, hfresh, hexpression, rfl⟩
  | deleteSharedDomain hdomains =>
    rw [hdomains]
    exact .inl ((List.Sublist.refl _).append (List.sublist_cons_self _ _))
  | _ => exact .inl (List.Sublist.refl _)

/-- However a model is edited, its shared domains could have been declared one after the other. -/
theorem declaredDomains_editAll (name : String) (edits : List Edit) :
    DeclaredDomains ((new name).editAll edits).sharedDomains := by
  refine editAll_invariant (P := fun m => DeclaredDomains m.sharedDomains) ?_
    ⟨by simp [new], by simp [new], by simp [new]⟩
  intro e _ m m' hm hstep
  rcases sharedDomains_step hstep with hsub | ⟨given, expression, -, hgiven, hfresh, hexpr, hm'⟩
  · exact hm.sublist hsub
  · rw [hm', declaredDomains_concat_iff]
    dsimp only
    exact ⟨hm, hfresh, eq_empty_or_endsVisibly_dropDollar hgiven.properName, hexpr⟩

/-- Shared domains that can be declared one after the other are those of some model. -/
theorem exists_sharedDomains_editAll (name : String) {ds : List SharedDomain}
    (h : DeclaredDomains ds) : ∃ edits, ((new name).editAll edits).sharedDomains = ds := by
  induction ds using List.reverseRecOn with
  | nil => exact ⟨[], rfl⟩
  | append_singleton ds d ih =>
    obtain ⟨hds, hfresh, hname, hexpr⟩ := declaredDomains_concat_iff.1 h
    obtain ⟨edits, rfl⟩ := ih hds
    obtain ⟨hvisible, hdrop⟩ := dropDollar_trim_dollar hname
    refine ⟨edits ++ [.addSharedDomain ("$" ++ d.name) d.expression], ?_⟩
    rw [editAll_concat, edit_of_step (.addSharedDomain hvisible (by rwa [hdrop]) hexpr), hdrop]

/-- A declared shared domain keeps names proper exactly when it is not given as a bare dollar sign.
-/
theorem forall_properName_of_addSharedDomain {given expression : String}
    (h : Edit.Step m (.addSharedDomain given expression) m') :
    (∀ d ∈ m'.sharedDomains, ProperName d.name) ↔
      (∀ d ∈ m.sharedDomains, ProperName d.name) ∧ ¬ BareDollar given := by
  cases h with
  | addSharedDomain hname =>
    rw [List.forall_mem_append, List.forall_mem_singleton, ← properName_dropDollar_iff hname]

/-- The shared domains of models made by edits are exactly those whose names differ and are empty or
end visibly, with visible expressions. Names are not always proper: exactly the declarations under a
dollar sign with nothing or white space after it break this, and without them it holds. -/
theorem sharedDomains_editAll (name : String) :
    (∀ ds, (∃ edits, ((new name).editAll edits).sharedDomains = ds) ↔ DeclaredDomains ds) ∧
    (∀ m given expression m', Edit.Step m (.addSharedDomain given expression) m' →
      ((∀ d ∈ m'.sharedDomains, ProperName d.name) ↔
        (∀ d ∈ m.sharedDomains, ProperName d.name) ∧ ¬ BareDollar given)) ∧
    ∀ edits, (∀ given expression, .addSharedDomain given expression ∈ edits → ¬ BareDollar given) →
      ∀ d ∈ ((new name).editAll edits).sharedDomains, ProperName d.name := by
  refine ⟨fun ds => ⟨?_, exists_sharedDomains_editAll name⟩,
    fun _ _ _ _ => forall_properName_of_addSharedDomain, fun edits hgiven => ?_⟩
  · rintro ⟨edits, rfl⟩
    exact declaredDomains_editAll name edits
  · refine editAll_invariant (P := fun m => ∀ d ∈ m.sharedDomains, ProperName d.name) ?_
      (by simp [new])
    intro e he m m' hm hstep
    rcases sharedDomains_step hstep with hsub | ⟨given, expression, rfl, -⟩
    · exact fun d hd => hm d (hsub.subset hd)
    · exact (forall_properName_of_addSharedDomain hstep).2 ⟨hm, hgiven given expression he⟩

/-- Shared domains that are given with and without a dollar sign. -/
def tideDomains : List Edit :=
  [.addSharedDomain " $ebb" "1..2", .addSharedDomain "flood " "3..4", .deleteSharedDomain "neap"]

/-- Neither is a bare dollar sign, so their names are proper. -/
theorem sharedDomains_editAll_tideDomains :
    ((new "m").editAll tideDomains).sharedDomains = [⟨"ebb", "1..2"⟩, ⟨"flood", "3..4"⟩] ∧
      ∀ d ∈ ((new "m").editAll tideDomains).sharedDomains, ProperName d.name := by
  have hebb : (Text.trim " $ebb").toList = ['$', 'e', 'b', 'b'] := by decide
  have hflood : (Text.trim "flood ").toList = ['f', 'l', 'o', 'o', 'd'] := by decide
  refine ⟨by decide +kernel, (sharedDomains_editAll "m").2.2 tideDomains ?_⟩
  rintro given expression hmem ⟨rest, hrest, hbare⟩
  simp only [tideDomains, List.mem_cons, List.not_mem_nil, or_false, Edit.addSharedDomain.injEq,
    reduceCtorEq] at hmem
  rcases hmem with ⟨rfl, -⟩ | ⟨rfl, -⟩
  · rw [hebb] at hrest
    obtain rfl := List.tail_eq_of_cons_eq hrest
    exact hbare ⟨'e', _, rfl, by decide⟩
  · rw [hflood] at hrest
    exact absurd (List.head_eq_of_cons_eq hrest) (by decide)

/-- Shared domains that are given as a dollar sign with nothing and with white space after it. -/
def bareDomains : List Edit :=
  [.addSharedDomain "$" "1..2", .addSharedDomain "$ x" "1..2"]

/-- A shared domain without a name, and one whose name starts with white space. -/
theorem sharedDomains_editAll_bareDomains :
    ((new "m").editAll bareDomains).sharedDomains.map SharedDomain.name = ["", " x"] ∧
      ¬ ∀ d ∈ ((new "m").editAll bareDomains).sharedDomains, ProperName d.name := by
  have hdomains : ((new "m").editAll bareDomains).sharedDomains =
      [⟨"", "1..2"⟩, ⟨" x", "1..2"⟩] := by
    decide +kernel
  rw [hdomains]
  refine ⟨rfl, fun hproper => ?_⟩
  exact (hproper _ List.mem_cons_self).1 rfl

end Model

end FiniteDomain
