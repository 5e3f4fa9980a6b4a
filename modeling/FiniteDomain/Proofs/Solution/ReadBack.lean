import FiniteDomain.Proofs.Model.Editing
import FiniteDomain.Proofs.Network.Addressing
import FiniteDomain.Proofs.Solution.Difference

/-!
# Snapshots read assignments back

A snapshot is read through its accessors: the label of a singleton by name, the value of an element
by its aggregate and index, the value of a field by its bucket, copy and name. They give the value
of the first unknown that has the key asked for, while a reference in a constraint leads to the last
one. In a model made by edits no key is repeated, so each unknown is read back.

## Main definitions

* `Snapshot.value?`: what the accessors of a snapshot give for a key.
* `Snapshot.Lists`: a snapshot has the labels of a model, in order, and no others.
* `Network.ReadsBack`: the accessors for a key give the value of an unknown.

## Main results

* `Model.value?_decode`: the accessors of a decoding give the value of the first entry of a key.
* `Model.Consistent.lists_decode`: the labels of a decoding.
* `Model.editAll_reads_back`: assignments of models made by edits are read back.
* `Model.lookup_own_key_iff`: when the keys of a valid model lead to the unknowns that are read.
-/

namespace FiniteDomain

/-- What the accessors of a snapshot give for a key. -/
def Snapshot.value? (s : Snapshot) : UnknownKey → Option Value
  | .singleton name => (s.singleton? name).map Label.value
  | .element aggregate index => (s.aggregate? aggregate).bind fun label => label.valueAt index
  | .field bucket copy field =>
    ((s.bucket? bucket).bind fun label => label.copy? copy).bind fun label => label.get? field

/-- The labels of a snapshot are those of a model in the order of declaration: one for each
singleton; one for each aggregate, with as many values as it has elements; and one for each bucket
that has fields, with these fields in each of its copies. -/
structure Snapshot.Lists (s : Snapshot) (m : Model) : Prop where
  /-- The singletons. -/
  singletons : s.singletons.map Label.name = m.singletons.map Singleton.name
  /-- The aggregates. -/
  aggregates : (s.aggregates.map fun l => (l.name, l.values.length)) =
    m.aggregates.map fun a => (a.name, a.size)
  /-- The buckets. -/
  buckets : (s.buckets.map fun l =>
      (l.name, l.bundles.map fun c => (c.copy, c.labels.map Label.name))) =
    (m.buckets.filter fun b => !(m.fieldNames b).isEmpty).map fun b =>
      (b.name, b.copies.map fun copy => (copy, m.fieldNames b))

namespace Network

/-- Each unknown is given a position of its domain. -/
def Assigns (net : Network) (a : Assignment) : Prop :=
  ∀ n u, net.unknowns[n]? = some u → ∃ p, a.get? n = some p ∧ 1 ≤ p ∧ p ≤ u.domain.sizeWord

/-- Whatever is assigned, the accessors for a key give the value of the unknown of this number. -/
def ReadsBack (net : Network) (key : UnknownKey) (n : Nat) : Prop :=
  ∀ a, net.Assigns a → ∃ s u p value, Snapshot.extract net a = .ok s ∧
    net.unknowns[n]? = some u ∧ a.get? n = some p ∧ u.domain.valueAt p = .ok value ∧
    s.value? key = some value

/-- Positions of the domains make an assignment of all unknowns. -/
theorem assigns_of_represents {net : Network} {v : List Int64} (hv : net.directory.Admits v)
    {a : Assignment} (ha : a.Represents v) : net.Assigns a := by
  intro n u hu
  have hd : net.directory.domains[n]? = some u.domain := by
    rw [getElem?_domains, hu]
    rfl
  obtain ⟨p, hp, hmem⟩ := hv.exists_position hd
  exact ⟨p, (ha n).trans hp, Domain.mem_positions.1 hmem⟩

end Network

/-! ### Entries and labels -/

theorem lookup_cons_of_ne {κ β : Type} [DecidableEq κ] {k k' : κ} (h : k ≠ k') (b : β)
    (xs : List (κ × β)) : ((k', b) :: xs).lookup k = xs.lookup k := by
  rw [List.lookup_cons, beq_false_of_ne h]

/-- What is found by the key of the first item that has it is this item. -/
theorem lookup_eq_some_of_idxOf {κ β : Type} [DecidableEq κ] {xs : List (κ × β)} {n : Nat} {k : κ}
    {b : β} (h : xs[n]? = some (k, b)) (hfirst : (xs.map Prod.fst).idxOf k = n) :
    xs.lookup k = some b := by
  induction xs generalizing n with
  | nil => cases h
  | cons x xs ih =>
    obtain ⟨k', b'⟩ := x
    by_cases hk : k = k'
    · have hzero : n = 0 := by simpa [hk] using hfirst.symm
      rw [hzero] at h
      cases h
      exact List.lookup_cons_self
    · rw [List.map_cons, List.idxOf_cons_ne _ (Ne.symm hk)] at hfirst
      obtain rfl := hfirst
      rw [lookup_cons_of_ne hk]
      exact ih h rfl

/-- An item is found by its name if no other has it. -/
theorem find?_eq_some_of_forall {α κ : Type} [DecidableEq κ] {name : α → κ} {xs : List α} {x : α}
    (hx : x ∈ xs) (honly : ∀ y ∈ xs, name y = name x → y = x) :
    (xs.find? fun y => name y == name x) = some x := by
  cases hfind : xs.find? fun y => name y == name x with
  | none => exact absurd BEq.rfl (List.find?_eq_none.1 hfind x hx)
  | some y =>
    have hname : name y = name x := by simpa using List.find?_some hfind
    rw [honly y (List.mem_of_find?_eq_some hfind) hname]

namespace Snapshot

/-- The label that is found by the name of a singleton has the value of its first entry. -/
theorem find?_singletonLabel? (entries : List (UnknownKey × Value)) (name : String) :
    ((entries.filterMap singletonLabel?).find? fun l => l.name == name).map Label.value =
      entries.lookup (.singleton name) := by
  induction entries with
  | nil => rfl
  | cons e entries ih =>
    obtain ⟨key, value⟩ := e
    cases key with
    | singleton other =>
      rw [List.filterMap_cons_some (f := singletonLabel?) rfl]
      by_cases hname : other = name
      · rw [List.find?_cons_of_pos (by simp [hname]), hname, List.lookup_cons_self]
        rfl
      · rw [List.find?_cons_of_neg (by simp [hname]), ih,
          lookup_cons_of_ne fun h => hname (UnknownKey.singleton.inj h).symm]
    | element | field => rw [List.filterMap_cons_none rfl, ih, lookup_cons_of_ne (by simp)]

/-- A copy gives for a field the value of its first entry. -/
theorem get?_bundleLabel (entries : List (UnknownKey × Value)) (b : Bucket) (copy : UInt64)
    (field : String) :
    (bundleLabel (entries.filterMap fieldLabel?) b copy).get? field =
      entries.lookup (.field b.name copy field) := by
  rw [BundleLabel.get?, bundleLabel]
  dsimp only
  -- the label skips the entries of other copies, and of one field takes the first
  induction entries with
  | nil => rfl
  | cons e entries ih =>
    obtain ⟨key, value⟩ := e
    cases key with
    | field bucket copy' other =>
      rw [List.filterMap_cons_some (f := fieldLabel?) rfl]
      by_cases hcopy : (bucket, copy') = (b.name, copy)
      · cases hcopy
        rw [List.filter_cons_of_pos (by simp), List.map_cons]
        by_cases hfield : other = field
        · rw [List.find?_cons_of_pos (by simp [hfield]), hfield, List.lookup_cons_self]
          rfl
        · rw [List.find?_cons_of_neg (by simp [hfield]), ih,
            lookup_cons_of_ne fun h => hfield (UnknownKey.field.inj h).2.2.symm]
      · rw [List.filter_cons_of_neg (by simpa using hcopy), ih, lookup_cons_of_ne]
        rintro ⟨⟩
        exact hcopy rfl
    | singleton | element => rw [List.filterMap_cons_none rfl, ih, lookup_cons_of_ne (by simp)]

/-- The labels of a copy are those of its entries. -/
theorem map_field_bundleLabel (entries : List (UnknownKey × Value)) (b : Bucket) (copy : UInt64) :
    ((bundleLabel (entries.filterMap fieldLabel?) b copy).labels.map fun l =>
      UnknownKey.field b.name copy l.name) =
        (entries.map Prod.fst).filter fun key => key.copy? = some (b.name, copy) := by
  rw [bundleLabel]
  dsimp only
  induction entries with
  | nil => rfl
  | cons e entries ih =>
    obtain ⟨key, value⟩ := e
    cases key with
    | field bucket copy' other =>
      by_cases hcopy : (bucket, copy') = (b.name, copy)
      · cases hcopy
        simpa [fieldLabel?, UnknownKey.copy?] using ih
      · simpa [fieldLabel?, UnknownKey.copy?, hcopy] using ih
    | singleton | element => simpa [List.filterMap_cons, fieldLabel?, UnknownKey.copy?] using ih

section Buckets

variable {fields : List ((String × UInt64) × Label)} {b : Bucket} {copy : UInt64}

theorem mem_bucketLabel (hcopy : copy ∈ b.copies) (hne : (bundleLabel fields b copy).labels ≠ []) :
    bundleLabel fields b copy ∈ (bucketLabel fields b).bundles := by
  refine List.mem_filter.2 ⟨List.mem_map_of_mem hcopy, ?_⟩
  rwa [Bool.not_eq_true', List.isEmpty_eq_false_iff]

/-- A copy that has fields is found by its number. -/
theorem copy?_bucketLabel (hcopy : copy ∈ b.copies)
    (hne : (bundleLabel fields b copy).labels ≠ []) :
    (bucketLabel fields b).copy? copy = some (bundleLabel fields b copy) := by
  refine find?_eq_some_of_forall (mem_bucketLabel hcopy hne) ?_
  intro l hl hname
  obtain ⟨copy', -, rfl⟩ := List.mem_map.1 (List.mem_of_mem_filter hl)
  rw [show copy' = copy from hname]

/-- A bucket that has fields is found by its name. -/
theorem find?_bucketLabel {bs : List Bucket} (hnodup : (bs.map Bucket.name).Nodup) (hb : b ∈ bs)
    (hne : (bucketLabel fields b).bundles ≠ []) :
    (((bs.map (bucketLabel fields)).filter fun l => !l.bundles.isEmpty).find?
      fun l => l.name == b.name) = some (bucketLabel fields b) := by
  have hmem : bucketLabel fields b ∈
      (bs.map (bucketLabel fields)).filter fun l => !l.bundles.isEmpty := by
    refine List.mem_filter.2 ⟨List.mem_map_of_mem hb, ?_⟩
    rwa [Bool.not_eq_true', List.isEmpty_eq_false_iff]
  refine find?_eq_some_of_forall hmem ?_
  intro l hl hname
  obtain ⟨b', hb', rfl⟩ := List.mem_map.1 (List.mem_of_mem_filter hl)
  rw [List.inj_on_of_nodup_map hnodup hb' hb hname]

end Buckets

/-- The value of an element is found by its index. -/
theorem value?_element (s : Snapshot) (name : String) (i : Nat) :
    s.value? (.element name (i + 1)) = (s.valuesOf name)[i]? := by
  rw [value?, valuesOf]
  cases s.aggregate? name with
  | none => rfl
  | some label => simp [CompoundLabel.valueAt]

/-- There is an entry for each unknown of a sound network, in its place. -/
theorem exists_getElem?_entries {net : Network} (hnet : net.Sound) {v : List Int64}
    (hv : net.directory.Admits v) {n : Nat} {u : Unknown} (hu : net.unknowns[n]? = some u) :
    ∃ p, v[n]? = some p ∧ ∃ x, u.domain.value? p = some x ∧
      (net.directory.entries v)[n]? = some (u.key, x) := by
  obtain ⟨hlength, hvalues⟩ := List.forall₂_iff_zip.1 (haveValues_of_admits hnet hv)
  have hu' : net.unknowns.toList[n]? = some u := by rw [Array.getElem?_toList, hu]
  obtain ⟨p, hp⟩ : ∃ p, v[n]? = some p := by
    have hlt := (List.getElem?_eq_some_iff.1 hu').1
    exact ⟨_, List.getElem?_eq_getElem (hlength ▸ hlt)⟩
  have hpair : (net.unknowns.toList.zip v)[n]? = some (u, p) :=
    List.getElem?_zip_eq_some.2 ⟨hu', hp⟩
  obtain ⟨x, hx⟩ := Option.isSome_iff_exists.1 (hvalues (List.mem_of_getElem? hpair))
  refine ⟨p, hp, x, hx, ?_⟩
  rw [entries_directory, entriesAt, getElem?_filterMap, hpair]
  · simp [hx]
  · rintro ⟨u', p'⟩ hmem
    simpa using hvalues hmem

end Snapshot

/-! ### Decodings -/

/-- The name of a singleton. -/
def UnknownKey.singleton? : UnknownKey → Option String
  | singleton name => some name
  | _ => none

namespace Model

open Snapshot (elementValue? fieldLabel? compoundLabel bundleLabel bucketLabel)

variable {m : Model} {net : Network} {v : List Int64}

section Decode

variable (hnames : (m.vars.map Variable.name).Nodup)
  (hkeys : (m.directory.entries v).map Prod.fst = m.directory.keys)
include hnames hkeys

/-- The value of an element is read at its index. -/
theorem value?_decode_element {name : String} {i : Nat} {x : Value}
    (h : (.element name i, x) ∈ m.directory.entries v) :
    (m.decode v).value? (.element name i) = some x := by
  have hkey : .element name i ∈ m.directory.keys := hkeys ▸ List.mem_map_of_mem h
  obtain ⟨a, ha, rfl, -⟩ := mem_keys_element.1 hkey
  -- the entries of the aggregate are those of its elements in order, so the place tells the index
  have hmem : (.element a.name i, x) ∈
      (m.directory.entries v).filter fun e => e.1.aggregate? = some a.name :=
    List.mem_filter.2 ⟨h, decide_eq_true rfl⟩
  obtain ⟨j, hj⟩ := List.mem_iff_getElem?.1 hmem
  obtain rfl : i = j + 1 :=
    (UnknownKey.element.inj (eq_element_of_getElem? hnames ha hkeys hj)).2
  rw [Snapshot.value?_element, valuesOf_decode hnames ha, List.getElem?_map, hj]
  rfl

/-- The value of a field is read in its copy. -/
theorem value?_decode_field {bucket field : String} {copy : UInt64} {x : Value}
    (h : (m.directory.entries v).lookup (.field bucket copy field) = some x) :
    (m.decode v).value? (.field bucket copy field) = some x := by
  have hkey : .field bucket copy field ∈ m.directory.keys := by
    obtain ⟨before, after, hsplit, -⟩ := List.lookup_eq_some_iff.1 h
    rw [← hkeys, hsplit]
    simp
  obtain ⟨b, hb, rfl, hcopy, -⟩ := mem_keys_field.1 hkey
  rw [← Snapshot.get?_bundleLabel] at h
  -- the copy has a label, and so the bucket has one
  have hlabels : (bundleLabel ((m.directory.entries v).filterMap fieldLabel?) b copy).labels ≠
      [] := by
    intro hnil
    simp [BundleLabel.get?, hnil] at h
  have hbundles := List.ne_nil_of_mem (Snapshot.mem_bucketLabel hcopy hlabels)
  have hbucket : (m.decode v).bucket? b.name = some _ :=
    Snapshot.find?_bucketLabel (nodup_buckets hnames) hb hbundles
  rw [Snapshot.value?, hbucket, Option.bind_some, Snapshot.copy?_bucketLabel hcopy hlabels,
    Option.bind_some, h]

/-- The accessors of a decoding give the value of the first entry of a key. -/
theorem value?_decode {key : UnknownKey} {x : Value}
    (h : (m.directory.entries v).lookup key = some x) : (m.decode v).value? key = some x := by
  cases key with
  | singleton name => exact (Snapshot.find?_singletonLabel? _ name).trans h
  | element name i =>
    obtain ⟨before, after, hsplit, -⟩ := List.lookup_eq_some_iff.1 h
    exact value?_decode_element hnames hkeys (hsplit ▸ List.mem_append_right _ List.mem_cons_self)
  | field bucket copy field => exact value?_decode_field hnames hkeys h

/-! ### The labels of a decoding -/

omit hnames in
/-- The labels of singletons come in the order of declaration. -/
theorem map_name_singletons :
    (m.decode v).singletons.map Label.name = m.singletons.map Singleton.name := by
  have hentries : (m.decode v).singletons.map Label.name =
      m.directory.keys.filterMap UnknownKey.singleton? := by
    rw [← hkeys, decode, List.map_filterMap, List.filterMap_map]
    refine List.filterMap_congr ?_
    rintro ⟨_ | _ | _, value⟩ _ <;> rfl
  have hothers : (m.elementKeys ++ m.fieldKeys).filterMap UnknownKey.singleton? = [] := by
    rw [List.filterMap_eq_nil_iff]
    intro key hkey
    rcases List.mem_append.1 hkey with hkey | hkey
    · obtain ⟨a, -, i, -, -, rfl⟩ := mem_elementKeys.1 hkey
      rfl
    · obtain ⟨b, -, copy, -, field, -, rfl⟩ := mem_fieldKeys.1 hkey
      rfl
  rw [hentries, keys_directory, List.append_assoc, List.filterMap_append, hothers, List.append_nil,
    singletonKeys, List.filterMap_map]
  exact List.filterMap_eq_map_iff_forall_eq_some.2 fun _ _ => rfl

theorem length_compoundLabel {a : Aggregate} (ha : a ∈ m.aggregates) :
    (compoundLabel ((m.directory.entries v).filterMap elementValue?) a).values.length = a.size := by
  rw [Snapshot.values_compoundLabel, ← valuesOf_decode hnames ha, length_valuesOf hnames ha hkeys]

/-- The labels of aggregates come in the order of declaration, if each has elements. -/
theorem map_size_aggregates (hne : ∀ a ∈ m.aggregates, a.elements ≠ []) :
    ((m.decode v).aggregates.map fun l => (l.name, l.values.length)) =
      m.aggregates.map fun a => (a.name, a.size) := by
  -- each has values, so that none is dropped
  have hall : (m.decode v).aggregates =
      m.aggregates.map (compoundLabel ((m.directory.entries v).filterMap elementValue?)) := by
    rw [decode, List.filter_eq_self]
    intro l hl
    obtain ⟨a, ha, rfl⟩ := List.mem_map.1 hl
    rw [Bool.not_eq_true', List.isEmpty_eq_false_iff, ← List.length_pos_iff,
      length_compoundLabel hnames hkeys ha]
    exact List.length_pos_iff.2 (hne a ha)
  rw [hall, List.map_map]
  refine List.map_congr_left fun a ha => ?_
  rw [Function.comp_apply, length_compoundLabel hnames hkeys ha]
  rfl

/-- The labels of a copy are the fields of its bundle in order. -/
theorem map_name_bundleLabel {b : Bucket} (hb : b ∈ m.buckets) {copy : UInt64}
    (hcopy : copy ∈ b.copies) :
    (bundleLabel ((m.directory.entries v).filterMap fieldLabel?) b copy).labels.map Label.name =
      m.fieldNames b := by
  have hfields := Snapshot.map_field_bundleLabel (m.directory.entries v) b copy
  rw [hkeys, filter_copy?_keys hnames hb hcopy, ← Function.comp_def, ← List.map_map] at hfields
  exact List.map_injective_iff.2 (fun _ _ h => (UnknownKey.field.inj h).2.2) hfields

/-- A bucket has a label for each copy, unless there are no fields. -/
theorem bundles_bucketLabel {b : Bucket} (hb : b ∈ m.buckets) :
    (bucketLabel ((m.directory.entries v).filterMap fieldLabel?) b).bundles =
      if (m.fieldNames b).isEmpty then []
      else b.copies.map (bundleLabel ((m.directory.entries v).filterMap fieldLabel?) b) := by
  have hempty : ∀ l ∈ b.copies.map
      (bundleLabel ((m.directory.entries v).filterMap fieldLabel?) b),
        l.labels.isEmpty = (m.fieldNames b).isEmpty := by
    intro l hl
    obtain ⟨copy, hcopy, rfl⟩ := List.mem_map.1 hl
    rw [← map_name_bundleLabel hnames hkeys hb hcopy, List.isEmpty_map]
  rw [bucketLabel]
  split
  · next hfields =>
    rw [List.filter_eq_nil_iff]
    intro l hl
    simp [hempty l hl, hfields]
  · next hfields =>
    rw [List.filter_eq_self]
    intro l hl
    simp [hempty l hl, hfields]

/-- The labels of buckets come in the order of declaration, less those without fields, if each has
copies. -/
theorem map_fields_buckets (hne : ∀ b ∈ m.buckets, b.copies ≠ []) :
    ((m.decode v).buckets.map fun l =>
        (l.name, l.bundles.map fun c => (c.copy, c.labels.map Label.name))) =
      (m.buckets.filter fun b => !(m.fieldNames b).isEmpty).map fun b =>
        (b.name, b.copies.map fun copy => (copy, m.fieldNames b)) := by
  -- those dropped are the ones without fields, since there is a copy for the fields of a bucket
  have hsome : (m.decode v).buckets = (m.buckets.filter fun b => !(m.fieldNames b).isEmpty).map
      (bucketLabel ((m.directory.entries v).filterMap fieldLabel?)) := by
    rw [decode]
    dsimp only
    rw [List.filter_map]
    refine congrArg _ (List.filter_congr fun b hb => ?_)
    rw [Function.comp_apply, bundles_bucketLabel hnames hkeys hb]
    split
    · next hfields => simp [hfields]
    · next hfields => simp [hfields, hne b hb]
  rw [hsome, List.map_map]
  refine List.map_congr_left fun b hb => ?_
  obtain ⟨hb, hfields⟩ := List.mem_filter.1 hb
  rw [Function.comp_apply, bundles_bucketLabel hnames hkeys hb, if_neg (by simpa using hfields),
    List.map_map]
  refine congrArg (Prod.mk b.name) (List.map_congr_left fun copy hcopy => ?_)
  rw [Function.comp_apply, map_name_bundleLabel hnames hkeys hb hcopy]
  rfl

end Decode

/-- The labels of a decoding are those of a consistent model. -/
theorem Consistent.lists_decode (h : m.Consistent)
    (hkeys : (m.directory.entries v).map Prod.fst = m.directory.keys) :
    (m.decode v).Lists m := by
  refine ⟨map_name_singletons hkeys, map_size_aggregates h.vars.nodup hkeys ?_,
    map_fields_buckets h.vars.nodup hkeys ?_⟩
  · intro a ha
    have hwellFormed : a.WellFormed := h.wellFormed _ (mem_aggregates.1 ha)
    exact hwellFormed.nonempty
  · intro b hb
    have hwellFormed : b.WellFormed m.bundles := h.wellFormed _ (mem_buckets.1 hb)
    have hpos : 0 < b.size.toNat := UInt64.lt_iff_toNat_lt.1 hwellFormed.size_pos
    rw [Bucket.copies, Ne, List.map_eq_nil_iff, List.range_eq_nil]
    omega

/-- The fields of a consistent model are not repeated. -/
theorem Consistent.not_repeatsField (h : m.Consistent) (key : UnknownKey) :
    ¬ m.RepeatsField key := by
  refine not_repeatsField_of_nodup (fun b _ => ?_) key
  rw [fieldNames]
  split
  · exact List.nodup_nil
  · next bundle hbundle => exact (h.fields bundle (List.mem_of_find?_eq_some hbundle)).nodup

/-! ### Reading assignments back -/

section Network

variable (hnames : (m.vars.map Variable.name).Nodup) (hbuild : Network.build m = .ok net)
include hnames hbuild

/-- An assignment of all unknowns is read back as the decoding of its positions. -/
theorem exists_extract_eq_decode {a : Assignment} (ha : net.Assigns a) :
    ∃ v, m.directory.Admits v ∧ (∀ n p, v[n]? = some p → a.get? n = some p) ∧
      Snapshot.extract net a = .ok (m.decode v) := by
  obtain ⟨-, hdir, -⟩ := Network.build_eq_ok hbuild
  -- the positions of the unknowns are chosen, whatever else is assigned
  have hposition : ∀ n p, ((List.range net.unknowns.size).map fun n => (a.get? n).getD 0)[n]? =
      some p → a.get? n = some p := by
    intro n p hp
    rw [List.getElem?_map, Option.map_eq_some_iff] at hp
    obtain ⟨k, hk, rfl⟩ := hp
    obtain ⟨hlt, hk⟩ := List.getElem?_eq_some_iff.1 hk
    rw [List.getElem_range] at hk
    subst hk
    rw [List.length_range] at hlt
    obtain ⟨p, hp, -⟩ := ha n _ (Array.getElem?_eq_getElem hlt)
    rw [hp]
    rfl
  have hadmits : m.directory.Admits
      ((List.range net.unknowns.size).map fun n => (a.get? n).getD 0) := by
    rw [← hdir]
    refine ⟨by simp [Network.length_domains], ?_⟩
    intro n d p hd hp
    rw [Network.getElem?_domains, Option.map_eq_some_iff] at hd
    obtain ⟨u, hu, rfl⟩ := hd
    obtain ⟨p', hp', hinside⟩ := ha n u hu
    obtain rfl : p' = p := Option.some.inj (hp'.symm.trans (hposition n p hp))
    exact hinside
  exact ⟨_, hadmits, hposition, extract_eq_decode_of_admits hnames hbuild hadmits hposition⟩

/-- The accessors of a decoding give the value of the first unknown with a key. -/
theorem exists_value?_decode (hv : m.directory.Admits v) {n : Nat} {u : Unknown}
    (hu : net.unknowns[n]? = some u) (hfirst : m.directory.keys.idxOf u.key = n) :
    ∃ p value, v[n]? = some p ∧ u.domain.valueAt p = .ok value ∧
      (m.decode v).value? u.key = some value := by
  obtain ⟨hsound, hdir, -⟩ := Network.build_eq_ok hbuild
  have hkeys := map_fst_entries hbuild hv
  have hadmits : net.directory.Admits v := by rwa [hdir]
  obtain ⟨p, hp, value, hvalue, hentry⟩ := Snapshot.exists_getElem?_entries hsound hadmits hu
  rw [hdir] at hentry
  refine ⟨p, value, hp, ?_, value?_decode hnames hkeys (lookup_eq_some_of_idxOf hentry ?_)⟩
  · simp [Domain.valueAt, hvalue]
  · rw [hkeys, hfirst]

omit hnames in
theorem getElem?_keys_of_build (n : Nat) :
    m.directory.keys[n]? = net.unknowns[n]?.map Unknown.key := by
  rw [← (Network.build_eq_ok hbuild).2.1]
  simp [Network.directory]

/-- Each unknown stands between the first one with its key and the last, which the key leads to. -/
theorem exists_first_last {n : Nat} {u : Unknown} (hu : net.unknowns[n]? = some u) :
    ∃ first last, first ≤ n ∧ n ≤ last ∧
      (∃ u', net.unknowns[first]? = some u' ∧ u'.key = u.key) ∧
      m.directory.keys.idxOf u.key = first ∧ net.lookup u.key = some last ∧
      (first = last ↔ ¬ m.RepeatsField u.key) := by
  have hkey : m.directory.keys[n]? = some u.key := by rw [getElem?_keys_of_build hbuild, hu]; rfl
  obtain ⟨last, hnumber, hfirst, hlast, hiff⟩ := exists_last_of_getElem? hnames hkey
  rw [← (Network.build_eq_ok hbuild).2.1] at hnumber
  refine ⟨_, last, hfirst, hlast, ?_, rfl, hnumber, hiff⟩
  rw [← Option.map_eq_some_iff, ← getElem?_keys_of_build hbuild]
  exact List.getElem?_idxOf (List.mem_of_getElem? hkey)

/-- The accessors for a key read the first unknown that has it. -/
theorem readsBack_first {n : Nat} {u : Unknown} (hu : net.unknowns[n]? = some u)
    (hfirst : m.directory.keys.idxOf u.key = n) : net.ReadsBack u.key n := by
  intro a ha
  obtain ⟨v, hv, hposition, hextract⟩ := exists_extract_eq_decode hnames hbuild ha
  obtain ⟨p, value, hp, hvalue, hread⟩ := exists_value?_decode hnames hbuild hv hu hfirst
  exact ⟨_, u, p, value, hextract, hu, hposition n p hp, hvalue, hread⟩

end Network

/-- An assignment that gives each unknown a position of its domain is read back, if the model is
made by edits and its network can be built. The snapshot has the labels of the model in the order of
declaration and no others, and for each unknown its accessors give the value at its position. -/
theorem editAll_reads_back (name : String) (edits : List Edit)
    (hbuild : Network.build ((new name).editAll edits) = .ok net) {a : Assignment}
    (ha : net.Assigns a) :
    ∃ s, Snapshot.extract net a = .ok s ∧ s.Lists ((new name).editAll edits) ∧
      ∀ n u, net.unknowns[n]? = some u → ∃ p value, a.get? n = some p ∧
        u.domain.valueAt p = .ok value ∧ s.value? u.key = some value := by
  have hmodel := (consistent_new name).editAll edits
  obtain ⟨v, hv, hposition, hextract⟩ := exists_extract_eq_decode hmodel.vars.nodup hbuild ha
  refine ⟨_, hextract, hmodel.lists_decode (map_fst_entries hbuild hv), ?_⟩
  intro n u hu
  -- the key is not repeated, so the first unknown with it is this one
  obtain ⟨first, last, hfirst, hlast, -, hplace, -, hiff⟩ :=
    exists_first_last hmodel.vars.nodup hbuild hu
  have honly := hiff.2 (hmodel.not_repeatsField u.key)
  obtain ⟨p, value, hp, hvalue, hread⟩ :=
    exists_value?_decode hmodel.vars.nodup hbuild hv hu (by omega)
  exact ⟨p, value, hposition n p hp, hvalue, hread⟩

/-- Edits that declare a variable of each kind; some are rejected, and others change what is there.
-/
def rotaEdits : List Edit :=
  [.addSingleton " last " "'a'..'c'", .addAggregate "last" 2 "1..2", .addAggregate "load" 1 "1..3",
    .addBundle "task" [("shift", "1..2"), ("place", "\"dock\", \"yard\"")],
    .addBucket "worker" "task" 2, .resizeBucket "worker" 1, .resizeAggregate "load" 2,
    .addExpression "load[1] < load[2]"]

/-- An assignment of the unknowns that `rotaEdits` declare is read back. -/
theorem editAll_reads_back_rotaEdits :
    ∃ net a, Network.build ((new "rota").editAll rotaEdits) = .ok net ∧ net.Assigns a ∧
      net.unknowns.size = 5 ∧ ∃ s, Snapshot.extract net a = .ok s ∧
        s.Lists ((new "rota").editAll rotaEdits) ∧
        ∀ n u, net.unknowns[n]? = some u → ∃ p value, a.get? n = some p ∧
          u.domain.valueAt p = .ok value ∧ s.value? u.key = some value := by
  obtain ⟨net, h⟩ : ∃ net, Network.build ((new "rota").editAll rotaEdits) = .ok net :=
    isSome_toOption_iff.1 (by decide +kernel)
  have hadmits : net.directory.Admits [2, 3, 1, 2, 1] := by
    rw [(Network.build_eq_ok h).2.1]
    decide +kernel
  have ha := Network.assigns_of_represents hadmits
    (((((Assignment.represents_empty.assign 2).assign 3).assign 1).assign 2).assign 1)
  have hsize : net.unknowns.size = 5 := by rw [← net.length_domains, ← hadmits.length_eq]; rfl
  exact ⟨net, _, h, ha, hsize, editAll_reads_back "rota" rotaEdits h ha⟩

/-- In the network of a valid model a key leads to the last unknown that has it, and the accessors
of snapshots read the first. The two are one and the same unless the key is that of a field which is
listed more than once in the bundle of its bucket. So the key of each unknown leads to the unknown
itself exactly when no such field is repeated. -/
theorem lookup_own_key_iff (hvalid : m.validate.isValid = true)
    (hbuild : Network.build m = .ok net) :
    (∀ n u, net.unknowns[n]? = some u → ∃ first last, first ≤ n ∧ n ≤ last ∧
      net.ReadsBack u.key first ∧ net.lookup u.key = some last ∧
      (first = last ↔ ¬ m.RepeatsField u.key)) ∧
    ((∀ n u, net.unknowns[n]? = some u → net.lookup u.key = some n) ↔
      ∀ u ∈ net.unknowns, ¬ m.RepeatsField u.key) := by
  have hnames := (noFindings_of_isValid hvalid).names
  refine ⟨?_, ?_, ?_⟩
  · intro n u hu
    obtain ⟨first, last, hfirst, hlast, ⟨u', hu', hkey⟩, hplace, hlookup, hiff⟩ :=
      exists_first_last hnames hbuild hu
    have hread := readsBack_first hnames hbuild hu' (by rw [hkey, hplace])
    rw [hkey] at hread
    exact ⟨first, last, hfirst, hlast, hread, hlookup, hiff⟩
  · intro hall u hmem
    obtain ⟨n, hu⟩ := Array.mem_iff_getElem?.1 hmem
    obtain ⟨first, last, -, -, ⟨u', hu', hkey⟩, -, hlookup, hiff⟩ :=
      exists_first_last hnames hbuild hu
    -- the key leads to the first unknown that has it, and to the last
    have hfirst := hall first u' hu'
    rw [hkey, hlookup] at hfirst
    exact hiff.1 (Option.some.inj hfirst).symm
  · intro honce n u hu
    obtain ⟨first, last, hfirst, hlast, -, -, hlookup, hiff⟩ := exists_first_last hnames hbuild hu
    have honly := hiff.2 (honce u (Array.mem_of_getElem? hu))
    rw [hlookup]
    congr 1
    omega

/-- The unknowns of `rosterModel` are those that their keys lead to. -/
theorem lookup_own_key_iff_rosterModel :
    rosterModel.validate.isValid = true ∧ ∃ net, Network.build rosterModel = .ok net ∧
      ∀ n u, net.unknowns[n]? = some u → net.lookup u.key = some n := by
  have hvalid : rosterModel.validate.isValid = true := by decide +kernel
  obtain ⟨net, h⟩ : ∃ net, Network.build rosterModel = .ok net :=
    isSome_toOption_iff.1 (by decide +kernel)
  have hfields : ∀ b ∈ rosterModel.buckets, (rosterModel.fieldNames b).Nodup := by decide
  exact ⟨hvalid, net, h, (lookup_own_key_iff hvalid h).2.2
    fun u _ => not_repeatsField_of_nodup hfields u.key⟩

/-- A bundle that lists a field twice, and a constraint on the field. -/
def twinModel : Model where
  name := "twins"
  vars := [.bucket ⟨"b", "pair", 1⟩]
  sharedDomains := []
  bundles := [⟨"pair", [⟨"f", "1..2"⟩, ⟨"f", "1..2"⟩]⟩]
  tables := []
  constraints := [.expression "second" "b[1].f = 2"]

/-- `twinModel` is valid, but the key of its first unknown leads to the second. A solve answers that
the field is 1, while the constraint says that it is 2. -/
theorem lookup_misses_twinModel :
    twinModel.validate.isValid = true ∧
      (∃ net u, Network.build twinModel = .ok net ∧ net.unknowns[0]? = some u ∧
        u.key = .field "b" 1 "f" ∧ net.lookup u.key = some 1) ∧
      ∃ r, twinModel.solve none = .ok r ∧ r.status = .success ∧
        r.snapshot.value? (.field "b" 1 "f") = some (.int 1) := by
  have hvalid : twinModel.validate.isValid = true := by decide +kernel
  have hanswer : twinModel.answer? =
      some (.success, ⟨[], [], [⟨"b", [⟨1, [⟨"f", .int 1⟩, ⟨"f", .int 2⟩]⟩]⟩]⟩) := by decide +kernel
  have hkeys : ((Network.build twinModel).toOption.bind fun net => net.unknowns[0]?.bind fun u =>
      (net.lookup u.key).map (u.key, ·)) = some (.field "b" 1 "f", 1) := by decide +kernel
  obtain ⟨r, hsolve, hstatus, hsnapshot⟩ := exists_solve_of_answer? hvalid rfl hanswer
  simp only [Option.bind_eq_some_iff, Option.map_eq_some_iff, Prod.mk.injEq] at hkeys
  obtain ⟨net, hnet, u, hu, last, hlookup, hkey, rfl⟩ := hkeys
  refine ⟨hvalid, ⟨net, u, toOption_eq_some_iff.1 hnet, hu, hkey, hlookup⟩, r, hsolve, hstatus, ?_⟩
  rw [hsnapshot]
  rfl

end Model

end FiniteDomain
