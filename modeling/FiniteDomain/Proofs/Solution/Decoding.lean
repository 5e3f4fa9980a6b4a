import FiniteDomain.Model.Validation
import FiniteDomain.Proofs.Network.Declaration
import FiniteDomain.Proofs.Search.FirstSolution
import FiniteDomain.Proofs.Solution.Grouping

/-!
# Decoding of choices

A choice of positions is decoded into a snapshot: each position becomes a value of the domain of its
unknown, and the values are listed in the terms of the model. A snapshot that is read back from a
network is the decoding of its positions, provided that no two variables have the same name.

## Main definitions

* `Directory.entries`: the values of a choice with the keys of their unknowns.
* `Model.decode`: the snapshot of a choice.

## Main results

* `Snapshot.extract_eq_ok`: reading an assignment back succeeds and adds the values one by one.
* `Model.foldl_add_entries`: values that are added one by one make the decoding.
-/

namespace FiniteDomain

namespace UnknownKey

/-- The aggregate of an element. -/
def aggregate? : UnknownKey → Option String
  | element name _ => some name
  | _ => none

/-- The bucket and the copy of a field. -/
def copy? : UnknownKey → Option (String × UInt64)
  | field bucket copy _ => some (bucket, copy)
  | _ => none

end UnknownKey

namespace Snapshot

/-- The label of a singleton. -/
def singletonLabel? : UnknownKey × Value → Option Label
  | (.singleton name, value) => some ⟨name, value⟩
  | _ => none

/-- The value of an element, with the aggregate. -/
def elementValue? : UnknownKey × Value → Option (String × Value)
  | (.element name _, value) => some (name, value)
  | _ => none

/-- The label of a field, with the bucket and the copy. -/
def fieldLabel? : UnknownKey × Value → Option ((String × UInt64) × Label)
  | (.field bucket copy name, value) => some ((bucket, copy), ⟨name, value⟩)
  | _ => none

/-- The label of an aggregate: the values of its elements. -/
def compoundLabel (elements : List (String × Value)) (a : Aggregate) : CompoundLabel :=
  ⟨a.name, (elements.filter fun x => x.1 = a.name).map Prod.snd⟩

/-- The labels of the fields of a copy. -/
def bundleLabel (fields : List ((String × UInt64) × Label)) (b : Bucket) (copy : UInt64) :
    BundleLabel :=
  ⟨copy, (fields.filter fun x => x.1 = (b.name, copy)).map Prod.snd⟩

/-- The label of a bucket: its copies, less those without fields. -/
def bucketLabel (fields : List ((String × UInt64) × Label)) (b : Bucket) : BucketLabel :=
  ⟨b.name, (b.copies.map (bundleLabel fields b)).filter fun l => !l.labels.isEmpty⟩

end Snapshot

/-- The value of each unknown under a choice, with its key, in the order of their numbers. -/
def Directory.entries (dir : Directory) (v : List Int64) : List (UnknownKey × Value) :=
  ((dir.keys.zip dir.domains).zip v).filterMap fun ((key, domain), position) =>
    (domain.value? position).map (key, ·)

/-- The snapshot of a choice. It lists the singletons; each aggregate that has elements, with their
values; and each bucket that has fields, with the labels of its copies. -/
def Model.decode (m : Model) (v : List Int64) : Snapshot :=
  let entries := m.directory.entries v
  let elements := entries.filterMap Snapshot.elementValue?
  let fields := entries.filterMap Snapshot.fieldLabel?
  { singletons := entries.filterMap Snapshot.singletonLabel?
    aggregates := (m.aggregates.map (Snapshot.compoundLabel elements)).filter
      fun l => !l.values.isEmpty
    buckets := (m.buckets.map (Snapshot.bucketLabel fields)).filter fun l => !l.bundles.isEmpty }

namespace Snapshot

/-- Adding values one by one fills the three parts of a snapshot independently. -/
theorem foldl_add (entries : List (UnknownKey × Value)) (s : Snapshot) :
    entries.foldl (fun s e => s.add e.1 e.2) s =
      ⟨s.singletons ++ entries.filterMap singletonLabel?,
        (entries.filterMap elementValue?).foldl (fun ls x => addElement x.1 x.2 ls) s.aggregates,
        (entries.filterMap fieldLabel?).foldl (fun ls x => addField x.1.1 x.1.2 x.2 ls)
          s.buckets⟩ := by
  induction entries generalizing s with
  | nil => simp
  | cons e entries ih =>
    obtain ⟨key, value⟩ := e
    rw [List.foldl_cons, ih]
    cases key <;> simp [add, List.filterMap_cons, singletonLabel?, elementValue?, fieldLabel?]

/-! ### The groups of a snapshot -/

/-- Values of elements are collected in labels of aggregates. -/
def compoundCollector : Collector (String × Value) CompoundLabel String where
  key := CompoundLabel.name
  of := Prod.fst
  blank name := ⟨name, []⟩
  add x := extendCompound x.2
  key_blank _ := rfl
  key_add _ _ := rfl

/-- Labels of fields are collected in copies. -/
def bundleCollector : Collector ((String × UInt64) × Label) BundleLabel UInt64 where
  key := BundleLabel.copy
  of x := x.1.2
  blank copy := ⟨copy, []⟩
  add x := extendBundle x.2
  key_blank _ := rfl
  key_add _ _ := rfl

/-- Labels of fields are collected in labels of buckets. -/
def bucketCollector : Collector ((String × UInt64) × Label) BucketLabel String where
  key := BucketLabel.name
  of x := x.1.1
  blank name := ⟨name, []⟩
  add x := extendBucket x.1.2 x.2
  key_blank _ := rfl
  key_add _ _ := rfl

/-- The label of an aggregate lists the values collected for it. -/
theorem group_compoundCollector (name : String) (xs : List (String × Value)) :
    compoundCollector.group name xs = ⟨name, xs.map Prod.snd⟩ := by
  -- the label grows with each value, so it is generalised
  suffices h : ∀ values, xs.foldl (fun l x => compoundCollector.add x l) ⟨name, values⟩ =
      ⟨name, values ++ xs.map Prod.snd⟩ from h []
  induction xs with
  | nil => simp
  | cons x xs ih =>
    intro values
    rw [List.foldl_cons]
    exact (ih (values ++ [x.2])).trans (by simp)

/-- A copy lists the labels collected for it. -/
theorem group_bundleCollector (copy : UInt64) (xs : List ((String × UInt64) × Label)) :
    bundleCollector.group copy xs = ⟨copy, xs.map Prod.snd⟩ := by
  suffices h : ∀ labels, xs.foldl (fun l x => bundleCollector.add x l) ⟨copy, labels⟩ =
      ⟨copy, labels ++ xs.map Prod.snd⟩ from h []
  induction xs with
  | nil => simp
  | cons x xs ih =>
    intro labels
    rw [List.foldl_cons]
    exact (ih (labels ++ [x.2])).trans (by simp)

/-- The label of a bucket holds the copies that its fields are collected in. -/
theorem group_bucketCollector (name : String) (xs : List ((String × UInt64) × Label)) :
    bucketCollector.group name xs = ⟨name, bundleCollector.collect xs []⟩ := by
  suffices h : ∀ bundles, xs.foldl (fun l x => bucketCollector.add x l) ⟨name, bundles⟩ =
      ⟨name, bundleCollector.collect xs bundles⟩ from h []
  induction xs with
  | nil => exact fun _ => rfl
  | cons x xs ih =>
    intro bundles
    rw [List.foldl_cons]
    exact ih _

/-- Values of elements that come aggregate by aggregate make the labels of the aggregates. -/
theorem collect_elements {as : List Aggregate} (hnodup : (as.map Aggregate.name).Nodup)
    {names : Aggregate → List String} (hnames : ∀ a ∈ as, ∀ k ∈ names a, k = a.name)
    {xs : List (String × Value)} (hxs : xs.map Prod.fst = as.flatMap names) :
    compoundCollector.collect xs [] =
      (as.map (compoundLabel xs)).filter fun l => !l.values.isEmpty := by
  nth_rewrite 1 [← flatMap_filter_eq hnodup hnames hxs]
  refine compoundCollector.collect_eq_filter _ _ _ hnodup ?_ ?_ ?_
  · intro a _ x hx
    exact of_decide_eq_true (List.mem_filter.1 hx).2
  · intro a _
    exact group_compoundCollector a.name _
  · intro a _
    simp [compoundLabel]

/-- The copies of a bucket are numbered differently. -/
theorem nodup_copies (b : Bucket) : b.copies.Nodup := by
  refine List.Nodup.map_on ?_ List.nodup_range
  -- the number of copies is a word itself, so that numbering them does not wrap
  intro i hi j hj hij
  have hlt : b.size.toNat < UInt64.size := b.size.toNat_lt
  rw [List.mem_range] at hi hj
  have hnat := congrArg UInt64.toNat hij
  rw [UInt64.toNat_ofNat_of_lt' (by omega), UInt64.toNat_ofNat_of_lt' (by omega)] at hnat
  omega

/-- The copies of all buckets, by the names of the buckets. -/
theorem nodup_bucket_copies {bs : List Bucket} (hnodup : (bs.map Bucket.name).Nodup) :
    ((bs.flatMap fun b => b.copies.map (b, ·)).map fun g => (g.1.name, g.2)).Nodup := by
  rw [List.map_flatMap, List.nodup_flatMap]
  constructor
  · intro b _
    rw [List.map_map]
    exact (nodup_copies b).map fun _ _ h => (Prod.mk.inj h).2
  · refine (List.pairwise_map.1 hnodup).imp ?_
    intro b b' hne
    rw [Function.onFun_apply, List.disjoint_left]
    intro k hk hk'
    simp only [List.mem_map, exists_exists_and_eq_and] at hk hk'
    obtain ⟨copy, -, rfl⟩ := hk
    obtain ⟨copy', -, heq⟩ := hk'
    exact hne (Prod.mk.inj heq).1.symm

/-- The items of a copy among the labels of fields. -/
theorem of_mem_filter {xs : List ((String × UInt64) × Label)} {b : Bucket} {copy : UInt64}
    {x : (String × UInt64) × Label} (hx : x ∈ xs.filter fun x => x.1 = (b.name, copy)) :
    x.1.1 = b.name ∧ x.1.2 = copy := by
  have h : x.1 = (b.name, copy) := of_decide_eq_true (List.mem_filter.1 hx).2
  rw [h]
  exact ⟨rfl, rfl⟩

/-- The labels of a bucket's fields, copy by copy, make its copies. -/
theorem collect_bundles (xs : List ((String × UInt64) × Label)) (b : Bucket) :
    bundleCollector.collect
        (b.copies.flatMap fun copy => xs.filter fun x => x.1 = (b.name, copy)) [] =
      (b.copies.map (bundleLabel xs b)).filter fun l => !l.labels.isEmpty := by
  have hnodup : (b.copies.map id).Nodup := by simpa using nodup_copies b
  refine bundleCollector.collect_eq_filter _ _ _ hnodup ?_ ?_ ?_
  · intro copy _ x hx
    exact (of_mem_filter hx).2
  · intro copy _
    exact group_bundleCollector copy _
  · intro copy _
    simp [bundleLabel]

/-- Labels of fields that come bucket by bucket and copy by copy make the labels of the buckets. -/
theorem collect_fields {bs : List Bucket} (hnodup : (bs.map Bucket.name).Nodup)
    {names : Bucket × UInt64 → List (String × UInt64)}
    (hnames : ∀ g ∈ bs.flatMap (fun b => b.copies.map (b, ·)), ∀ k ∈ names g, k = (g.1.name, g.2))
    {xs : List ((String × UInt64) × Label)}
    (hxs : xs.map Prod.fst = (bs.flatMap fun b => b.copies.map (b, ·)).flatMap names) :
    bucketCollector.collect xs [] =
      (bs.map (bucketLabel xs)).filter fun l => !l.bundles.isEmpty := by
  -- the groups are the copies of all buckets; those of one bucket make its part
  have hparts := flatMap_filter_eq (nodup_bucket_copies hnodup) hnames hxs
  rw [List.flatMap_assoc] at hparts
  simp only [List.flatMap_map] at hparts
  nth_rewrite 1 [← hparts]
  refine bucketCollector.collect_eq_filter _ _ _ hnodup ?_ ?_ ?_
  · intro b _ x hx
    obtain ⟨copy, -, hx⟩ := List.mem_flatMap.1 hx
    exact (of_mem_filter hx).1
  · intro b _
    rw [group_bucketCollector, collect_bundles]
    rfl
  · -- a bucket has a copy with fields exactly when it has a field
    intro b _
    rw [bucketLabel, Bool.eq_iff_iff]
    simp [bundleLabel]

end Snapshot

/-! ### Reading an assignment back -/

namespace Snapshot

/-- The values of unknowns at positions, with their keys. -/
def entriesAt (us : List Unknown) (v : List Int64) : List (UnknownKey × Value) :=
  (us.zip v).filterMap fun (u, position) => (u.domain.value? position).map (u.key, ·)

/-- The unknowns have values at the positions. -/
abbrev HaveValues (us : List Unknown) (v : List Int64) : Prop :=
  List.Forall₂ (fun u position => (u.domain.value? position).isSome = true) us v

/-- There is an entry for each unknown. -/
theorem map_fst_entriesAt {us : List Unknown} {v : List Int64} (h : HaveValues us v) :
    (entriesAt us v).map Prod.fst = us.map Unknown.key := by
  induction h with
  | nil => rfl
  | @cons u position us v hvalue _ ih =>
    obtain ⟨value, hvalue⟩ := Option.isSome_iff_exists.1 hvalue
    simpa [entriesAt, hvalue] using ih

/-- Reading unknowns back adds their entries. -/
theorem foldlM_addUnknown {us : List Unknown} {v : List Int64} (h : HaveValues us v)
    {a : Assignment} {start : Nat} (ha : ∀ i p, v[i]? = some p → a.get? (start + i) = some p)
    (s : Snapshot) :
    (us.zipIdx start).foldlM (addUnknown a) s =
      .ok ((entriesAt us v).foldl (fun s e => s.add e.1 e.2) s) := by
  induction h generalizing start s with
  | nil => rfl
  | @cons u position us v hvalue _ ih =>
    obtain ⟨value, hvalue⟩ := Option.isSome_iff_exists.1 hvalue
    have hposition : a.get? start = some position := ha 0 position rfl
    have hstep : addUnknown a s (u, start) = .ok (s.add u.key value) := by
      simp [addUnknown, hposition, Domain.valueAt, hvalue, bind, Except.bind, pure, Except.pure]
    have hrest : ∀ i p, v[i]? = some p → a.get? (start + 1 + i) = some p := by
      intro i p hp
      rw [Nat.add_assoc, Nat.add_comm 1 i, ha (i + 1) p (List.getElem?_cons_succ.trans hp)]
    rw [List.zipIdx_cons, List.foldlM_cons, hstep]
    exact (ih hrest (s.add u.key value)).trans (by simp [entriesAt, hvalue])

variable {net : Network} {v : List Int64}

/-- The entries of a network are those of its unknowns. -/
theorem entries_directory (net : Network) (v : List Int64) :
    net.directory.entries v = entriesAt net.unknowns.toList v := by
  have hzip : (net.directory.keys.zip net.directory.domains).zip v =
      (net.unknowns.toList.zip v).map fun (u, p) => ((u.key, u.domain), p) := by
    rw [Network.directory, List.zip_map', List.zip_map_left]
    rfl
  rw [Directory.entries, hzip, List.filterMap_map]
  rfl

/-- In a sound network each unknown has a value at the position of a choice. -/
theorem haveValues_of_admits (hnet : net.Sound) (hv : net.directory.Admits v) :
    HaveValues net.unknowns.toList v := by
  have hlength : v.length = net.unknowns.toList.length := by
    rw [hv.length_eq, Network.length_domains, Array.length_toList]
  rw [HaveValues, List.forall₂_iff_get]
  refine ⟨hlength.symm, ?_⟩
  intro n hu hp
  have hd : net.directory.domains[n]? = some (net.unknowns.toList.get ⟨n, hu⟩).domain := by
    rw [Network.getElem?_domains, ← Array.getElem?_toList, List.getElem?_eq_getElem hu]
    rfl
  have hproper := hnet.proper _ (Array.mem_toList_iff.1 (List.get_mem _ ⟨n, hu⟩))
  refine Domain.value?_isSome hproper (Domain.mem_positions.2 ?_)
  exact hv.inside hd (List.getElem?_eq_getElem hp)

/-- Reading an assignment back that makes a choice, and perhaps more, succeeds and adds the values
one by one. -/
theorem extract_eq_ok (hnet : net.Sound) (hv : net.directory.Admits v) {a : Assignment}
    (ha : ∀ i p, v[i]? = some p → a.get? i = some p) :
    extract net a =
      .ok ((net.directory.entries v).foldl (fun s e => s.add e.1 e.2) empty) := by
  rw [extract, entries_directory]
  have hpositions : ∀ i p, v[i]? = some p → a.get? (0 + i) = some p := by simpa using ha
  exact foldlM_addUnknown (haveValues_of_admits hnet hv) hpositions empty

/-- There is an entry for each unknown of a network. -/
theorem map_fst_entries (hnet : net.Sound) (hv : net.directory.Admits v) :
    (net.directory.entries v).map Prod.fst = net.directory.keys := by
  rw [entries_directory, map_fst_entriesAt (haveValues_of_admits hnet hv)]
  rfl

end Snapshot

/-! ### The decoding -/

namespace Model

variable {m : Model}

/-- Variables of one kind are among the variables, so their names differ if all names do. -/
theorem nodup_map_filterMap {α : Type} {kind? : Variable → Option α} {name : α → String}
    (hname : ∀ x a, kind? x = some a → name a = x.name)
    (hnodup : (m.vars.map Variable.name).Nodup) :
    ((m.vars.filterMap kind?).map name).Nodup := by
  refine List.Nodup.sublist ?_ hnodup
  generalize m.vars = vars
  induction vars with
  | nil => simp
  | cons x vars ih =>
    rw [List.filterMap_cons, List.map_cons]
    split
    · exact ih.cons _
    · next a ha =>
      rw [List.map_cons, hname x a ha]
      exact ih.cons_cons _

/-- The aggregates have different names if all variables do. -/
theorem nodup_aggregates (hnodup : (m.vars.map Variable.name).Nodup) :
    (m.aggregates.map Aggregate.name).Nodup := by
  refine nodup_map_filterMap ?_ hnodup
  rintro (_ | _ | _) a ⟨⟩
  rfl

/-- So do the singletons. -/
theorem nodup_singletons (hnodup : (m.vars.map Variable.name).Nodup) :
    (m.singletons.map Singleton.name).Nodup := by
  refine nodup_map_filterMap ?_ hnodup
  rintro (_ | _ | _) s ⟨⟩
  rfl

/-- So do the buckets. -/
theorem nodup_buckets (hnodup : (m.vars.map Variable.name).Nodup) :
    (m.buckets.map Bucket.name).Nodup := by
  refine nodup_map_filterMap ?_ hnodup
  rintro (_ | _ | _) b ⟨⟩
  rfl

theorem map_key_declarations (a : Aggregate) :
    a.declarations.map Declaration.key = (List.range' 1 a.size).map (.element a.name) := by
  refine List.ext_getElem ?_ ?_
  · simp [Aggregate.declarations, Aggregate.size]
  · intro i _ _
    simp [Aggregate.declarations, Nat.add_comm]

/-- The elements among the unknowns of a model come aggregate by aggregate. -/
theorem filter_aggregate?_keys (m : Model) :
    (m.directory.keys.filter fun key => key.aggregate?.isSome) =
      m.aggregates.flatMap fun a => (List.range' 1 a.size).map (.element a.name) := by
  -- only the middle part of the declarations is about elements
  have hsingletons : ((m.singletons.map Singleton.declaration).map Declaration.key).filter
      (fun key => key.aggregate?.isSome) = [] := by
    simp [List.filter_eq_nil_iff, Singleton.declaration, UnknownKey.aggregate?]
  have hbuckets : ((m.buckets.flatMap m.bucketDeclarations).map Declaration.key).filter
      (fun key => key.aggregate?.isSome) = [] := by
    rw [List.filter_eq_nil_iff]
    intro key hkey
    obtain ⟨d, hd, rfl⟩ := List.mem_map.1 hkey
    obtain ⟨b, -, hd⟩ := List.mem_flatMap.1 hd
    rw [bucketDeclarations] at hd
    split at hd
    · simp at hd
    · obtain ⟨copy, -, hd⟩ := List.mem_flatMap.1 hd
      obtain ⟨s, -, rfl⟩ := List.mem_map.1 hd
      simp [UnknownKey.aggregate?]
  have haggregates : (m.aggregates.flatMap Aggregate.declarations).map Declaration.key =
      m.aggregates.flatMap fun a => (List.range' 1 a.size).map (.element a.name) := by
    rw [List.map_flatMap]
    exact List.flatMap_congr fun a _ => map_key_declarations a
  rw [directory, declarations, List.map_append, List.map_append, List.filter_append,
    List.filter_append, hsingletons, hbuckets, haggregates, List.nil_append, List.append_nil,
    List.filter_eq_self]
  intro key hkey
  obtain ⟨a, -, hkey⟩ := List.mem_flatMap.1 hkey
  obtain ⟨i, -, rfl⟩ := List.mem_map.1 hkey
  rfl

theorem filterMap_aggregate?_keys (m : Model) :
    m.directory.keys.filterMap UnknownKey.aggregate? =
      m.aggregates.flatMap fun a => (List.range' 1 a.size).map fun _ => a.name := by
  have hfilter : m.directory.keys.filterMap UnknownKey.aggregate? =
      (m.directory.keys.filter fun key => key.aggregate?.isSome).filterMap
        UnknownKey.aggregate? := by
    rw [List.filterMap_filter]
    refine List.filterMap_congr fun key _ => ?_
    cases key <;> rfl
  rw [hfilter, filter_aggregate?_keys, List.filterMap_flatMap]
  refine List.flatMap_congr fun a _ => ?_
  rw [List.filterMap_map]
  exact List.filterMap_eq_map_iff_forall_eq_some.2 fun _ _ => rfl

/-- The unknowns of an aggregate are its elements in order. -/
theorem filter_keys_eq (hnodup : (m.vars.map Variable.name).Nodup) {a : Aggregate}
    (ha : a ∈ m.aggregates) :
    (m.directory.keys.filter fun key => key.aggregate? = some a.name) =
      (List.range' 1 a.size).map (.element a.name) := by
  have hnames : (m.aggregates.map fun a => some a.name).Nodup := by
    rw [← Function.comp_def, ← List.map_map]
    exact (nodup_aggregates hnodup).map (Option.some_injective _)
  have hfilter : (m.directory.keys.filter fun key => key.aggregate? = some a.name) =
      (m.directory.keys.filter fun key => key.aggregate?.isSome).filter
        fun key => key.aggregate? = some a.name := by
    rw [List.filter_filter]
    refine List.filter_congr fun key _ => ?_
    cases key <;> simp [UnknownKey.aggregate?]
  rw [hfilter, filter_aggregate?_keys]
  refine filter_flatMap_eq hnames ?_ ha
  intro a _ key hkey
  obtain ⟨i, -, rfl⟩ := List.mem_map.1 hkey
  rfl

/-- The fields among the unknowns of a model come bucket by bucket and copy by copy. -/
theorem filterMap_copy?_keys (m : Model) :
    m.directory.keys.filterMap UnknownKey.copy? =
      (m.buckets.flatMap fun b => b.copies.map (b, ·)).flatMap fun g =>
        match m.bundle? g.1.bundle with
        | none => []
        | some bundle => bundle.singletons.map fun _ => (g.1.name, g.2) := by
  -- only the last part of the declarations is about fields
  have hsingletons : (m.singletons.map Singleton.declaration).filterMap
      (fun d => UnknownKey.copy? d.key) = [] := by
    rw [List.filterMap_map, List.filterMap_eq_nil_iff]
    exact fun _ _ => rfl
  have haggregates : (m.aggregates.flatMap Aggregate.declarations).filterMap
      (fun d => UnknownKey.copy? d.key) = [] := by
    rw [List.filterMap_eq_nil_iff]
    intro d hd
    obtain ⟨a, -, hd⟩ := List.mem_flatMap.1 hd
    obtain ⟨i, -, rfl⟩ := List.mem_mapIdx.1 hd
    rfl
  have hbucket (b : Bucket) : (m.bucketDeclarations b).filterMap
      (fun d => UnknownKey.copy? d.key) = b.copies.flatMap fun copy =>
        match m.bundle? b.bundle with
        | none => []
        | some bundle => bundle.singletons.map fun _ => (b.name, copy) := by
    rw [bucketDeclarations]
    cases m.bundle? b.bundle with
    | none => simp
    | some bundle =>
      dsimp only
      rw [List.filterMap_flatMap]
      refine List.flatMap_congr fun copy _ => ?_
      rw [Bucket.copyDeclarations, List.filterMap_map]
      exact List.filterMap_eq_map_iff_forall_eq_some.2 fun _ _ => rfl
  rw [directory, declarations, List.filterMap_map]
  show List.filterMap (fun d : Declaration => UnknownKey.copy? d.key) _ = _
  rw [List.filterMap_append, List.filterMap_append, hsingletons, haggregates, List.nil_append,
    List.nil_append, List.filterMap_flatMap, List.flatMap_assoc]
  refine List.flatMap_congr fun b _ => ?_
  rw [hbucket, List.flatMap_map]

/-- Values that are added one by one make the decoding, if the variables have different names. -/
theorem foldl_add_entries (hnodup : (m.vars.map Variable.name).Nodup) {v : List Int64}
    (hkeys : (m.directory.entries v).map Prod.fst = m.directory.keys) :
    (m.directory.entries v).foldl (fun s e => s.add e.1 e.2) .empty = m.decode v := by
  rw [Snapshot.foldl_add, decode]
  congr 1
  · -- the entries of elements come aggregate by aggregate, as the keys do
    have helements : ((m.directory.entries v).filterMap Snapshot.elementValue?).map Prod.fst =
        m.directory.keys.filterMap UnknownKey.aggregate? := by
      rw [← hkeys, List.map_filterMap, List.filterMap_map]
      refine List.filterMap_congr ?_
      rintro ⟨_ | _ | _, value⟩ _ <;> rfl
    refine Snapshot.collect_elements (nodup_aggregates hnodup) ?_
      (helements.trans m.filterMap_aggregate?_keys)
    intro a _ k hk
    obtain ⟨_, -, rfl⟩ := List.mem_map.1 hk
    rfl
  · -- the entries of fields come copy by copy, as the keys do
    have hfields : ((m.directory.entries v).filterMap Snapshot.fieldLabel?).map Prod.fst =
        m.directory.keys.filterMap UnknownKey.copy? := by
      rw [← hkeys, List.map_filterMap, List.filterMap_map]
      refine List.filterMap_congr ?_
      rintro ⟨_ | _ | _, value⟩ _ <;> rfl
    refine Snapshot.collect_fields (nodup_buckets hnodup) ?_ (hfields.trans m.filterMap_copy?_keys)
    intro g _ k hk
    split at hk
    · simp at hk
    · obtain ⟨_, -, rfl⟩ := List.mem_map.1 hk
      rfl

end Model

end FiniteDomain
