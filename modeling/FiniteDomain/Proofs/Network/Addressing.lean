import FiniteDomain.Proofs.Model.Validity
import FiniteDomain.Proofs.Solution.Decoding
import Mathlib.Data.List.Count
import Mathlib.Data.List.Duplicate
import Mathlib.Data.List.Induction
import Mathlib.Data.List.NodupEquivFin

/-!
# How keys address unknowns

A key leads to the last unknown that has it, which is the only one exactly when the key is not
repeated. Variables are told apart by name, elements by their index and copies by their number; what
remains is the fields of a bundle, and these can be repeated in a model that was not made by edits.

## Main definitions

* `Model.fieldNames`: the names of the fields in each copy of a bucket.
* `Model.RepeatsField`: a key of a field that its bundle lists more than once.

## Main results

* `Model.keys_directory`: the keys of the unknowns of a model, group by group.
* `Model.le_of_number?`: a key leads to the last unknown that has it.
* `Model.idxOf_eq_iff_not_duplicate`: the last is the first if the key is not repeated.
* `Model.duplicate_keys_iff`: only keys of repeated fields are repeated.
* `Model.exists_last_of_getElem?`: the first and the last unknown with a key.
-/

namespace FiniteDomain.Model

variable {m : Model}

/-- The names of the fields in each copy of a bucket. -/
def fieldNames (m : Model) (b : Bucket) : List String :=
  match m.bundle? b.bundle with
  | none => []
  | some bundle => bundle.singletons.map Singleton.name

/-- The key is that of a field which is listed more than once in the bundle of its bucket. -/
def RepeatsField (m : Model) : UnknownKey → Prop
  | .field bucket _ field => ∃ b ∈ m.buckets, b.name = bucket ∧ (m.fieldNames b).Duplicate field
  | _ => False

/-- No key is that of a repeated field if no bucket has one. -/
theorem not_repeatsField_of_nodup (h : ∀ b ∈ m.buckets, (m.fieldNames b).Nodup) (key : UnknownKey) :
    ¬ m.RepeatsField key := by
  cases key with
  | singleton | element => exact not_false
  | field bucket copy field =>
    rintro ⟨b, hb, -, hduplicate⟩
    exact hduplicate.not_nodup (h b hb)

/-! ### The keys of a model -/

/-- The keys of the singletons of a model. -/
def singletonKeys (m : Model) : List UnknownKey :=
  m.singletons.map fun s => .singleton s.name

/-- The keys of the elements of its aggregates. -/
def elementKeys (m : Model) : List UnknownKey :=
  m.aggregates.flatMap fun a => (List.range' 1 a.size).map (.element a.name)

/-- The keys of the fields of its buckets, copy by copy. -/
def fieldKeys (m : Model) : List UnknownKey :=
  (m.buckets.flatMap fun b => b.copies.map (b, ·)).flatMap fun g =>
    (m.fieldNames g.1).map (.field g.1.name g.2)

theorem map_key_bucketDeclarations (m : Model) (b : Bucket) :
    (m.bucketDeclarations b).map Declaration.key =
      b.copies.flatMap fun copy => (m.fieldNames b).map (.field b.name copy) := by
  rw [bucketDeclarations, fieldNames]
  cases m.bundle? b.bundle with
  | none => simp
  | some bundle =>
    dsimp only
    rw [List.map_flatMap]
    refine List.flatMap_congr fun copy _ => ?_
    rw [Bucket.copyDeclarations, List.map_map, List.map_map]
    rfl

/-- The keys of the unknowns of a model: those of singletons, of elements, and of fields. -/
theorem keys_directory (m : Model) :
    m.directory.keys = m.singletonKeys ++ m.elementKeys ++ m.fieldKeys := by
  show m.declarations.map Declaration.key = _
  rw [declarations, List.map_append, List.map_append, List.map_map, List.map_flatMap,
    List.map_flatMap, fieldKeys, List.flatMap_assoc]
  congr 1
  · congr 1
    exact List.flatMap_congr fun a _ => map_key_declarations a
  · refine List.flatMap_congr fun b _ => ?_
    rw [map_key_bucketDeclarations, List.flatMap_map]

theorem mem_singletonKeys {key : UnknownKey} :
    key ∈ m.singletonKeys ↔ ∃ s ∈ m.singletons, key = .singleton s.name := by
  simp [singletonKeys, eq_comm]

theorem mem_elementKeys {key : UnknownKey} :
    key ∈ m.elementKeys ↔
      ∃ a ∈ m.aggregates, ∃ i, 1 ≤ i ∧ i ≤ a.size ∧ key = .element a.name i := by
  simp only [elementKeys, List.mem_flatMap, List.mem_map, List.mem_range'_1]
  constructor
  · rintro ⟨a, ha, i, hi, rfl⟩
    exact ⟨a, ha, i, hi.1, by omega, rfl⟩
  · rintro ⟨a, ha, i, hone, hle, rfl⟩
    exact ⟨a, ha, i, ⟨hone, by omega⟩, rfl⟩

theorem mem_fieldKeys {key : UnknownKey} :
    key ∈ m.fieldKeys ↔ ∃ b ∈ m.buckets, ∃ copy ∈ b.copies, ∃ field ∈ m.fieldNames b,
      key = .field b.name copy field := by
  simp only [fieldKeys, List.mem_flatMap, List.mem_map]
  constructor
  · rintro ⟨-, ⟨b, hb, copy, hcopy, rfl⟩, field, hfield, rfl⟩
    exact ⟨b, hb, copy, hcopy, field, hfield, rfl⟩
  · rintro ⟨b, hb, copy, hcopy, field, hfield, rfl⟩
    exact ⟨(b, copy), ⟨b, hb, copy, hcopy, rfl⟩, field, hfield, rfl⟩

/-- The key of an element belongs to an aggregate of its name. -/
theorem mem_keys_element {name : String} {i : Nat} :
    .element name i ∈ m.directory.keys ↔
      ∃ a ∈ m.aggregates, a.name = name ∧ 1 ≤ i ∧ i ≤ a.size := by
  simp only [keys_directory, List.mem_append, mem_singletonKeys, mem_elementKeys, mem_fieldKeys,
    reduceCtorEq, and_false, exists_false, or_false, false_or, UnknownKey.element.injEq]
  constructor
  · rintro ⟨a, ha, _, hone, hle, rfl, rfl⟩
    exact ⟨a, ha, rfl, hone, hle⟩
  · rintro ⟨a, ha, rfl, hone, hle⟩
    exact ⟨a, ha, i, hone, hle, rfl, rfl⟩

/-- The key of a field belongs to a bucket of its name. -/
theorem mem_keys_field {bucket field : String} {copy : UInt64} :
    .field bucket copy field ∈ m.directory.keys ↔
      ∃ b ∈ m.buckets, b.name = bucket ∧ copy ∈ b.copies ∧ field ∈ m.fieldNames b := by
  simp only [keys_directory, List.mem_append, mem_singletonKeys, mem_elementKeys, mem_fieldKeys,
    reduceCtorEq, and_false, exists_false, false_or, UnknownKey.field.injEq]
  constructor
  · rintro ⟨b, hb, _, hcopy, _, hfield, rfl, rfl, rfl⟩
    exact ⟨b, hb, rfl, hcopy, hfield⟩
  · rintro ⟨b, hb, rfl, hcopy, hfield⟩
    exact ⟨b, hb, copy, hcopy, field, hfield, rfl, rfl, rfl⟩

/-! ### Repeated keys -/

/-- Of the numbered places of an item, the last is found from the end. -/
theorem le_of_lookup_reverse_zipIdx {α : Type} [DecidableEq α] {xs : List α} {x : α} {n k : Nat}
    (h : xs.zipIdx.reverse.lookup x = some n) (hk : xs[k]? = some x) : k ≤ n := by
  -- the list is built at its end, where the search starts
  induction xs using List.reverseRecOn with
  | nil => cases h
  | append_singleton xs last ih =>
    rw [List.zipIdx_append, List.reverse_append, List.zipIdx_singleton, List.reverse_singleton,
      List.singleton_append, List.lookup_cons] at h
    have hlt := (List.getElem?_eq_some_iff.1 hk).1
    rw [List.length_append, List.length_singleton] at hlt
    split at h
    · have hn := Option.some.inj h
      omega
    · next hne =>
      have hk' : k < xs.length := by
        by_contra hge
        obtain rfl : k = xs.length := by omega
        rw [List.getElem?_concat_length, Option.some.injEq] at hk
        rw [hk, beq_self_eq_true] at hne
        cases hne
      rw [List.getElem?_append_left hk'] at hk
      exact ih h hk

/-- A key leads to the last unknown that has it. -/
theorem le_of_number? {key : UnknownKey} {n k : Nat} (h : m.directory.number? key = some n)
    (hk : m.directory.keys[k]? = some key) : k ≤ n :=
  le_of_lookup_reverse_zipIdx h hk

/-- The first place of an item is before all others. -/
theorem idxOf_le_of_getElem? {α : Type} [DecidableEq α] {xs : List α} {x : α} {k : Nat}
    (hk : xs[k]? = some x) : xs.idxOf x ≤ k := by
  have htake : x ∈ xs.take (k + 1) :=
    List.mem_of_getElem? ((List.getElem?_take_of_lt (Nat.lt_succ_self k)).trans hk)
  exact Nat.le_of_lt_succ ((List.mem_take_iff_idxOf_lt (List.mem_of_getElem? hk)).1 htake)

/-- The first and the last unknown with a key are the same one exactly when the key is not repeated.
-/
theorem idxOf_eq_iff_not_duplicate {key : UnknownKey} {n : Nat}
    (h : m.directory.number? key = some n) :
    m.directory.keys.idxOf key = n ↔ ¬ m.directory.keys.Duplicate key := by
  rw [List.duplicate_iff_exists_distinct_get]
  constructor
  · rintro rfl ⟨i, j, hij, hi, hj⟩
    have hfirst : m.directory.keys.idxOf key ≤ i := idxOf_le_of_getElem? (by simp [hi])
    have hlast : j ≤ m.directory.keys.idxOf key := le_of_number? h (by simp [hj])
    exact Nat.not_lt.2 (hlast.trans hfirst) (Fin.lt_def.1 hij)
  · intro honce
    have hn := getElem?_keys_of_number? h
    obtain ⟨hlt, hget⟩ := List.getElem?_eq_some_iff.1 hn
    have hle := idxOf_le_of_getElem? hn
    by_contra hne
    refine honce ⟨⟨m.directory.keys.idxOf key, by omega⟩, ⟨n, hlt⟩, ?_, ?_, hget.symm⟩
    · exact Fin.lt_def.2 (Nat.lt_of_le_of_ne hle hne)
    · exact (List.idxOf_get _).symm

section Names

variable (hnames : (m.vars.map Variable.name).Nodup)
include hnames

/-- The unknowns of a copy are the fields of its bundle in order. -/
theorem filter_copy?_keys {b : Bucket} (hb : b ∈ m.buckets) {copy : UInt64}
    (hcopy : copy ∈ b.copies) :
    (m.directory.keys.filter fun key => key.copy? = some (b.name, copy)) =
      (m.fieldNames b).map (.field b.name copy) := by
  have hcopies : ((m.buckets.flatMap fun b => b.copies.map (b, ·)).map
      fun g => some (g.1.name, g.2)).Nodup := by
    have hmap := (Snapshot.nodup_bucket_copies (nodup_buckets hnames)).map
      (Option.some_injective (String × UInt64))
    rwa [List.map_map] at hmap
  have hfields : (m.fieldKeys.filter fun key => key.copy? = some (b.name, copy)) =
      (m.fieldNames b).map (.field b.name copy) := by
    refine filter_flatMap_eq hcopies ?_ (List.mem_flatMap.2 ⟨b, hb, List.mem_map_of_mem hcopy⟩)
    intro g _ key hkey
    obtain ⟨field, -, rfl⟩ := List.mem_map.1 hkey
    rfl
  -- singletons and elements are in no copy
  have hothers : ((m.singletonKeys ++ m.elementKeys).filter
      fun key => key.copy? = some (b.name, copy)) = [] := by
    rw [List.filter_eq_nil_iff]
    intro key hkey
    rcases List.mem_append.1 hkey with hkey | hkey
    · obtain ⟨s, -, rfl⟩ := mem_singletonKeys.1 hkey
      simp [UnknownKey.copy?]
    · obtain ⟨a, -, i, -, -, rfl⟩ := mem_elementKeys.1 hkey
      simp [UnknownKey.copy?]
  rw [keys_directory, List.filter_append, hothers, hfields, List.nil_append]

/-- A key of a singleton is not repeated. -/
theorem count_keys_singleton (name : String) :
    m.directory.keys.count (.singleton name) ≤ 1 := by
  have hsingletons : m.singletonKeys.Nodup := by
    have hmap := (nodup_singletons hnames).map fun _ _ h => UnknownKey.singleton.inj h
    rwa [List.map_map] at hmap
  have helements : m.elementKeys.count (.singleton name) = 0 := by
    simp [List.count_eq_zero, mem_elementKeys]
  have hfields : m.fieldKeys.count (.singleton name) = 0 := by
    simp [List.count_eq_zero, mem_fieldKeys]
  rw [keys_directory, List.count_append, List.count_append, helements, hfields]
  exact List.nodup_iff_count_le_one.1 hsingletons _

/-- A key of an element is not repeated. -/
theorem count_keys_element {a : Aggregate} (ha : a ∈ m.aggregates) (i : Nat) :
    m.directory.keys.count (.element a.name i) ≤ 1 := by
  rw [← List.count_filter (p := fun key => key.aggregate? = some a.name)
      (by simp [UnknownKey.aggregate?]), filter_keys_eq hnames ha]
  have hnodup := (List.nodup_range' (s := 1) (n := a.size)).map
    fun _ _ h => (UnknownKey.element.inj h : a.name = a.name ∧ _).2
  exact List.nodup_iff_count_le_one.1 hnodup _

/-- A key of a field is repeated as often as its bundle lists the field. -/
theorem count_keys_field {b : Bucket} (hb : b ∈ m.buckets) {copy : UInt64}
    (hcopy : copy ∈ b.copies) (field : String) :
    m.directory.keys.count (.field b.name copy field) = (m.fieldNames b).count field := by
  rw [← List.count_filter (p := fun key => key.copy? = some (b.name, copy))
      (by simp [UnknownKey.copy?]), filter_copy?_keys hnames hb hcopy]
  exact List.count_map_of_injective _ _ (fun _ _ h => (UnknownKey.field.inj h).2.2) field

/-- Only keys of repeated fields are repeated. -/
theorem duplicate_keys_iff {key : UnknownKey} (hkey : key ∈ m.directory.keys) :
    m.directory.keys.Duplicate key ↔ m.RepeatsField key := by
  cases key with
  | singleton name =>
    have honce := count_keys_singleton hnames name
    simp only [List.duplicate_iff_two_le_count, RepeatsField, iff_false]
    omega
  | element name i =>
    obtain ⟨a, ha, rfl, -⟩ := mem_keys_element.1 hkey
    have honce := count_keys_element hnames ha i
    simp only [List.duplicate_iff_two_le_count, RepeatsField, iff_false]
    omega
  | field bucket copy field =>
    obtain ⟨b, hb, rfl, hcopy, -⟩ := mem_keys_field.1 hkey
    rw [List.duplicate_iff_two_le_count, count_keys_field hnames hb hcopy,
      ← List.duplicate_iff_two_le_count, RepeatsField]
    constructor
    · exact fun h => ⟨b, hb, rfl, h⟩
    · rintro ⟨b', hb', hname, h⟩
      rwa [List.inj_on_of_nodup_map (nodup_buckets hnames) hb' hb hname] at h

/-- Each unknown stands between the first one with its key and the last, which the key leads to. The
two are different only for repeated fields. -/
theorem exists_last_of_getElem? {key : UnknownKey} {n : Nat}
    (hn : m.directory.keys[n]? = some key) :
    ∃ last, m.directory.number? key = some last ∧ m.directory.keys.idxOf key ≤ n ∧ n ≤ last ∧
      (m.directory.keys.idxOf key = last ↔ ¬ m.RepeatsField key) := by
  have hmem := List.mem_of_getElem? hn
  obtain ⟨d, hd, rfl⟩ := List.mem_map.1 hmem
  obtain ⟨last, hlast⟩ := exists_number_of_mem hd
  refine ⟨last, hlast, idxOf_le_of_getElem? hn, le_of_number? hlast hn, ?_⟩
  rw [idxOf_eq_iff_not_duplicate hlast, duplicate_keys_iff hnames hmem]

end Names

end FiniteDomain.Model
