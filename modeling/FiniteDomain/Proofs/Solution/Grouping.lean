import FiniteDomain.Solution.Snapshot
import Mathlib.Data.List.Nodup

/-!
# Groups of values

A snapshot is filled with one value after the other, and each joins the last group or opens a new
one. When the values come group by group, this collects for each group the values that belong to it,
wherever they stand.

## Main definitions

* `Snapshot.Collector`: how items are collected in groups.

## Main results

* `flatMap_filter_eq`: a list whose items come group by group is put together from its groups.
* `filter_flatMap_eq`: the items of one name make the group of that name.
* `Snapshot.Collector.collect_eq_filter`: collecting such a list gives the groups that have items.
-/

namespace FiniteDomain

section Parts

variable {α ι κ : Type} [DecidableEq κ] {name : ι → κ} {of : α → κ}

/-- Items of a single other name are not picked. -/
theorem filter_eq_nil_of_name_ne {xs : List α} {k k' : κ} (hxs : ∀ x ∈ xs, of x = k)
    (hne : k ≠ k') : xs.filter (fun x => of x = k') = [] := by
  rw [List.filter_eq_nil_iff]
  intro x hx heq
  exact hne ((hxs x hx).symm.trans (by simpa using heq))

/-- The items of a name, in a list that is put together from parts with different names, are those
of its part. -/
theorem filter_flatMap_eq {part : ι → List α} {gs : List ι} (hnodup : (gs.map name).Nodup)
    (hpart : ∀ g ∈ gs, ∀ x ∈ part g, of x = name g) {g : ι} (hg : g ∈ gs) :
    (gs.flatMap part).filter (fun x => of x = name g) = part g := by
  induction gs with
  | nil => cases hg
  | cons g' gs ih =>
    rw [List.map_cons, List.nodup_cons] at hnodup
    obtain ⟨hhead, htail⟩ := List.forall_mem_cons.1 hpart
    rw [List.flatMap_cons, List.filter_append]
    rcases List.mem_cons.1 hg with rfl | hg
    · -- later parts have other names
      have hnone : (gs.flatMap part).filter (fun x => of x = name g) = [] := by
        rw [List.filter_eq_nil_iff]
        intro x hx heq
        obtain ⟨g', hg', hx⟩ := List.mem_flatMap.1 hx
        refine hnodup.1 (List.mem_map.2 ⟨g', hg', ?_⟩)
        rw [← htail g' hg' x hx]
        simpa using heq
      rw [hnone, List.append_nil, List.filter_eq_self]
      simpa using hhead
    · have hne : name g' ≠ name g := fun heq => hnodup.1 (List.mem_map.2 ⟨g, hg, heq.symm⟩)
      rw [filter_eq_nil_of_name_ne hhead hne, List.nil_append, ih hnodup.2 htail hg]

/-- A list whose items come group by group is put together from its groups. -/
theorem flatMap_filter_eq {names : ι → List κ} {gs : List ι} (hnodup : (gs.map name).Nodup)
    (hnames : ∀ g ∈ gs, ∀ k ∈ names g, k = name g) {xs : List α}
    (hxs : xs.map of = gs.flatMap names) :
    (gs.flatMap fun g => xs.filter fun x => of x = name g) = xs := by
  induction gs generalizing xs with
  | nil => simpa [eq_comm] using hxs
  | cons g gs ih =>
    rw [List.map_cons, List.nodup_cons] at hnodup
    obtain ⟨hhead, htail⟩ := List.forall_mem_cons.1 hnames
    rw [List.flatMap_cons, List.map_eq_append_iff] at hxs
    obtain ⟨first, rest, rfl, hfirst, hrest⟩ := hxs
    have hof : ∀ x ∈ first, of x = name g :=
      fun x hx => hhead _ (hfirst ▸ List.mem_map_of_mem hx)
    -- the first group has all items of its name, since the names of later groups differ
    have hthis : (first ++ rest).filter (fun x => of x = name g) = first := by
      have hnone : rest.filter (fun x => of x = name g) = [] := by
        rw [List.filter_eq_nil_iff]
        intro x hx heq
        obtain ⟨g', hg', hx'⟩ := List.mem_flatMap.1 (hrest ▸ List.mem_map_of_mem hx)
        refine hnodup.1 (List.mem_map.2 ⟨g', hg', ?_⟩)
        rw [← htail g' hg' _ hx']
        simpa using heq
      rw [List.filter_append, hnone, List.append_nil, List.filter_eq_self]
      simpa using hof
    have hothers : (gs.flatMap fun g' => (first ++ rest).filter fun x => of x = name g') =
        gs.flatMap fun g' => rest.filter fun x => of x = name g' := by
      refine List.flatMap_congr fun g' hg' => ?_
      have hne : name g ≠ name g' :=
        fun heq => hnodup.1 (List.mem_map.2 ⟨g', hg', heq.symm⟩)
      rw [List.filter_append, filter_eq_nil_of_name_ne hof hne, List.nil_append]
    rw [List.flatMap_cons, hthis, hothers, ih hnodup.2 htail hrest]

end Parts

namespace Snapshot

variable {α γ κ : Type} [DecidableEq κ] {key : γ → κ}

/-- The last group is extended if it has the key. -/
theorem addToGroup_concat {k : κ} {g : γ} (hg : key g = k) (b : γ) (f : γ → γ) (ls : List γ) :
    addToGroup key k b f (ls ++ [g]) = ls ++ [f g] := by
  induction ls with
  | nil => simp [addToGroup, hg]
  | cons l ls ih =>
    have hne : ls ++ [g] ≠ [] := by simp
    rw [List.cons_append, addToGroup, ih]
    · rfl
    · exact fun h => hne h

/-- A group is opened if none has the key. -/
theorem addToGroup_of_forall_ne {k : κ} {ls : List γ} (hls : ∀ l ∈ ls, key l ≠ k) (b : γ)
    (f : γ → γ) : addToGroup key k b f ls = ls ++ [f b] := by
  induction ls with
  | nil => rfl
  | cons l ls ih =>
    obtain ⟨hl, hls⟩ := List.forall_mem_cons.1 hls
    by_cases hne : ls = []
    · simp [hne, addToGroup, hl]
    · rw [addToGroup, ih hls]
      · rfl
      · exact fun h => hne h

/-- A way to collect items in groups. -/
structure Collector (α γ κ : Type) where
  /-- The key of a group. -/
  key : γ → κ
  /-- The key of the group that an item belongs to. -/
  of : α → κ
  /-- The group of a key before it has items. -/
  blank : κ → γ
  /-- A group with one more item. -/
  add : α → γ → γ
  key_blank : ∀ k, key (blank k) = k
  key_add : ∀ x g, key (add x g) = key g

namespace Collector

variable (c : Collector α γ κ)

/-- The group of a key with the given items. -/
def group (k : κ) (xs : List α) : γ :=
  xs.foldl (fun g x => c.add x g) (c.blank k)

/-- Adds items one after the other, each to the last group or to a new one. -/
def collect (xs : List α) (groups : List γ) : List γ :=
  xs.foldl (fun gs x => addToGroup c.key (c.of x) (c.blank (c.of x)) (c.add x) gs) groups

omit [DecidableEq κ] in
theorem key_foldl (xs : List α) (g : γ) : c.key (xs.foldl (fun g x => c.add x g) g) = c.key g := by
  induction xs generalizing g with
  | nil => rfl
  | cons x xs ih => rw [List.foldl_cons, ih, c.key_add]

/-- Items of one key extend the last group if it has that key. -/
theorem collect_concat {k : κ} {xs : List α} (hxs : ∀ x ∈ xs, c.of x = k) {g : γ}
    (hg : c.key g = k) (groups : List γ) :
    c.collect xs (groups ++ [g]) = groups ++ [xs.foldl (fun g x => c.add x g) g] := by
  induction xs generalizing g with
  | nil => rfl
  | cons x xs ih =>
    obtain ⟨hx, hxs⟩ := List.forall_mem_cons.1 hxs
    rw [collect, List.foldl_cons, List.foldl_cons, addToGroup_concat (hg.trans hx.symm)]
    exact ih hxs ((c.key_add x g).trans hg)

/-- Items of one key that no group has yet open one group, if there are any. -/
theorem collect_of_forall_ne {k : κ} {xs : List α} (hxs : ∀ x ∈ xs, c.of x = k)
    {groups : List γ} (hgroups : ∀ g ∈ groups, c.key g ≠ k) :
    c.collect xs groups = groups ++ if xs.isEmpty then [] else [c.group k xs] := by
  cases xs with
  | nil => simp [collect]
  | cons x xs =>
    obtain ⟨rfl, hxs⟩ := List.forall_mem_cons.1 hxs
    have hkey : c.key (c.add x (c.blank (c.of x))) = c.of x :=
      (c.key_add x _).trans (c.key_blank _)
    rw [collect, List.foldl_cons, addToGroup_of_forall_ne hgroups]
    exact c.collect_concat hxs hkey groups

/-- Items that come group by group are collected in the groups that have items. -/
theorem collect_flatMap {ι : Type} {name : ι → κ} {part : ι → List α} {gs : List ι}
    (hnodup : (gs.map name).Nodup) (hpart : ∀ g ∈ gs, ∀ x ∈ part g, c.of x = name g)
    {groups : List γ} (hgroups : ∀ l ∈ groups, ∀ g ∈ gs, c.key l ≠ name g) :
    c.collect (gs.flatMap part) groups =
      groups ++ (gs.filter fun g => !(part g).isEmpty).map fun g => c.group (name g) (part g) := by
  induction gs generalizing groups with
  | nil => simp [collect]
  | cons g gs ih =>
    rw [List.map_cons, List.nodup_cons] at hnodup
    obtain ⟨hhead, htail⟩ := List.forall_mem_cons.1 hpart
    have hgroups' : ∀ l ∈ groups, ∀ g' ∈ gs, c.key l ≠ name g' :=
      fun l hl g' hg' => hgroups l hl g' (List.mem_cons_of_mem _ hg')
    have hfirst := c.collect_of_forall_ne hhead fun l hl => hgroups l hl g List.mem_cons_self
    rw [List.flatMap_cons, collect, List.foldl_append, ← collect, ← collect, hfirst]
    by_cases hempty : (part g).isEmpty = true
    · rw [if_pos hempty, List.append_nil, List.filter_cons_of_neg (by simp [hempty])]
      exact ih hnodup.2 htail hgroups'
    · rw [if_neg hempty, List.filter_cons_of_pos (by simp [hempty]), List.map_cons,
        ih hnodup.2 htail, List.append_assoc]
      · rfl
      · -- the group of `g` is no group of a later name
        intro l hl g' hg'
        rcases List.mem_append.1 hl with hl | hl
        · exact hgroups' l hl g' hg'
        · rw [List.mem_singleton.1 hl, group, key_foldl, c.key_blank]
          exact fun heq => hnodup.1 (List.mem_map.2 ⟨g', hg', heq.symm⟩)

/-- Items that come group by group make the labels of their groups, less the empty ones. -/
theorem collect_eq_filter {ι : Type} {name : ι → κ} (part : ι → List α) (label : ι → γ)
    (full : γ → Bool) {gs : List ι} (hnodup : (gs.map name).Nodup)
    (hpart : ∀ g ∈ gs, ∀ x ∈ part g, c.of x = name g)
    (hlabel : ∀ g ∈ gs, c.group (name g) (part g) = label g)
    (hfull : ∀ g ∈ gs, full (label g) = !(part g).isEmpty) :
    c.collect (gs.flatMap part) [] = (gs.map label).filter full := by
  rw [c.collect_flatMap hnodup hpart (by simp), List.nil_append, List.filter_map]
  have hsame : gs.filter (fun g => !(part g).isEmpty) = gs.filter (full ∘ label) :=
    List.filter_congr fun g hg => (hfull g hg).symm
  rw [hsame]
  exact List.map_congr_left fun g hg => hlabel g (List.mem_of_mem_filter hg)

end Collector

end Snapshot

end FiniteDomain
