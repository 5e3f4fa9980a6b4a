import FiniteDomain.Proofs.Solution.ReadBack

/-!
# The labels of a solved model

When a model made by edits is solved, each of its variables has one label: a singleton its value, an
aggregate as many values as it has elements, a bucket its copies in order with the fields of its
bundle. Labels come from the unknowns that are visited, so there is one exception: a bucket whose
bundle has no fields has no unknowns, and it has no label.

## Main definitions

* `Snapshot.Labels`: what the labels of a snapshot say about each variable of a model.

## Main results

* `Snapshot.Lists.labels`: the labels listed for a model whose variables have different names.
* `Model.editAll_solve_labels`: the labels of a solved model.
* `Model.editAll_solve_misses_idleEdits`: a bucket without a label.
-/

namespace FiniteDomain

/-- If two lists agree in names and contents, and names differ, then what has the name of an item of
one list is a single item of the other, with the same contents. -/
theorem exists_filter_eq_singleton {α β γ : Type} [DecidableEq α] {xs : List α} {ys : List β}
    {f : α → String × γ} {g : β → String × γ} (h : xs.map f = ys.map g)
    (hnodup : (ys.map fun y => (g y).1).Nodup) {y : β} (hy : y ∈ ys) :
    ∃ x, xs.filter (fun x => (f x).1 = (g y).1) = [x] ∧ f x = g y := by
  obtain ⟨x, hx, hxy⟩ : ∃ x ∈ xs, f x = g y := by
    rw [← List.mem_map, h]
    exact List.mem_map_of_mem hy
  have hnames : (xs.map fun x => (f x).1).Nodup := by
    have hfst := congrArg (List.map Prod.fst) h
    rw [List.map_map, List.map_map] at hfst
    exact hfst ▸ hnodup
  have honly : xs.filter (fun x => (f x).1 = (g y).1) = xs.filter (· = x) := by
    refine List.filter_congr fun x' hx' => ?_
    rw [← hxy, decide_eq_decide]
    exact ⟨List.inj_on_of_nodup_map hnames hx' hx, fun heq => by rw [heq]⟩
  refine ⟨x, ?_, hxy⟩
  rw [honly, List.filter_eq, List.count_eq_one_of_mem hnames.of_map hx]
  rfl

namespace Snapshot

/-- Each variable of a model has one label in a snapshot, unless it is a bucket without fields,
which has none. -/
structure Labels (s : Snapshot) (m : Model) : Prop where
  /-- A singleton has one label. -/
  singleton : ∀ v ∈ m.singletons, ∃ l, s.singletons.filter (fun l => l.name = v.name) = [l]
  /-- An aggregate has one label, with as many values as it has elements. -/
  aggregate : ∀ a ∈ m.aggregates, ∃ l, s.aggregates.filter (fun l => l.name = a.name) = [l] ∧
    l.values.length = a.size
  /-- A bucket with fields has one label, with copies numbered from 1 to its size in order and the
  fields of its bundle in order in each. -/
  bucket : ∀ b ∈ m.buckets, m.fieldNames b ≠ [] →
    ∃ l, s.buckets.filter (fun l => l.name = b.name) = [l] ∧
      l.bundles.map BundleLabel.copy =
        (List.range' 1 b.size.toNat).map UInt64.ofNat ∧
      ∀ c ∈ l.bundles, c.labels.map Label.name = m.fieldNames b
  /-- A bucket without fields has no label. -/
  fieldless : ∀ b ∈ m.buckets, m.fieldNames b = [] →
    s.buckets.filter (fun l => l.name = b.name) = []

theorem Lists.labels {s : Snapshot} {m : Model} (h : s.Lists m)
    (hnames : (m.vars.map Variable.name).Nodup) : s.Labels m := by
  have hbucketNames := Model.nodup_buckets hnames
  refine ⟨?_, ?_, ?_, ?_⟩
  · intro v hv
    have hlabels : s.singletons.map (fun l => (l.name, ())) =
        m.singletons.map fun v => (v.name, ()) := by
      simpa [Function.comp_def] using congrArg (List.map (·, ())) h.singletons
    obtain ⟨l, hl, -⟩ := exists_filter_eq_singleton hlabels (Model.nodup_singletons hnames) hv
    exact ⟨l, hl⟩
  · intro a ha
    obtain ⟨l, hl, heq⟩ :=
      exists_filter_eq_singleton h.aggregates (Model.nodup_aggregates hnames) ha
    exact ⟨l, hl, (Prod.mk.inj heq).2⟩
  · intro b hb hfields
    have hkept : b ∈ m.buckets.filter fun b => !(m.fieldNames b).isEmpty := by
      simpa [hb] using hfields
    have hnodup := hbucketNames.sublist
      ((List.filter_sublist (p := fun b => !(m.fieldNames b).isEmpty)).map Bucket.name)
    obtain ⟨l, hl, heq⟩ := exists_filter_eq_singleton h.buckets hnodup hkept
    have hcopies := (Prod.mk.inj heq).2
    refine ⟨l, hl, ?_, ?_⟩
    · have hnumbers := congrArg (List.map Prod.fst) hcopies
      rw [List.map_map, List.map_map] at hnumbers
      rw [List.range'_eq_map_range, List.map_map]
      refine hnumbers.trans ?_
      rw [Bucket.copies, List.map_map]
      exact List.map_congr_left fun i _ => by simp [Nat.add_comm]
    · intro c hc
      have hmem := List.mem_map_of_mem (f := fun c => (c.copy, c.labels.map Label.name)) hc
      rw [hcopies] at hmem
      obtain ⟨copy, -, hcopy⟩ := List.mem_map.1 hmem
      exact (Prod.mk.inj hcopy).2.symm
  · intro b hb hfields
    rw [List.filter_eq_nil_iff]
    intro l hl hname
    -- a label belongs to a bucket with fields, and names tell buckets apart
    have hmem := List.mem_map_of_mem (f := fun l =>
      (l.name, l.bundles.map fun c => (c.copy, c.labels.map Label.name))) hl
    rw [h.buckets] at hmem
    obtain ⟨b', hb', heq⟩ := List.mem_map.1 hmem
    obtain ⟨hb', hfields'⟩ := List.mem_filter.1 hb'
    obtain rfl : b' = b := List.inj_on_of_nodup_map hbucketNames hb' hb
      ((Prod.mk.inj heq).1.trans (of_decide_eq_true hname))
    simp [hfields] at hfields'

end Snapshot

namespace Model

/-- The empty snapshot has the labels of a model without variables. -/
theorem lists_empty {m : Model} (h : m.isEmpty = true) : Snapshot.empty.Lists m := by
  have hvars : m.vars = [] := List.isEmpty_iff.1 h
  constructor <;> simp [Snapshot.empty, singletons, aggregates, buckets, hvars]

/-- When a model made by edits is solved with success, its snapshot has the labels of the model in
the order of declaration and no others. Each singleton and each aggregate has exactly one, and so
has each bucket whose bundle has fields; a bucket whose bundle has none has no label. -/
theorem editAll_solve_labels (name : String) (edits : List Edit) {limit : Option Nat}
    {r : SolveResult} (hsolve : ((new name).editAll edits).solve limit = .ok r)
    (hsuccess : r.status = .success) :
    r.snapshot.Lists ((new name).editAll edits) ∧
      r.snapshot.Labels ((new name).editAll edits) := by
  have hmodel := (consistent_new name).editAll edits
  have hlists : r.snapshot.Lists ((new name).editAll edits) := by
    by_cases hvars : ((new name).editAll edits).isEmpty = true
    · obtain ⟨hvalid, -⟩ := exists_solution_of_success hsolve hsuccess
      simp only [solve, hvalid, hvars, Bool.not_true, Bool.false_eq_true, if_false, if_true]
        at hsolve
      cases hsolve
      exact lists_empty hvars
    · obtain ⟨-, hsolution⟩ := exists_solution_of_success hsolve hsuccess
      obtain ⟨net, v, hbuild, hv, hsnapshot⟩ := hsolution (by simpa using hvars)
      rw [hsnapshot]
      exact hmodel.lists_decode (map_fst_entries hbuild hv.admits)
  exact ⟨hlists, hlists.labels hmodel.vars.nodup⟩

/-- Edits that declare a variable of each kind, and a bucket whose bundle has no fields. -/
def crewEdits : List Edit :=
  [.addBundle "task" [("shift", "1..2"), ("place", "\"dock\", \"yard\"")],
    .addBucket "worker" "task" 2, .addBundle "idle" [], .addBucket "spare" "idle" 1,
    .addAggregate "load" 2 "1..3", .addSingleton "last" "'a'..'c'",
    .addExpression "worker[1].shift < worker[2].shift"]

/-- The model that `crewEdits` make is solved with success, and its snapshot has the labels of its
variables. -/
theorem editAll_solve_labels_crewEdits :
    ∃ r, ((new "crew").editAll crewEdits).solve none = .ok r ∧ r.status = .success ∧
      r.snapshot.Lists ((new "crew").editAll crewEdits) ∧
      r.snapshot.Labels ((new "crew").editAll crewEdits) := by
  have hvalid : ((new "crew").editAll crewEdits).validate.isValid = true := by decide +kernel
  have hvars : ((new "crew").editAll crewEdits).isEmpty = false := by decide +kernel
  have hanswer : ((new "crew").editAll crewEdits).answer? =
      some (.success, ⟨[⟨"last", .char 'a'⟩], [⟨"load", [.int 1, .int 1]⟩],
        [⟨"worker", [⟨1, [⟨"shift", .int 1⟩, ⟨"place", .item "dock"⟩]⟩,
          ⟨2, [⟨"shift", .int 2⟩, ⟨"place", .item "dock"⟩]⟩]⟩]⟩) := by
    decide +kernel
  obtain ⟨r, hsolve, hstatus, -⟩ := exists_solve_of_answer? hvalid hvars hanswer
  exact ⟨r, hsolve, hstatus, editAll_solve_labels "crew" crewEdits hsolve hstatus⟩

/-- Edits that declare a number, a bundle without fields and a bucket of it. -/
def idleEdits : List Edit :=
  [.addSingleton "x" "1..2", .addBundle "idle" [], .addBucket "spare" "idle" 2]

/-- The model that `idleEdits` make is solved with success, but its bucket has no label. -/
theorem editAll_solve_misses_idleEdits :
    ∃ r, ((new "idle").editAll idleEdits).solve none = .ok r ∧ r.status = .success ∧
      ((new "idle").editAll idleEdits).vars =
        [.singleton ⟨"x", "1..2"⟩, .bucket ⟨"spare", "idle", 2⟩] ∧
      r.snapshot.buckets.filter (fun l => l.name = "spare") = [] := by
  have hvalid : ((new "idle").editAll idleEdits).validate.isValid = true := by decide +kernel
  have hvars : ((new "idle").editAll idleEdits).isEmpty = false := by decide +kernel
  have hanswer : ((new "idle").editAll idleEdits).answer? =
      some (.success, ⟨[⟨"x", .int 1⟩], [], []⟩) := by
    decide +kernel
  obtain ⟨r, hsolve, hstatus, hsnapshot⟩ := exists_solve_of_answer? hvalid hvars hanswer
  refine ⟨r, hsolve, hstatus, by decide +kernel, ?_⟩
  rw [hsnapshot]
  rfl

end Model

end FiniteDomain
