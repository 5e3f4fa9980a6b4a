import FiniteDomain.Proofs.Domain.Bijection
import FiniteDomain.Proofs.Solution.LeastSolution

/-!
# All-different constraints and values

An all-different constraint compares keys. For integers and characters the key tells the value, so
elements with different keys have different values. The key of an item is its position in the domain
of the element itself: two elements whose domains list one item at different positions can both get
this item. Nothing else makes values repeat, and without domains for single elements none do.

## Main definitions

* `Domain.HasKey`: the key of a value in a domain.
* `Domain.ListsApart`: two domains have an item at different places.
* `Snapshot.valuesOf`: the values of an aggregate.

## Main results

* `Domain.listsApart_of_hasKey`: which values have different keys in two domains.
* `Model.exists_position_of_valuesOf`: the values of an aggregate in a decoding are those of its
  elements.
* `Model.allDifferent_values`: what an all-different constraint says about the values of a solution.
* `Model.allDifferent_repeats_clashModel`: values that it does not tell apart.
-/

namespace FiniteDomain

/-! ### Values and keys -/

namespace Domain

variable {d d' : Domain} {p : Int64}

/-- The key of a value in a domain: that of an integer or a character does not depend on the domain,
and that of an item is its place there, counted from 1. -/
inductive HasKey (d : Domain) : Value → Int → Prop where
  /-- An integer is its own key. -/
  | int (n : Int64) : HasKey d (.int n) n.toInt
  /-- A character has its code point. -/
  | char (c : Char) : HasKey d (.char c) c.toNat
  /-- An item has its place among the items. -/
  | item {items : List String} {i : Nat} {text : String} (hitems : d.items? = some items)
      (htext : items[i]? = some text) : HasKey d (.item text) (i + 1)

theorem hasKey_of_value? (hd : d.Proper) {x : Value} (h : d.value? p = some x) :
    d.HasKey x (d.exactKey p) := by
  cases d with
  | intRange low high =>
    obtain ⟨hp, rfl⟩ := value?_intRange_eq_some_iff.1 h
    rw [← toInt_key hd hp]
    exact .int _
  | charRange low high =>
    obtain ⟨-, c, rfl, hkey⟩ := (value?_charRange_eq_some_iff hd).1 h
    rw [← hkey]
    exact .char c
  | list items | table items =>
    obtain ⟨text, rfl, hone, htext⟩ := exists_item_of_value? rfl h
    -- the place among the items is counted from 0
    have hplace : p.toInt = ((p - 1).toNatClampNeg : Int) + 1 := by
      have hpred := Word.toInt_sub_one hone
      rw [Word.one_le_iff] at hone
      rw [← Int64.toNat_toInt, hpred]
      omega
    rw [exactKey, hplace]
    exact .item rfl htext

/-- Both domains have the value as one of their items, but not at the same place. -/
def ListsApart (d d' : Domain) (x : Value) : Prop :=
  ∃ text items items', x = .item text ∧ d.items? = some items ∧ d'.items? = some items' ∧
    ∃ i j : Nat, items[i]? = some text ∧ items'[j]? = some text ∧ i ≠ j

/-- A value with different keys in two domains is an item that they list at different places. -/
theorem listsApart_of_hasKey {x : Value} {k k' : Int} (h : d.HasKey x k) (h' : d'.HasKey x k')
    (hne : k ≠ k') : d.ListsApart d' x := by
  cases h with
  | int n =>
    cases h'
    exact absurd rfl hne
  | char c =>
    cases h'
    exact absurd rfl hne
  | item hitems htext =>
    cases h' with
    | item hitems' htext' =>
      refine ⟨_, _, _, rfl, hitems, hitems', _, _, htext, htext', ?_⟩
      rintro rfl
      exact hne rfl

/-- A proper domain lists no item twice. -/
theorem not_listsApart_self (hd : d.Proper) (x : Value) : ¬ d.ListsApart d x := by
  rintro ⟨text, items, items', -, hitems, hitems', i, j, hi, hj, hne⟩
  obtain rfl : items = items' := Option.some.inj (hitems.symm.trans hitems')
  have hnodup : items.Nodup := by
    cases d with
    | intRange | charRange => cases hitems
    | list | table => cases hitems; exact hd
  exact hne ((List.getElem?_inj (List.getElem?_eq_some_iff.1 hi).1 hnodup).1 (hi.trans hj.symm))

end Domain

/-! ### Places in lists -/

/-- An item stands at one place of a list if it is kept once. -/
theorem getElem?_inj_of_nodup_filter {α : Type} {xs : List α} {keep : α → Bool}
    (h : (xs.filter keep).Nodup) {x : α} (hx : keep x = true) {i j : Nat}
    (hi : xs[i]? = some x) (hj : xs[j]? = some x) : i = j := by
  rw [List.Nodup, List.pairwise_filter, List.pairwise_iff_getElem] at h
  obtain ⟨hi', rfl⟩ := List.getElem?_eq_some_iff.1 hi
  obtain ⟨hj', heq⟩ := List.getElem?_eq_some_iff.1 hj
  by_contra hne
  rcases Nat.lt_or_gt_of_ne hne with hlt | hgt
  · exact h i j hi' hj' hlt hx (heq ▸ hx) heq.symm
  · exact h j i hj' hi' hgt (heq ▸ hx) hx heq

/-- Items that are all kept stay at their places. -/
theorem getElem?_filterMap {α β : Type} {f : α → Option β} {xs : List α}
    (h : ∀ x ∈ xs, (f x).isSome = true) (n : Nat) : (xs.filterMap f)[n]? = (xs[n]?).bind f := by
  induction xs generalizing n with
  | nil => rfl
  | cons x xs ih =>
    obtain ⟨hx, hxs⟩ := List.forall_mem_cons.1 h
    obtain ⟨y, hy⟩ := Option.isSome_iff_exists.1 hx
    rw [List.filterMap_cons_some hy]
    cases n with
    | zero => exact hy.symm
    | succ n => exact ih hxs n

/-! ### The values of an aggregate -/

/-- The values of an aggregate. There are none if it has no label. -/
def Snapshot.valuesOf (s : Snapshot) (name : String) : List Value :=
  match s.aggregate? name with
  | some label => label.values
  | none => []

theorem Snapshot.values_compoundLabel (entries : List (UnknownKey × Value)) (a : Aggregate) :
    (compoundLabel (entries.filterMap elementValue?) a).values =
      (entries.filter fun e => e.1.aggregate? = some a.name).map Prod.snd := by
  rw [compoundLabel]
  dsimp only
  induction entries with
  | nil => rfl
  | cons e entries ih =>
    obtain ⟨key, value⟩ := e
    cases key with
    | element name i =>
      by_cases hname : name = a.name <;>
        simpa [elementValue?, UnknownKey.aggregate?, hname] using ih
    | singleton | field =>
      simpa [List.filterMap_cons, elementValue?, UnknownKey.aggregate?] using ih

/-- An entry is the value of an unknown at its position. -/
theorem Directory.exists_position_of_mem_entries {dir : Directory} {v : List Int64}
    {key : UnknownKey} {x : Value} (h : (key, x) ∈ dir.entries v) :
    ∃ (n : Nat) (d : Domain) (p : Int64), dir.keys[n]? = some key ∧ dir.domains[n]? = some d ∧
      v[n]? = some p ∧ d.value? p = some x := by
  obtain ⟨⟨⟨key', d⟩, p⟩, hmem, hentry⟩ := List.mem_filterMap.1 h
  obtain ⟨x', hx, hpair⟩ := Option.map_eq_some_iff.1 hentry
  cases hpair
  obtain ⟨n, hn⟩ := List.mem_iff_getElem?.1 hmem
  obtain ⟨hpair, hp⟩ := List.getElem?_zip_eq_some.1 hn
  obtain ⟨hkey, hd⟩ := List.getElem?_zip_eq_some.1 hpair
  exact ⟨n, d, p, hkey, hd, hp, hx⟩

namespace Model

variable {m : Model} {a : Aggregate}

theorem proper_of_domain? {key : UnknownKey} {d : Domain}
    (h : m.directory.domain? key = some d) : d.Proper := by
  obtain ⟨n, -, hn⟩ := Option.bind_eq_some_iff.1 h
  obtain ⟨declaration, -, hd⟩ := List.mem_filterMap.1 (List.mem_of_getElem? hn)
  exact Resolver.proper_of_evaluate (domain?_eq_some_iff.1 hd)

section Elements

variable (hnames : (m.vars.map Variable.name).Nodup) (ha : a ∈ m.aggregates)
include hnames ha

/-- The values of an aggregate in a decoding are those of the unknowns with its name. -/
theorem valuesOf_decode (v : List Int64) :
    (m.decode v).valuesOf a.name =
      ((m.directory.entries v).filter fun e => e.1.aggregate? = some a.name).map Prod.snd := by
  rw [← Snapshot.values_compoundLabel, Snapshot.valuesOf]
  cases hfind : (m.decode v).aggregate? a.name with
  | none =>
    -- only an aggregate without values has no label
    by_contra hne
    have hlabel : Snapshot.compoundLabel
        ((m.directory.entries v).filterMap Snapshot.elementValue?) a ∈
          (m.decode v).aggregates := by
      refine List.mem_filter.2 ⟨List.mem_map_of_mem ha, ?_⟩
      rw [Bool.not_eq_true', List.isEmpty_eq_false_iff]
      exact Ne.symm hne
    exact List.find?_eq_none.1 hfind _ hlabel BEq.rfl
  | some label =>
    have hname : label.name = a.name := by simpa using List.find?_some hfind
    have hmem := List.mem_of_mem_filter (List.mem_of_find?_eq_some hfind)
    obtain ⟨a', ha', rfl⟩ := List.mem_map.1 hmem
    obtain rfl : a' = a := List.inj_on_of_nodup_map (nodup_aggregates hnames) ha' ha hname
    rfl

/-- The key of an element leads to its only unknown. -/
theorem number?_element {i n : Nat} (hn : m.directory.keys[n]? = some (.element a.name i)) :
    m.directory.number? (.element a.name i) = some n := by
  obtain ⟨d, hd, hkey⟩ := List.mem_map.1 (List.mem_of_getElem? hn)
  obtain ⟨n', hn'⟩ := exists_number_of_mem hd
  rw [hkey] at hn'
  -- of several unknowns with one key the last would be found, but there is only one
  have honce : (m.directory.keys.filter fun key => key.aggregate? = some a.name).Nodup := by
    rw [filter_keys_eq hnames ha]
    exact (List.nodup_range' (s := 1)).map fun _ _ h => (UnknownKey.element.inj h).2
  have hfound := getElem?_keys_of_number? hn'
  rw [hn', getElem?_inj_of_nodup_filter honce (decide_eq_true rfl) hfound hn]

variable {v : List Int64} (hkeys : (m.directory.entries v).map Prod.fst = m.directory.keys)
include hkeys

/-- The entries of an aggregate are those of its elements in order. -/
theorem map_fst_filter_entries :
    ((m.directory.entries v).filter fun e => e.1.aggregate? = some a.name).map Prod.fst =
      (List.range' 1 a.size).map (.element a.name) := by
  rw [← filter_keys_eq hnames ha, ← hkeys, List.filter_map]
  rfl

/-- The place of an entry tells its element. -/
theorem eq_element_of_getElem? {i : Nat} {e : UnknownKey × Value}
    (he : ((m.directory.entries v).filter fun e => e.1.aggregate? = some a.name)[i]? = some e) :
    e.1 = .element a.name (i + 1) := by
  have hkey : some e.1 = ((List.range' 1 a.size).map (.element a.name))[i]? := by
    rw [← map_fst_filter_entries hnames ha hkeys, List.getElem?_map, he]
    rfl
  rw [List.getElem?_map, eq_comm, Option.map_eq_some_iff] at hkey
  obtain ⟨index, hindex, hkey⟩ := hkey
  obtain ⟨_, hindex⟩ := List.getElem?_eq_some_iff.1 hindex
  rw [List.getElem_range', Nat.one_mul, Nat.add_comm] at hindex
  rw [hindex, hkey]

theorem length_valuesOf : ((m.decode v).valuesOf a.name).length = a.size := by
  have hlength := congrArg List.length (map_fst_filter_entries hnames ha hkeys)
  rw [List.length_map, List.length_map, List.length_range'] at hlength
  rw [valuesOf_decode hnames ha, List.length_map, hlength]

/-- The value of an element is that at the position chosen for its unknown. -/
theorem exists_position_of_valuesOf {i : Nat} {x : Value}
    (hx : ((m.decode v).valuesOf a.name)[i]? = some x) :
    ∃ d p, m.directory.domain? (.element a.name (i + 1)) = some d ∧ d.value? p = some x ∧
      m.directory.chosenKey? v (.element a.name (i + 1)) = some (d.exactKey p) := by
  rw [valuesOf_decode hnames ha, List.getElem?_map, Option.map_eq_some_iff] at hx
  obtain ⟨⟨key, x⟩, he, rfl⟩ := hx
  obtain rfl : key = .element a.name (i + 1) := eq_element_of_getElem? hnames ha hkeys he
  have hentry := List.mem_of_mem_filter (List.mem_of_getElem? he)
  obtain ⟨n, d, p, hn, hd, hp, hvalue⟩ := Directory.exists_position_of_mem_entries hentry
  have hnumber := number?_element hnames ha hn
  refine ⟨d, p, ?_, hvalue, Directory.chosenKey?_eq_some hnumber hd hp⟩
  rw [Directory.domain?, hnumber]
  exact hd

/-- Elements with different keys and the same value have domains that list it apart. -/
theorem listsApart_of_valuesOf (hdiffer : m.directory.AllDifferent v a) {i j : Nat} (hij : i < j)
    {x : Value} (hi : ((m.decode v).valuesOf a.name)[i]? = some x)
    (hj : ((m.decode v).valuesOf a.name)[j]? = some x) :
    ∃ d d', m.directory.domain? (.element a.name (i + 1)) = some d ∧
      m.directory.domain? (.element a.name (j + 1)) = some d' ∧ d.ListsApart d' x := by
  obtain ⟨d, p, hd, hp, hkey⟩ := exists_position_of_valuesOf hnames ha hkeys hi
  obtain ⟨d', q, hd', hq, hkey'⟩ := exists_position_of_valuesOf hnames ha hkeys hj
  have hlt : j < a.size := by
    rw [← length_valuesOf hnames ha hkeys]
    exact (List.getElem?_eq_some_iff.1 hj).1
  -- the keys that differ are those of the two positions
  obtain ⟨k, k', hk, hk', hne⟩ := hdiffer (i + 1) (j + 1) (by omega) (by omega) (by omega)
  obtain rfl : d.exactKey p = k := Option.some.inj (hkey.symm.trans hk)
  obtain rfl : d'.exactKey q = k' := Option.some.inj (hkey'.symm.trans hk')
  have hfirst := Domain.hasKey_of_value? (proper_of_domain? hd) hp
  have hsecond := Domain.hasKey_of_value? (proper_of_domain? hd') hq
  exact ⟨d, d', hd, hd', Domain.listsApart_of_hasKey hfirst hsecond hne⟩

end Elements

/-! ### Elements without domains of their own -/

/-- The declaration of an element has the text of its override, or that of the aggregate. -/
theorem domain_of_mem_declarations (hnames : (m.vars.map Variable.name).Nodup)
    (ha : a ∈ m.aggregates) {d : Declaration} (hd : d ∈ m.declarations) {i : Nat}
    (hkey : d.key = .element a.name i) :
    ∃ e ∈ a.elements, d.domain = e.domainOverride.getD a.domain := by
  simp only [declarations, List.mem_append, List.mem_map, List.mem_flatMap] at hd
  -- only aggregates declare elements, and no other one has this name
  rcases hd with (⟨s, -, rfl⟩ | ⟨a', ha', hd⟩) | ⟨b, -, hd⟩
  · cases hkey
  · obtain ⟨k, hk, rfl⟩ := List.mem_mapIdx.1 hd
    have hname : a'.name = a.name := (UnknownKey.element.inj hkey).1
    obtain rfl : a' = a := List.inj_on_of_nodup_map (nodup_aggregates hnames) ha' ha hname
    exact ⟨a'.elements[k], List.getElem_mem hk, rfl⟩
  · rw [bucketDeclarations] at hd
    split at hd
    · simp at hd
    · obtain ⟨copy, -, hd⟩ := List.mem_flatMap.1 hd
      obtain ⟨s, -, rfl⟩ := List.mem_map.1 hd
      cases hkey

/-- The domain of an element is that of its override, or that of the aggregate. -/
theorem NoFindings.evaluate_of_domain?_element (h : m.NoFindings) (ha : a ∈ m.aggregates) {i : Nat}
    {domain : Domain} (hdomain : m.directory.domain? (.element a.name i) = some domain) :
    ∃ e ∈ a.elements,
      Resolver.evaluate m.context (Text.trim (e.domainOverride.getD a.domain)) = .ok domain := by
  obtain ⟨n, hn, hdomain⟩ := Option.bind_eq_some_iff.1 hdomain
  have hall : ∀ d ∈ m.declarations, (m.domain? d).isSome = true := by
    intro d hd
    obtain ⟨domain', hdomain'⟩ := h.exists_evaluate hd
    rw [domain?_eq_some_iff.2 hdomain']
    rfl
  -- no declaration is without a domain, so the one of the unknown has its number
  have hkey := getElem?_keys_of_number? hn
  rw [directory, getElem?_filterMap hall, Option.bind_eq_some_iff] at hdomain
  obtain ⟨d, hd, hdomain⟩ := hdomain
  rw [directory, List.getElem?_map, hd] at hkey
  obtain ⟨e, he, htext⟩ :=
    domain_of_mem_declarations h.names ha (List.mem_of_getElem? hd) (Option.some.inj hkey)
  rw [domain?_eq_some_iff, htext] at hdomain
  exact ⟨e, he, hdomain⟩

/-! ### Solves -/

/-- When a solve succeeds, the target of each all-different constraint has one value for each of its
elements. Two of them are the same only if it is an item that the domains of the two elements list
at different places. So the values are pairwise different if no element has a domain of its own. -/
theorem allDifferent_values {limit : Option Nat} {r : SolveResult} {name text : String}
    (hsolve : m.solve limit = .ok r) (hsuccess : r.status = .success)
    (hc : .allDifferent name text ∈ m.constraints) :
    ∃ a, m.aggregate? (allDifferentTarget text) = some a ∧
      (r.snapshot.valuesOf a.name).length = a.size ∧
      (∀ i j, i < j → ∀ x, (r.snapshot.valuesOf a.name)[i]? = some x →
        (r.snapshot.valuesOf a.name)[j]? = some x →
          ∃ d d', m.directory.domain? (.element a.name (i + 1)) = some d ∧
            m.directory.domain? (.element a.name (j + 1)) = some d' ∧ d.ListsApart d' x) ∧
      ((∀ e ∈ a.elements, e.domainOverride = none) → (r.snapshot.valuesOf a.name).Nodup) := by
  obtain ⟨hvalid, hsolution⟩ := exists_solution_of_success hsolve hsuccess
  have h := noFindings_of_isValid hvalid
  obtain ⟨a, ha, htarget⟩ := exists_aggregate_of_constraintFindings (h.constraints _ hc)
  have hvars : m.isEmpty = false := by
    rw [isEmpty, List.isEmpty_eq_false_iff]
    exact List.ne_nil_of_mem (mem_aggregates.1 ha)
  obtain ⟨net, v, hbuild, hv, hsnapshot⟩ := hsolution hvars
  have hkeys := map_fst_entries hbuild hv.admits
  have hdiffer : m.directory.AllDifferent v a := by
    obtain ⟨a', htarget', hdiffer⟩ := hv.satisfies _ hc
    rw [htarget] at htarget'
    cases htarget'
    exact hdiffer
  rw [hsnapshot]
  have hrepeat := fun i j (hij : i < j) (x : Value) =>
    listsApart_of_valuesOf (x := x) h.names ha hkeys hdiffer hij
  refine ⟨a, htarget, length_valuesOf h.names ha hkeys, hrepeat, ?_⟩
  intro hplain
  rw [List.nodup_iff_getElem?_ne_getElem?]
  intro i j hij hj heq
  have hx := List.getElem?_eq_getElem hj
  obtain ⟨d, d', hd, hd', hlists⟩ := hrepeat i j hij _ (heq.trans hx) hx
  -- both elements have the domain of the aggregate, which lists nothing twice
  obtain ⟨e, he, heval⟩ := h.evaluate_of_domain?_element ha hd
  obtain ⟨e', he', heval'⟩ := h.evaluate_of_domain?_element ha hd'
  rw [hplain e he] at heval
  rw [hplain e' he', heval] at heval'
  cases heval'
  exact Domain.not_listsApart_self (proper_of_domain? hd) _ hlists

/-- Two seats that are to differ, without domains of their own. -/
def seatModel : Model where
  name := "seats"
  vars := [.aggregate ⟨"seat", "$places", [⟨"seat1", none⟩, ⟨"seat2", none⟩]⟩]
  sharedDomains := [⟨"places", "\"aisle\", \"window\""⟩]
  bundles := []
  tables := []
  constraints := [.allDifferent "apart" " $seat "]

/-- A solve of `seatModel` succeeds, and the seats have different values. -/
theorem allDifferent_values_seatModel :
    ∃ r, seatModel.solve none = .ok r ∧ r.status = .success ∧
      .allDifferent "apart" " $seat " ∈ seatModel.constraints ∧
      ∃ a, seatModel.aggregate? "seat" = some a ∧ (∀ e ∈ a.elements, e.domainOverride = none) ∧
        (r.snapshot.valuesOf a.name).length = 2 ∧ (r.snapshot.valuesOf a.name).Nodup := by
  have hvalid : seatModel.validate.isValid = true := by decide +kernel
  have hanswer : seatModel.answer? =
      some (.success, ⟨[], [⟨"seat", [.item "aisle", .item "window"]⟩], []⟩) := by decide +kernel
  obtain ⟨r, hsolve, hstatus, -⟩ := exists_solve_of_answer? hvalid rfl hanswer
  have hc : .allDifferent "apart" " $seat " ∈ seatModel.constraints := List.mem_singleton.2 rfl
  obtain ⟨a, htarget, hlength, -, hnodup⟩ := allDifferent_values hsolve hstatus hc
  cases htarget
  refine ⟨r, hsolve, hstatus, hc, _, rfl, by simp, hlength, hnodup (by simp)⟩

/-- Two elements that are to differ, the second with a domain of its own in which the item of the
first comes second. -/
def clashModel : Model where
  name := "clash"
  vars := [.aggregate ⟨"x", "\"a\"", [⟨"x1", none⟩, ⟨"x2", some "\"b\", \"a\""⟩]⟩]
  sharedDomains := []
  bundles := []
  tables := []
  constraints := [.allDifferent "differ" "x"]

/-- `clashModel` is valid, and its solve succeeds with the same value for both elements. -/
theorem allDifferent_repeats_clashModel :
    clashModel.validate.isValid = true ∧ .allDifferent "differ" "x" ∈ clashModel.constraints ∧
      ∃ r, clashModel.solve none = .ok r ∧ r.status = .success ∧
        r.snapshot.valuesOf "x" = [.item "a", .item "a"] := by
  have hvalid : clashModel.validate.isValid = true := by decide +kernel
  have hanswer : clashModel.answer? =
      some (.success, ⟨[], [⟨"x", [.item "a", .item "a"]⟩], []⟩) := by decide +kernel
  obtain ⟨r, hsolve, hstatus, hsnapshot⟩ := exists_solve_of_answer? hvalid rfl hanswer
  refine ⟨hvalid, List.mem_singleton.2 rfl, r, hsolve, hstatus, ?_⟩
  rw [hsnapshot]
  rfl

end Model

end FiniteDomain
