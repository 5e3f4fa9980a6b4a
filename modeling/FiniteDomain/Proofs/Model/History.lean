import FiniteDomain.Proofs.Model.Editing
import FiniteDomain.Proofs.Model.InPlace

/-!
# The history of an aggregate

An aggregate is resized, renamed and given overrides, in any order and any number of times, and some
of these changes are rejected. What it holds afterwards can be told from the accepted changes alone:
its size is the one last asked for, its name the one last given, and an element has the override it
was last given since the size was last below its index. Shrinking forgets overrides, and growing
again does not bring them back.

## Main definitions

* `Aggregate.Change`: a change of an aggregate, which is performed in place.
* `Aggregate.History`: an aggregate with the changes that it has accepted.
* `Aggregate.History.override?`: the override of an element, as the accepted changes tell it.

## Main results

* `Aggregate.Change.realizes_perform`: a change is made as a whole or not at all.
* `Aggregate.History.Faithful.change`: one change.
* `Aggregate.History.changeAll_reads_log`: any sequence of changes of a new aggregate.
-/

namespace FiniteDomain.Aggregate

/-! ### Changes -/

/-- A change of an aggregate. -/
inductive Change where
  /-- Changes the number of elements. -/
  | resize (size : Nat)
  /-- Renames the aggregate and its elements. -/
  | rename (name : String)
  /-- Gives the element at an index, counted from 1, a domain expression of its own. -/
  | overrideDomain (index : Nat) (domain : String)
  deriving DecidableEq

namespace Change

/-- The change of a stored aggregate. -/
def perform : Change → InPlace Aggregate Unit
  | resize size => InPlace.resizeElements size
  | rename name => InPlace.renameElements name
  | overrideDomain index domain => InPlace.overrideElement index domain

/-- The aggregate that the change makes of another one, or the reason of its rejection. -/
def apply : Change → Aggregate → Except ModelError Aggregate
  | resize size, a => a.resize size
  | rename name, a => .ok (a.rename name)
  | overrideDomain index domain, a => a.overrideDomain index domain

/-- The number of elements that the change asks for. -/
def size? : Change → Option Nat
  | resize size => some size
  | _ => none

/-- The name that the change gives. -/
def name? : Change → Option String
  | rename name => some name
  | _ => none

/-- The domain expression that the change gives to the element at `index` alone. -/
def override? (index : Nat) : Change → Option String
  | overrideDomain i domain => if i = index then some domain else none
  | _ => none

/-- A change in place is made as a whole or not at all. -/
theorem realizes_perform (c : Change) (a : Aggregate) :
    InPlace.Realizes c.perform a (Prod.mk ()) (c.apply a) := by
  cases c with
  | resize size => exact InPlace.realizes_resizeElements a size
  | rename name => rfl
  | overrideDomain index domain => exact InPlace.realizes_overrideElement a index domain

end Change

/-! ### Histories -/

/-- An accepted change with the size that it left. -/
structure Entry where
  /-- The change. -/
  change : Change
  /-- The number of elements after it. -/
  size : Nat
  deriving DecidableEq

/-- An aggregate in the course of changes. -/
structure History where
  /-- The aggregate as it is now. -/
  current : Aggregate
  /-- The accepted changes, the last one first. -/
  log : List Entry

namespace History

/-- A history in which nothing has been changed. -/
def start (a : Aggregate) : History :=
  ⟨a, []⟩

/-- One more change is performed, and recorded if it is accepted. -/
def change (h : History) (c : Change) : History :=
  match c.perform.run h.current with
  | (.ok (), a) => ⟨a, ⟨c, a.size⟩ :: h.log⟩
  | (.error _, a) => ⟨a, h.log⟩

/-- Changes are performed one after the other. -/
def changeAll (h : History) (changes : List Change) : History :=
  changes.foldl change h

/-- The last accepted override of the element at `index` since the size was last below `index`. -/
def override? (h : History) (index : Nat) : Option String :=
  (h.log.takeWhile fun entry => index ≤ entry.size).findSome? fun entry =>
    entry.change.override? index

/-- What the log tells of an aggregate that was made with a name, a domain and a size. -/
structure Faithful (name domain : String) (size : Nat) (h : History) : Prop where
  /-- The domain of elements without an override is never changed. -/
  domain_eq : h.current.domain = domain
  /-- The size is the one last asked for. -/
  size_eq : h.current.size = (h.log.findSome? fun entry => entry.change.size?).getD size
  /-- The name is the one last given. -/
  name_eq : h.current.name = (h.log.findSome? fun entry => entry.change.name?).getD name
  /-- The elements are named by the current name. -/
  wellFormed : h.current.WellFormed
  /-- The last accepted change has left the current size. -/
  head_eq : ∀ entry ∈ h.log.head?, entry.size = h.current.size
  /-- Each element has the override that the log tells. -/
  override_eq : ∀ i e, h.current.elements[i]? = some e → e.domainOverride = h.override? (i + 1)

variable {name domain : String} {size : Nat} {h : History}

theorem override?_eq_none_of_lt (hhead : ∀ entry ∈ h.log.head?, entry.size = h.current.size)
    {index : Nat} (hindex : h.current.size < index) : h.override? index = none := by
  rw [override?]
  -- the last entry already has a size below the index, so no entry is looked at
  cases hlog : h.log with
  | nil => rfl
  | cons entry log =>
    have hsize := hhead entry (by rw [hlog]; rfl)
    rw [List.takeWhile_cons_of_neg (by simp [hsize, hindex])]
    rfl

/-- A recorded change decides the override of an element that it keeps, or leaves it. -/
theorem override?_cons {a a' : Aggregate} {log : List Entry} {c : Change} {index : Nat}
    (hindex : index ≤ a'.size) :
    (History.mk a' (⟨c, a'.size⟩ :: log)).override? index =
      (c.override? index).or ((History.mk a log).override? index) := by
  rw [override?, List.takeWhile_cons_of_pos (by simpa using hindex), List.findSome?_cons]
  cases c.override? index <;> rfl

/-- A rejected change leaves the history as it is. -/
theorem change_of_error {c : Change} {error : ModelError} (hc : c.apply h.current = .error error) :
    h.change c = h := by
  have hrun := c.realizes_perform h.current
  rw [hc] at hrun
  rw [change, hrun]

/-- An accepted change is recorded. -/
theorem change_of_ok {c : Change} {a : Aggregate} (hc : c.apply h.current = .ok a) :
    h.change c = ⟨a, ⟨c, a.size⟩ :: h.log⟩ := by
  have hrun := c.realizes_perform h.current
  rw [hc] at hrun
  rw [change, hrun]

theorem faithful_start {a : Aggregate} (ha : Aggregate.new name size domain = .ok a) :
    (start a).Faithful name domain size := by
  obtain ⟨hsize, rfl⟩ := new_eq_ok_iff.1 ha
  refine ⟨rfl, ?_, rfl, wellFormed_fresh name domain hsize, by simp [start], ?_⟩
  · simp [start, Aggregate.size, freshElements]
  · intro i e he
    rw [start, getElem?_freshElements, Option.ite_none_right_eq_some] at he
    obtain ⟨-, ⟨⟩⟩ := he
    rfl

namespace Faithful

/-- An element within the current size has its override after an accepted change if the change gives
it one, or if it gives none and the element had it before. -/
theorem override_cons (hh : h.Faithful name domain size) {a : Aggregate} {c : Change} {i : Nat}
    {e : Element} (hi : i < a.size)
    (he : e.domainOverride = (c.override? (i + 1)).or
      (if i < h.current.size then h.override? (i + 1) else none)) :
    e.domainOverride = (History.mk a (⟨c, a.size⟩ :: h.log)).override? (i + 1) := by
  rw [override?_cons (a := h.current) hi, he]
  split
  · rfl
  · next hlt => rw [override?_eq_none_of_lt hh.head_eq (by omega)]

/-- Elements up to the smaller size stay with their overrides, others are added without one. -/
theorem resize (hh : h.Faithful name domain size) {newSize : Nat} {a : Aggregate}
    (ha : h.current.resize newSize = .ok a) :
    (History.mk a (⟨.resize newSize, a.size⟩ :: h.log)).Faithful name domain size := by
  obtain ⟨hne, rfl⟩ := resize_eq_ok_iff.1 ha
  have hsize : (h.current.elements.take newSize ++
      freshElements h.current.name h.current.elements.length newSize).length = newSize := by
    simp only [freshElements, List.length_append, List.length_take, List.length_map,
      List.length_range']
    omega
  refine ⟨hh.domain_eq, hsize, hh.name_eq, hh.wellFormed.resize hne, by simp, ?_⟩
  intro i e he
  obtain ⟨hi, -⟩ := List.getElem?_eq_some_iff.1 he
  refine hh.override_cons hi ?_
  dsimp only at he
  rw [List.getElem?_append, List.length_take] at he
  -- the element is one that was kept or one that was added
  split at he
  · next hlt =>
    rw [List.getElem?_take_of_lt (by omega)] at he
    have hold : i < h.current.size := by
      rw [Aggregate.size]
      omega
    rw [if_pos hold]
    exact hh.override_eq i e he
  · next hge =>
    rw [getElem?_freshElements, Option.ite_none_right_eq_some] at he
    obtain ⟨hlt, ⟨⟩⟩ := he
    have hnew : ¬ i < h.current.size := by
      rw [Aggregate.size]
      omega
    rw [if_neg hnew]
    rfl

/-- All overrides stay. -/
theorem rename (hh : h.Faithful name domain size) (newName : String) :
    (History.mk (h.current.rename newName)
      (⟨.rename newName, (h.current.rename newName).size⟩ :: h.log)).Faithful name domain size := by
  have hsize : (h.current.rename newName).size = h.current.size := by
    simp [Aggregate.rename, Aggregate.size]
  refine ⟨hh.domain_eq, hsize.trans hh.size_eq, rfl, hh.wellFormed.rename newName, by simp, ?_⟩
  intro i e he
  obtain ⟨hi, -⟩ := List.getElem?_eq_some_iff.1 he
  refine hh.override_cons hi ?_
  rw [if_pos (hsize ▸ hi)]
  dsimp only [Aggregate.rename] at he
  rw [List.getElem?_mapIdx, Option.map_eq_some_iff] at he
  obtain ⟨e', he', rfl⟩ := he
  exact hh.override_eq i e' he'

/-- One element has the override given, all others stay. -/
theorem overrideDomain (hh : h.Faithful name domain size) {index : Nat} {text : String}
    {a : Aggregate} (ha : h.current.overrideDomain index text = .ok a) :
    (History.mk a (⟨.overrideDomain index text, a.size⟩ :: h.log)).Faithful name domain size := by
  obtain ⟨hindex, rfl⟩ := overrideDomain_eq_ok_iff.1 ha
  have hsize : (h.current.elements.modify (index - 1) fun e =>
      { e with domainOverride := some text }).length = h.current.size :=
    List.length_modify ..
  refine ⟨hh.domain_eq, hsize.trans hh.size_eq, hh.name_eq, hh.wellFormed.overrideDomain _ _,
    by simp, ?_⟩
  intro i e he
  obtain ⟨hi, -⟩ := List.getElem?_eq_some_iff.1 he
  refine hh.override_cons hi ?_
  rw [if_pos (hsize ▸ hi)]
  dsimp only at he
  rw [List.getElem?_modify, Option.map_eq_map, Option.map_eq_some_iff] at he
  obtain ⟨e', he', rfl⟩ := he
  rw [← hh.override_eq i e' he', Change.override?]
  -- elements are stored from position 0 on and counted from 1
  by_cases hsame : index - 1 = i
  · rw [if_pos hsame, if_pos (by omega)]
    rfl
  · rw [if_neg hsame, if_neg (by omega)]
    rfl

/-- One change, accepted or rejected. -/
theorem change (hh : h.Faithful name domain size) (c : Change) :
    (h.change c).Faithful name domain size := by
  cases hc : c.apply h.current with
  | error error => rwa [change_of_error hc]
  | ok a =>
    rw [change_of_ok hc]
    cases c with
    | resize newSize => exact hh.resize hc
    | rename newName =>
      cases hc
      exact hh.rename newName
    | overrideDomain index text => exact hh.overrideDomain hc

/-- Any changes, one after the other. -/
theorem changeAll (hh : h.Faithful name domain size) (changes : List Change) :
    (h.changeAll changes).Faithful name domain size := by
  induction changes generalizing h with
  | nil => exact hh
  | cons c changes ih => exact ih (hh.change c)

/-- An index within the size has an element, which the log tells. -/
theorem exists_element (hh : h.Faithful name domain size) {i : Nat} (hpos : 1 ≤ i)
    (hle : i ≤ h.current.size) :
    ∃ e, h.current.element? i = some e ∧ e.name = elementName h.current.name i ∧
      e.domainOverride = h.override? i := by
  have hlt : i - 1 < h.current.elements.length := by
    rw [Aggregate.size] at hle
    omega
  have helement : h.current.element? i = some h.current.elements[i - 1] := by
    rw [element?, if_neg (by omega), List.getElem?_eq_getElem hlt]
  refine ⟨_, helement, hh.wellFormed.named helement, ?_⟩
  have hoverride := hh.override_eq (i - 1) _ (List.getElem?_eq_getElem hlt)
  rwa [Nat.sub_add_cancel hpos] at hoverride

end Faithful

/-- Outside the size there is no element. -/
theorem domainAt_eq_none_iff {a : Aggregate} {i : Nat} :
    a.domainAt i = none ↔ ¬ (1 ≤ i ∧ i ≤ a.size) := by
  rw [domainAt, Option.map_eq_none_iff, element?, Aggregate.size]
  split
  · next hzero => simp [hzero]
  · rw [List.getElem?_eq_none_iff]
    omega

/-- After any sequence of changes of a new aggregate, accepted or rejected, the accepted ones tell
what it holds: the size is the one last asked for, the name is the one last given, each element is
named by the name followed by its index, the domain of an element is its last override since the
size was last below its index, or else the domain of the aggregate, and there are no others. -/
theorem changeAll_reads_log (name domain : String) {size : Nat} (hsize : 0 < size)
    (changes : List Change) :
    ∃ a, Aggregate.new name size domain = .ok a ∧
      let h := (start a).changeAll changes
      h.current.size = (h.log.findSome? fun entry => entry.change.size?).getD size ∧
      h.current.name = (h.log.findSome? fun entry => entry.change.name?).getD name ∧
      (∀ i, 1 ≤ i → i ≤ h.current.size →
        (h.current.element? i).map Element.name = some (h.current.name ++ Decimal.ofNat i) ∧
          h.current.domainAt i = some ((h.override? i).getD domain)) ∧
      ∀ i, h.current.domainAt i = none ↔ ¬ (1 ≤ i ∧ i ≤ h.current.size) := by
  have hnew : Aggregate.new name size domain = .ok ⟨name, domain, freshElements name 0 size⟩ :=
    new_eq_ok_iff.2 ⟨by omega, rfl⟩
  refine ⟨_, hnew, ?_⟩
  have hh := (faithful_start hnew).changeAll changes
  refine ⟨hh.size_eq, hh.name_eq, fun i hpos hle => ?_, fun i => domainAt_eq_none_iff⟩
  obtain ⟨e, helement, hname, hoverride⟩ := hh.exists_element hpos hle
  constructor
  · rw [helement, Option.map_some, hname]
    rfl
  · rw [domainAt, helement, Option.map_some, hoverride, hh.domain_eq]

/-- Two overrides, one of them lost by shrinking and growing again, with two rejected changes in
between, and a new name. -/
def regrownChanges : List Change :=
  [.overrideDomain 2 "4..4", .overrideDomain 1 "5..6", .resize 1, .resize 0, .resize 3,
    .overrideDomain 4 "9..9", .overrideDomain 3 "7..8", .rename "y"]

/-- The first and the last element have overrides, the second one has lost its own. -/
theorem changeAll_reads_log_regrownChanges :
    0 < 2 ∧ ∃ a, Aggregate.new "x" 2 "1..9" = .ok a ∧
      let h := (start a).changeAll regrownChanges
      h.current.size = 3 ∧ h.current.name = "y" ∧
      (h.current.element? 3).map Element.name = some "y3" ∧
      [1, 2, 3].map h.current.domainAt = [some "5..6", some "1..9", some "7..8"] ∧
      h.current.domainAt 4 = none := by
  refine ⟨by decide, ?_⟩
  obtain ⟨a, ha, hsize, hname, helements, hnone⟩ :=
    changeAll_reads_log "x" "1..9" (by decide : 0 < 2) regrownChanges
  cases ha
  refine ⟨_, rfl, hsize, hname, (helements 3 (by decide) (by decide)).1, ?_, ?_⟩
  · rw [List.map_cons, (helements 1 (by decide) (by decide)).2, List.map_cons,
      (helements 2 (by decide) (by decide)).2, List.map_cons,
      (helements 3 (by decide) (by decide)).2]
    rfl
  · exact (hnone 4).2 (by decide)

end History

end FiniteDomain.Aggregate
