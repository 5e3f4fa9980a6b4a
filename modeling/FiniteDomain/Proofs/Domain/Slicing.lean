import FiniteDomain.Model.Basic
import FiniteDomain.Proofs.Domain.Evaluation
import Mathlib.Data.List.Induction

/-!
# Table slices as domains

A slice selects one column of a table, from one row to the last. Rows may be of any length. What the
slice shows of a row is the trimmed text of its cell; a missing or blank cell shows nothing. The
domain of the slice is made of the texts that it shows, each once, in the order in which they first
appear. A slice that shows nothing and one that shows too many different texts have no domain.

## Main definitions

* `Table.cell?`: the cell at a row and a column, counted from 1.
* `Table.Shows`: a slice shows a text in a row.
* `Table.Lists`: the texts that a slice shows, in the order of their first rows.

## Main results

* `pairwise_eraseDups`: erasing repetitions keeps the order of first appearance.
* `Table.lists_eraseDups_shown`: the distinct cells that are looked up are the texts that are shown.
* `Table.Lists.unique`: there is one list of what a slice shows.
* `Domain.evaluate_table`: when a slice has a domain, and which.
-/

namespace FiniteDomain

/-! ### What a slice shows -/

namespace Table

/-- The cell at a row and a column, counted from 1. -/
def cell? (t : Table) (row column : Nat) : Option String :=
  if row = 0 ∨ column = 0 then none else t.rows[row - 1]?.bind fun cells => cells[column - 1]?

/-- The slice shows the text in the row: the row is not before the first row of the slice, and the
cell in the column of the slice is the text, with white space around it, and is not blank. -/
structure Shows (t : Table) (s : Slice) (row : Nat) (text : String) : Prop where
  /-- The slice starts in a row. -/
  start_ne : s.row ≠ 0
  /-- The row is not before it. -/
  start_le : s.row.toNat ≤ row
  /-- The cell is there and shows the text. -/
  cell_eq : ∃ cell, t.cell? row s.column.toNat = some cell ∧ Text.trim cell = text
  /-- The cell is not blank. -/
  ne_empty : text ≠ ""

/-- The list holds the texts that the slice shows, each once, in the order in which they appear. -/
structure Lists (t : Table) (s : Slice) (cells : List String) : Prop where
  /-- The texts are those that are shown. -/
  mem_iff : ∀ text, text ∈ cells ↔ ∃ row, t.Shows s row text
  /-- No text is there twice. -/
  nodup : cells.Nodup
  /-- Wherever a text is shown, those before it in the list have been shown in an earlier row. -/
  ordered : cells.Pairwise fun a b => ∀ row, t.Shows s row b → ∃ row' < row, t.Shows s row' a

end Table

/-- The text that a slice shows of a row with these cells. -/
def Slice.shown? (s : Slice) (cells : List String) : Option String :=
  (cells[s.column.toNat - 1]?.map Text.trim).filter fun text => !text.isEmpty

theorem Slice.shown?_eq_some_iff {s : Slice} {cells : List String} {text : String} :
    s.shown? cells = some text ↔
      (∃ cell, cells[s.column.toNat - 1]? = some cell ∧ Text.trim cell = text) ∧ text ≠ "" := by
  rw [shown?, Option.filter_eq_some_iff, Option.map_eq_some_iff, Bool.not_eq_true',
    ← Bool.not_eq_true, String.isEmpty_iff]

/-! ### Erasing repetitions -/

/-- What is left of a list without repetitions is in the order of first appearance: an item that
comes after another one first appears after it. -/
theorem pairwise_eraseDups (as : List String) :
    as.eraseDups.Pairwise fun a b =>
      ∃ before after, as = before ++ b :: after ∧ a ∈ before ∧ b ∉ before := by
  -- from the right, since a list keeps the order of its items when others are added at its end
  induction as using List.reverseRecOn with
  | nil => exact .nil
  | append_singleton as c ih =>
    have hold : as.eraseDups.Pairwise fun a b =>
        ∃ before after, as ++ [c] = before ++ b :: after ∧ a ∈ before ∧ b ∉ before := by
      refine ih.imp ?_
      rintro a b ⟨before, after, rfl, ha, hb⟩
      exact ⟨before, after ++ [c], by simp, ha, hb⟩
    rw [List.eraseDups_append]
    by_cases hc : c ∈ as
    · simpa [List.removeAll, hc] using hold
    · -- a new item appears after all others
      have hnew : [c].removeAll as = [c] := by
        simp [List.removeAll, hc]
      have hone : [c].eraseDups = [c] := rfl
      rw [hnew, hone, List.pairwise_append]
      refine ⟨hold, List.pairwise_singleton _ _, fun a ha b hb => ?_⟩
      obtain rfl := List.mem_singleton.1 hb
      exact ⟨as, [], rfl, List.mem_eraseDups.1 ha, hc⟩

/-- The order of first appearance among what rows show is the order of the rows. -/
theorem pairwise_eraseDups_filterMap {β : Type} (rows : List β) (f : β → Option String) :
    (rows.filterMap f).eraseDups.Pairwise fun a b =>
      ∀ i : Nat, rows[i]?.bind f = some b → ∃ j < i, rows[j]?.bind f = some a := by
  refine (pairwise_eraseDups (rows.filterMap f)).imp ?_
  rintro a b ⟨before, after, hsplit, ha, hb⟩ i hi
  -- the rows that show `a` early enough, and after them all rows that show `b`
  obtain ⟨early, late, rfl, rfl, -⟩ := List.filterMap_eq_append_iff.1 hsplit
  obtain ⟨row, hrow, hshow⟩ := List.mem_filterMap.1 ha
  obtain ⟨j, hj, rfl⟩ := List.mem_iff_getElem.1 hrow
  refine ⟨j, ?_, ?_⟩
  · by_contra hle
    have hearly : i < early.length := by omega
    rw [List.getElem?_append_left hearly, List.getElem?_eq_getElem hearly, Option.bind_some] at hi
    exact hb (List.mem_filterMap.2 ⟨_, List.getElem_mem hearly, hi⟩)
  · rw [List.getElem?_append_left hj, List.getElem?_eq_getElem hj]
    exact hshow

/-! ### Looking up -/

namespace Table

variable {t : Table} {s : Slice} {text : String}

/-- The texts that a slice shows, row by row. -/
def shown (t : Table) (s : Slice) : List String :=
  (t.lookup s).getD []

/-- A slice that starts in no row or no column shows nothing, any other one what its rows show. -/
theorem shown_eq (t : Table) (s : Slice) :
    t.shown s = if s.column = 0 ∨ s.row = 0 then []
      else (t.rows.drop (s.row.toNat - 1)).filterMap s.shown? := by
  have hpipe (rows : List (List String)) :
      ((rows.filterMap fun row => row[s.column.toNat - 1]?).map Text.trim).filter
        (fun cell => !cell.isEmpty) = rows.filterMap s.shown? := by
    rw [List.map_filterMap, List.filter_filterMap]
    rfl
  rw [shown, lookup, hpipe]
  by_cases hzero : s.column = 0 ∨ s.row = 0
  · rw [if_pos hzero, if_pos (by tauto)]
    rfl
  · rw [if_neg hzero]
    by_cases hrow : t.rows.length < s.row.toNat
    · -- the table ends before the first row
      rw [if_pos (by tauto), List.drop_eq_nil_of_le (by omega)]
      rfl
    · rw [if_neg (by tauto)]
      rfl

/-- A slice shows a text in the rows from its first one on. -/
theorem shows_iff (hcolumn : s.column ≠ 0) (hrow : s.row ≠ 0) {row : Nat} :
    t.Shows s row text ↔ ∃ i, row = s.row.toNat + i ∧
      ((t.rows.drop (s.row.toNat - 1))[i]?.bind s.shown?) = some text := by
  have hcolumn' : s.column.toNat ≠ 0 := fun h => hcolumn (UInt64.toNat_inj.1 h)
  have hrow' : s.row.toNat ≠ 0 := fun h => hrow (UInt64.toNat_inj.1 h)
  -- rows and columns are counted from 1, lists from 0
  have hcell (i : Nat) (cell : String) : t.cell? (s.row.toNat + i) s.column.toNat = some cell ↔
      ∃ cells, t.rows[s.row.toNat - 1 + i]? = some cells ∧
        cells[s.column.toNat - 1]? = some cell := by
    have hindex : s.row.toNat + i - 1 = s.row.toNat - 1 + i := by omega
    rw [cell?, if_neg (by omega), hindex, Option.bind_eq_some_iff]
  constructor
  · rintro ⟨-, hle, ⟨cell, hget, htext⟩, hne⟩
    obtain ⟨i, rfl⟩ := Nat.exists_eq_add_of_le hle
    obtain ⟨cells, hcells, hget⟩ := (hcell i cell).1 hget
    refine ⟨i, rfl, ?_⟩
    rw [List.getElem?_drop, hcells, Option.bind_some, Slice.shown?_eq_some_iff]
    exact ⟨⟨cell, hget, htext⟩, hne⟩
  · rintro ⟨i, rfl, hshow⟩
    rw [List.getElem?_drop, Option.bind_eq_some_iff] at hshow
    obtain ⟨cells, hcells, hshow⟩ := hshow
    obtain ⟨⟨cell, hget, htext⟩, hne⟩ := Slice.shown?_eq_some_iff.1 hshow
    exact ⟨hrow, Nat.le_add_right _ _, ⟨cell, (hcell i cell).2 ⟨cells, hcells, hget⟩, htext⟩, hne⟩

/-- The different texts among those looked up are the texts that the slice shows, in order. -/
theorem lists_eraseDups_shown (t : Table) (s : Slice) : t.Lists s (t.shown s).eraseDups := by
  by_cases hzero : s.column = 0 ∨ s.row = 0
  · -- nothing is looked up, and nothing is shown
    have hnone (row : Nat) (text : String) : ¬ t.Shows s row text := by
      rintro ⟨hrow, -, ⟨cell, hcell, -⟩, -⟩
      have hcolumn : s.column = 0 := hzero.resolve_right hrow
      simp [cell?, hcolumn] at hcell
    rw [shown_eq, if_pos hzero]
    exact ⟨fun text => by simp [hnone], List.nodup_nil, .nil⟩
  · obtain ⟨hcolumn, hrow⟩ := not_or.1 hzero
    rw [shown_eq, if_neg hzero]
    refine ⟨fun text => ?_, nodup_eraseDups _, ?_⟩
    · rw [List.mem_eraseDups, List.mem_filterMap]
      simp only [shows_iff hcolumn hrow, Option.bind_eq_some_iff]
      constructor
      · rintro ⟨cells, hcells, hshow⟩
        obtain ⟨i, hi, rfl⟩ := List.mem_iff_getElem.1 hcells
        exact ⟨_, i, rfl, _, List.getElem?_eq_getElem hi, hshow⟩
      · rintro ⟨-, i, rfl, cells, hcells, hshow⟩
        exact ⟨cells, List.mem_of_getElem? hcells, hshow⟩
    · -- what comes first in the list was shown first in an earlier row
      refine (pairwise_eraseDups_filterMap _ s.shown?).imp ?_
      intro a b hab row hb
      obtain ⟨i, rfl, hi⟩ := (shows_iff hcolumn hrow).1 hb
      obtain ⟨j, hj, hshow⟩ := hab i hi
      exact ⟨_, Nat.add_lt_add_left hj _, (shows_iff hcolumn hrow).2 ⟨j, rfl, hshow⟩⟩

/-- A list of what is shown is empty exactly when nothing is. -/
theorem Lists.eq_nil_iff {cells : List String} (h : t.Lists s cells) :
    cells = [] ↔ ∀ row text, ¬ t.Shows s row text := by
  rw [List.eq_nil_iff_forall_not_mem]
  simp only [h.mem_iff, not_exists]
  exact forall_comm

/-- Two texts do not both come before each other. -/
theorem not_shows_of_before {a b : String}
    (hab : ∀ row, t.Shows s row b → ∃ row' < row, t.Shows s row' a)
    (hba : ∀ row, t.Shows s row a → ∃ row' < row, t.Shows s row' b) (row : Nat) :
    ¬ t.Shows s row a := by
  -- otherwise each row that shows `a` has an earlier one
  induction row using Nat.strongRecOn with
  | ind row ih =>
    intro ha
    obtain ⟨row₁, hlt₁, hb⟩ := hba row ha
    obtain ⟨row₂, hlt₂, ha₂⟩ := hab row₁ hb
    exact ih row₂ (Nat.lt_trans hlt₂ hlt₁) ha₂

/-- There is one list of what a slice shows. -/
theorem Lists.unique {cells cells' : List String} (h : t.Lists s cells) (h' : t.Lists s cells') :
    cells = cells' := by
  -- the same texts, ordered by a relation that holds in one direction only
  refine List.Perm.eq_of_pairwise ?_ h.ordered h'.ordered ?_
  · intro a b ha _ hab hba
    obtain ⟨row, hrow⟩ := (h.mem_iff a).1 ha
    exact absurd hrow (not_shows_of_before hab hba row)
  · rw [List.perm_ext_iff_of_nodup h.nodup h'.nodup]
    exact fun text => (h.mem_iff text).trans (h'.mem_iff text).symm

end Table

/-! ### Evaluation -/

namespace Domain

/-- Evaluation makes a domain of the different texts that are looked up, if there are any and they
are not too many. -/
theorem evaluate_table_of_source {context : Context} {s : Slice} {t : Table}
    (ht : context.table s.table = some t.source) :
    evaluate context (.table s) = if (t.shown s).eraseDups = [] then .error (.emptySlice s.render)
      else checkSize s.render (table (t.shown s).eraseDups) := by
  show evaluateSlice context s = _
  rw [evaluateSlice, ht, Table.shown]
  dsimp only [Table.source]
  cases t.lookup s with
  | none => rfl
  | some cells =>
    cases cells with
    | nil => rfl
    | cons cell cells =>
      have hne : (cell :: cells).eraseDups ≠ [] := by
        rw [List.eraseDups_cons]
        exact List.cons_ne_nil _ _
      rw [Option.getD_some, if_neg hne]

/-- A table is missing exactly when the context has none of the name. -/
theorem evaluate_table_eq_unknown_iff {context : Context} {s : Slice} :
    evaluate context (.table s) = .error (.unknownTable s.table) ↔
      context.table s.table = none := by
  show evaluateSlice context s = _ ↔ _
  rw [evaluateSlice]
  cases context.table s.table with
  | none => simp
  | some source =>
    dsimp only
    split
    · simp
    · simp
    · rw [checkSize]
      split <;> simp

/-- A table is missing exactly when the context has none of the name, which for the context of a
model means that no table of the model is called so. With the table, a slice has no domain if it
shows no text, nor if it shows more different texts than allowed. Otherwise its domain holds the
texts that it shows, each once, in the order in which they first appear. -/
theorem evaluate_table (context : Context) (m : Model) (s : Slice) :
    (evaluate context (.table s) = .error (.unknownTable s.table) ↔
      context.table s.table = none) ∧
    (evaluate m.context (.table s) = .error (.unknownTable s.table) ↔
      ∀ t ∈ m.tables, t.name ≠ s.table) ∧
    ∀ t : Table, context.table s.table = some t.source →
      ((∃ cells, t.Lists s cells) ∧ ∀ cells, t.Lists s cells →
        (evaluate context (.table s) = .error (.emptySlice s.render) ↔
          ∀ row text, ¬ t.Shows s row text) ∧
        (evaluate context (.table s) = .error (.tooLarge s.render (UInt64.ofNat sizeLimit)) ↔
          sizeLimit < cells.length) ∧
        ((∃ row text, t.Shows s row text) → cells.length ≤ sizeLimit →
          evaluate context (.table s) = .ok (table cells))) := by
  refine ⟨evaluate_table_eq_unknown_iff, ?_, fun t ht => ?_⟩
  · rw [evaluate_table_eq_unknown_iff]
    simp [Model.context, Model.table?]
  · have hlists := t.lists_eraseDups_shown s
    refine ⟨⟨_, hlists⟩, fun cells hcells => ?_⟩
    have hnone := hcells.eq_nil_iff
    -- any list of the cells shown is the one that evaluation computes
    rw [evaluate_table_of_source ht, hlists.unique hcells, checkSize]
    by_cases hnil : cells = []
    · have hshows := hnone.1 hnil
      simp [hnil, hshows]
    · have hsize : (table cells).size = cells.length := rfl
      rw [if_neg hnil, hsize, ← hnone]
      by_cases hlarge : sizeLimit < cells.length <;> simp [hnil, hlarge]

/-- A table with a heading, rows of different lengths, blank cells and a repeated one. -/
def crewTable : Table :=
  ⟨"crew", [["name", "role"], ["ann", " pilot\t"], ["bob", "  "], ["cat"],
    ["dan", "medic", "reserve"], ["eve", "pilot"]]⟩

/-- A context that knows the table. -/
def crewContext : Context where
  sharedDomain _ := none
  table name := if name = "crew" then some crewTable.source else none
  aggregateSize _ := none

/-- The roles, from the second row on: two of them, the repeated one at its first row. -/
theorem evaluate_table_crewTable :
    crewContext.table "crew" = some crewTable.source ∧
      crewTable.Lists ⟨"crew", 2, 2⟩ ["pilot", "medic"] ∧
      evaluate crewContext (.table ⟨"crew", 2, 2⟩) = .ok (table ["pilot", "medic"]) := by
  have htable : crewContext.table "crew" = some crewTable.source := rfl
  have hlists : crewTable.Lists ⟨"crew", 2, 2⟩ ["pilot", "medic"] :=
    crewTable.lists_eraseDups_shown ⟨"crew", 2, 2⟩
  have hpilot : crewTable.Shows ⟨"crew", 2, 2⟩ 2 "pilot" :=
    ⟨by decide, by decide, ⟨" pilot\t", by decide, by decide⟩, by decide⟩
  obtain ⟨-, -, hslice⟩ := evaluate_table crewContext (.new "") ⟨"crew", 2, 2⟩
  obtain ⟨-, -, hok⟩ := (hslice crewTable htable).2 _ hlists
  exact ⟨htable, hlists, hok ⟨2, "pilot", hpilot⟩ (by decide)⟩

-- a slice that starts in row 0, beyond the last row or beyond every row's end shows nothing
example : (["crew!2:0", "crew!2:7", "crew!4:1"].map fun text =>
    (DomainExpr.parse text).toOption.map (evaluate crewContext)) =
    ["crew!2:0", "crew!2:7", "crew!4:1"].map fun text => some (.error (.emptySlice text)) := by
  decide +kernel

end Domain

end FiniteDomain
