import FiniteDomain.Proofs.Command.Board
import FiniteDomain.Proofs.Solution.Difference
import Mathlib.Data.List.Lex

/-!
# What the queens command prints

Without a limit on the search the command prints the first placement of queens that do not attack
each other, in the lexicographic order of their columns, or that there is none. The search goes
through positions of unknowns. These are the columns themselves, in the same order, and reading a
solution back turns each of them into the number of its column.

## Main definitions

* `Queens.drawnRow`, `Queens.drawing`: the picture of a placement.
* `Queens.heading`, `Queens.counters`: what is printed above the result.

## Main results

* `Queens.positionsOf_lt_positionsOf_iff`: positions are in the order of columns.
* `Queens.board_decode`: the board of a solution is the picture of its placement.
* `Queens.exists_report`: what is reported when the least solution was found.
* `Queens.run_prints_least_placement`: what the command prints.
-/

namespace FiniteDomain.Command.Queens

/-! ### Pictures -/

/-- A row with a queen in the given column, counted from 1. -/
def drawnRow (n column : Nat) : List Char :=
  List.replicate (column - 1) '.' ++ 'Q' :: List.replicate (n - column) '.'

/-- The rows of a placement. -/
def drawing (n : Nat) (columns : List Nat) : String :=
  String.join (columns.map fun column => String.ofList (drawnRow n column) ++ "\n")

/-- A row is as long as the board is wide. -/
theorem length_drawnRow {n column : Nat} (hlow : 1 ≤ column) (hhigh : column ≤ n) :
    (drawnRow n column).length = n := by
  simp only [drawnRow, List.length_append, List.length_cons, List.length_replicate]
  omega

/-- There is a queen in the given column and nowhere else. -/
theorem getElem?_drawnRow_eq_queen_iff {n column k : Nat} (hlow : 1 ≤ column) :
    (drawnRow n column)[k]? = some 'Q' ↔ k + 1 = column := by
  have hempty : ∀ length i : Nat, (List.replicate length '.')[i]? ≠ some 'Q' := by
    intro length i hqueen
    exact absurd (List.eq_of_mem_replicate (List.mem_of_getElem? hqueen)) (by decide)
  rcases Nat.lt_trichotomy k (column - 1) with hlt | heq | hgt
  · rw [drawnRow, List.getElem?_append_left (by simpa using hlt)]
    exact iff_of_false (hempty _ _) (by omega)
  · refine iff_of_true ?_ (by omega)
    simp [drawnRow, heq]
  · obtain ⟨i, rfl⟩ : ∃ i, k = column - 1 + (i + 1) := ⟨k - column, by omega⟩
    refine iff_of_false ?_ (by omega)
    simpa [drawnRow, List.getElem?_append_right] using hempty (n - column) i

theorem board_eq_join_valuesOf (n : Nat) (s : Snapshot) :
    board n s =
      String.join ((s.valuesOf (columnsOf n).name).map fun value => row n value ++ "\n") := by
  show board n s = String.join ((s.valuesOf "cols").map _)
  rw [board, Snapshot.valuesOf]
  cases s.aggregate? "cols" <;> rfl

/-! ### Order -/

variable {n : Nat}

section Sizes

variable (hlimit : n ≤ Domain.sizeLimit)
include hlimit

/-- Positions are in the lexicographic order of the columns. -/
theorem positionsOf_lt_positionsOf_iff {columns others : List Nat}
    (hcolumns : ∀ column ∈ columns, column ≤ n) (hothers : ∀ column ∈ others, column ≤ n) :
    positionsOf columns < positionsOf others ↔ columns < others := by
  induction columns generalizing others with
  | nil => cases others <;> simp [positionsOf]
  | cons a columns ih =>
    cases others with
    | nil => simp [positionsOf]
    | cons b others =>
      obtain ⟨ha, hcolumns⟩ := List.forall_mem_cons.1 hcolumns
      obtain ⟨hb, hothers⟩ := List.forall_mem_cons.1 hothers
      have hlt : Int64.ofNat a < Int64.ofNat b ↔ a < b := by
        rw [Int64.lt_iff_toInt_lt, toInt_ofNat_of_le hlimit ha, toInt_ofNat_of_le hlimit hb]
        omega
      have heq : Int64.ofNat a = Int64.ofNat b ↔ a = b := by
        rw [← Int64.toInt_inj, toInt_ofNat_of_le hlimit ha, toInt_ofNat_of_le hlimit hb]
        omega
      have htail : columns.map Int64.ofNat < others.map Int64.ofNat ↔ columns < others :=
        ih hcolumns hothers
      rw [positionsOf, positionsOf, List.map_cons, List.map_cons, List.cons_lt_cons_iff,
        List.cons_lt_cons_iff, hlt, heq, htail]

/-- The command writes the queen into an empty row, at the place of her column. -/
theorem row_int {column : Nat} (hlow : 1 ≤ column) (hhigh : column ≤ n) :
    row n (.int (Int64.ofNat column)) = String.ofList (drawnRow n column) := by
  have hcolumn : (Int64.ofNat column).toNatClampNeg = column := by
    show (Int64.ofNat column).toInt.toNat = column
    rw [toInt_ofNat_of_le hlimit hhigh, Int.toNat_natCast]
  have hplace : column - 1 < (List.replicate n '.').length := by
    rw [List.length_replicate]
    omega
  rw [row, hcolumn, List.set_eq_take_append_cons_drop, if_pos hplace, List.take_replicate,
    List.drop_replicate, Nat.min_eq_left (by omega), Nat.sub_add_cancel hlow]
  rfl

variable (hone : 1 ≤ n)
include hone

/-- The least solution is the least placement. -/
theorem exists_isLeast_placement {v : List Int64}
    (hv : IsLeast {v | (boardModel n).Solution v} v) :
    ∃ columns, IsLeast {columns | Placement n columns} columns ∧ v = positionsOf columns := by
  obtain ⟨hsolution, hleast⟩ := hv
  obtain ⟨columns, hplacement, rfl⟩ := (solution_iff hone hlimit).1 hsolution
  refine ⟨columns, ⟨hplacement, ?_⟩, rfl⟩
  intro others hothers
  -- positions of another placement are not smaller, so its columns are not either
  have hle : ¬ positionsOf others < positionsOf columns :=
    List.not_lt.2 (hleast ((solution_iff hone hlimit).2 ⟨others, hothers, rfl⟩))
  rw [positionsOf_lt_positionsOf_iff hlimit (fun column h => (hothers.inside column h).2)
    fun column h => (hplacement.inside column h).2] at hle
  exact not_lt.1 hle

/-! ### Boards -/

/-- The value of a row is the column of the queen. -/
theorem eq_int_of_value? {p : Int64} {x : Value} {column : Nat} (hcolumn : column ≤ n)
    (hvalue : (columnDomain n).value? p = some x) (hkey : (columnDomain n).exactKey p = column) :
    x = .int (Int64.ofNat column) := by
  obtain ⟨hp, rfl⟩ := Domain.value?_intRange_eq_some_iff.1 hvalue
  have hproper := proper_columnDomain hone hlimit
  congr 1
  rw [← Int64.toInt_inj, toInt_ofNat_of_le hlimit hcolumn, ← hkey]
  exact Domain.toInt_key hproper hp

/-- The values of a solution are the columns of the queens. -/
theorem valuesOf_decode_positionsOf {net : Network}
    (hbuild : Network.build (boardModel n) = .ok net) {columns : List Nat}
    (hcolumns : OnBoard n columns) :
    ((boardModel n).decode (positionsOf columns)).valuesOf (columnsOf n).name =
      columns.map fun column => .int (Int64.ofNat column) := by
  have hnames : ((boardModel n).vars.map Variable.name).Nodup := by simp [boardModel]
  have hmem := mem_aggregates_boardModel n
  have hkeys := Model.map_fst_entries hbuild
    ((admits_iff hone hlimit).2 ⟨columns, hcolumns, rfl⟩)
  have hlength := Model.length_valuesOf hnames hmem hkeys
  have hposition := @Model.exists_position_of_valuesOf _ _ hnames hmem _ hkeys
  -- what follows needs only the number of the values and where they come from
  generalize ((boardModel n).decode (positionsOf columns)).valuesOf (columnsOf n).name = values
    at hlength hposition
  rw [size_columnsOf, ← hcolumns.length_eq] at hlength
  refine List.ext_getElem (by rw [hlength, List.length_map]) ?_
  intro i hi _
  obtain ⟨d, p, hd, hvalue, hkey⟩ := hposition (List.getElem?_eq_getElem hi)
  have hcolumn : columns[i]? = some columns[i] := List.getElem?_eq_getElem (by rwa [← hlength])
  obtain ⟨k, -, hk⟩ := Option.bind_eq_some_iff.1 hd
  rw [domains_boardModel hone hlimit] at hk
  obtain rfl : d = columnDomain n := List.eq_of_mem_replicate (List.mem_of_getElem? hk)
  have hchosen := chosenKey?_cols hone hlimit hcolumns hcolumn
  rw [List.getElem_map]
  exact eq_int_of_value? hlimit hone (hcolumns.inside _ (List.mem_of_getElem? hcolumn)).2 hvalue
    (Option.some.inj (hkey.symm.trans hchosen))

/-- The board of a solution is the picture of its placement. -/
theorem board_decode {net : Network} (hbuild : Network.build (boardModel n) = .ok net)
    {columns : List Nat} (hcolumns : OnBoard n columns) :
    board n ((boardModel n).decode (positionsOf columns)) = drawing n columns := by
  rw [board_eq_join_valuesOf, valuesOf_decode_positionsOf hlimit hone hbuild hcolumns,
    List.map_map, drawing]
  congr 1
  refine List.map_congr_left fun column hcolumn => ?_
  obtain ⟨hlow, hhigh⟩ := hcolumns.inside column hcolumn
  show row n (.int (Int64.ofNat column)) ++ "\n" = _
  rw [row_int hlimit hlow hhigh]

end Sizes

/-! ### The command -/

/-- The first line of the output. -/
def heading (n : Nat) : String :=
  "Solving N-Queens for N=" ++ Decimal.ofNat n ++ "\n"

/-- The counters of the search, with those of each constraint if they are asked for. -/
def counters (statistics : Bool) (net : Network) (s : Statistics) : String :=
  summary s ++ if statistics then "\n" ++ s.table net ++ "\n" else ""

theorem report_none (request : Request) (net : Network) (s : Statistics) :
    report request net (none, s) =
      .ok (counters request.statistics net s ++ "\nNo solution found.\n") :=
  rfl

theorem report_some (request : Request) {net : Network} {a : Assignment} {snapshot : Snapshot}
    (hextract : Snapshot.extract net a = .ok snapshot) (s : Statistics) :
    report request net (some a, s) = .ok (counters request.statistics net s ++
      ("\nFound a solution:\n" ++ board request.size snapshot)) := by
  rw [← String.append_assoc]
  exact bind_eq_ok_iff.2 ⟨snapshot, hextract, rfl⟩

/-- The output is that of the report, below the heading. -/
theorem run_of_report {request : Request} {m : Model} {net : Network}
    {outcome : Option Assignment × Statistics} {text : String}
    (hmodel : model request.size = .ok m) (hbuild : Network.build m = .ok net)
    (hsearch : Search.search net request.limit = .ok outcome)
    (hreport : report request net outcome = .ok text) :
    run request = ⟨0, heading request.size ++ text, ""⟩ := by
  have hresult : search request m = .ok text := by
    rw [search, bind_eq_ok_iff]
    exact ⟨net, hbuild, bind_eq_ok_iff.2 ⟨outcome, hsearch, hreport⟩⟩
  unfold run
  rw [hmodel]
  dsimp only
  rw [hresult]
  rfl

/-- The network of a board is satisfied by the placements of queens. -/
theorem solves_iff_placement {net : Network} (hone : 1 ≤ n) (hlimit : n ≤ Domain.sizeLimit)
    (hbuild : Network.build (boardModel n) = .ok net) (v : List Int64) :
    (net.Solves v ∧ net.contradiction = false) ↔
      ∃ columns, Placement n columns ∧ v = positionsOf columns := by
  rw [← solution_iff hone hlimit]
  obtain ⟨-, hdir, hmeets⟩ := Network.build_eq_ok hbuild
  constructor
  · rintro ⟨hsolves, hflag⟩
    have hsolution : v ∈ {v | net.Solves v} := hsolves
    rwa [Network.solutions_eq hbuild hflag] at hsolution
  · intro hsolution
    have hflag := ((hmeets v hsolution.admits).2 hsolution.satisfies).2
    have hsolves : v ∈ {v | (boardModel n).Solution v} := hsolution
    rw [← Network.solutions_eq hbuild hflag] at hsolves
    exact ⟨hsolves, hflag⟩

/-- The report on a search that finds the least solution of the board says that there is none, or
shows the least placement. -/
theorem exists_report {net : Network} (hone : 1 ≤ n) (hlimit : n ≤ Domain.sizeLimit)
    (hbuild : Network.build (boardModel n) = .ok net) {found : Option Assignment}
    (hfound : Search.FindsLeast {v | (boardModel n).Solution v} found) (statistics : Bool)
    (s : Statistics) :
    ∃ ending,
      report ⟨n, none, statistics⟩ net (found, s) = .ok (counters statistics net s ++ ending) ∧
      (ending = "\nNo solution found.\n" ↔ ∀ columns, ¬ Placement n columns) ∧
      ((∃ columns, Placement n columns) →
        ∃ columns, IsLeast {columns | Placement n columns} columns ∧
          ending = "\nFound a solution:\n" ++ drawing n columns) := by
  rcases found with _ | a
  · have hnone : ∀ columns, ¬ Placement n columns := by
      intro columns hcolumns
      have hsolution := (solution_iff hone hlimit).2 ⟨columns, hcolumns, rfl⟩
      exact Set.eq_empty_iff_forall_notMem.1 hfound _ hsolution
    refine ⟨_, report_none _ net s, iff_of_true rfl hnone, ?_⟩
    rintro ⟨columns, hcolumns⟩
    exact absurd hcolumns (hnone columns)
  · obtain ⟨v, ha, hv⟩ := hfound
    -- the order of choices is the order of placements, so the least one is drawn
    obtain ⟨columns, hleast, rfl⟩ := exists_isLeast_placement hlimit hone hv
    have hextract : Snapshot.extract net a = .ok _ :=
      Model.extract_eq_decode_of_admits (by simp [boardModel]) hbuild hv.1.admits
        fun i _ hp => (ha i).trans hp
    have hreport := report_some ⟨n, none, statistics⟩ hextract s
    dsimp only at hreport
    rw [board_decode hlimit hone hbuild hleast.1.toOnBoard] at hreport
    refine ⟨_, hreport, iff_of_false ?_ ?_, fun _ => ⟨columns, hleast, rfl⟩⟩
    · -- the two endings differ in the first letter
      intro hending
      have hfirst := congrArg (fun text => text.toList[1]?) hending
      simp at hfirst
    · exact fun hnone => hnone columns hleast.1

/-- The board of `n` rows is modelled for every `n` from 1 to 2 ^ 20, and its network is built. The
unknowns are the columns of the queens in the rows, in order, and the choices that satisfy the
network are the placements in which no queen attacks another. Without a limit the command ends with
exit code 0 and without diagnostics. It prints that there is no solution exactly when there is no
placement. Otherwise it prints the least placement in lexicographic order as rows of `n` squares,
with a queen in her column and nowhere else. -/
theorem run_prints_least_placement (hone : 1 ≤ n) (hlimit : n ≤ 2 ^ 20) (statistics : Bool) :
    ∃ m net found s ending, model n = .ok m ∧ Network.build m = .ok net ∧
      net.directory.keys = (List.range' 1 n).map (.element "cols") ∧
      net.directory.domains = List.replicate n (.intRange 1 (Int64.ofNat n)) ∧
      (∀ v, (net.Solves v ∧ net.contradiction = false) ↔
        ∃ columns, Placement n columns ∧ v = positionsOf columns) ∧
      Search.search net none = .ok (found, s) ∧
      run ⟨n, none, statistics⟩ = ⟨0, heading n ++ (counters statistics net s ++ ending), ""⟩ ∧
      (ending = "\nNo solution found.\n" ↔ ∀ columns, ¬ Placement n columns) ∧
      ((∃ columns, Placement n columns) →
        ∃ columns, IsLeast {columns | Placement n columns} columns ∧
          ending = "\nFound a solution:\n" ++ drawing n columns ∧
          ∀ column ∈ columns, (drawnRow n column).length = n ∧
            ∀ k, (drawnRow n column)[k]? = some 'Q' ↔ k + 1 = column) := by
  have hsizeLimit : n ≤ Domain.sizeLimit := hlimit
  obtain ⟨net, hbuild⟩ := exists_build hone hsizeLimit
  obtain ⟨found, s, hsearch, hfound⟩ := Network.search_build_findsLeast hbuild
  obtain ⟨ending, hreport, hnone, hsome⟩ :=
    exists_report hone hsizeLimit hbuild hfound statistics s
  have hdir := (Network.build_eq_ok hbuild).2.1
  refine ⟨_, net, found, s, ending, model_eq hone, hbuild, hdir ▸ keys_boardModel n,
    hdir ▸ domains_boardModel hone hsizeLimit, solves_iff_placement hone hsizeLimit hbuild, hsearch,
    run_of_report (model_eq hone) hbuild hsearch hreport, hnone, fun hexists => ?_⟩
  obtain ⟨columns, hleast, hending⟩ := hsome hexists
  refine ⟨columns, hleast, hending, fun column hcolumn => ?_⟩
  obtain ⟨hlow, hhigh⟩ := hleast.1.inside column hcolumn
  exact ⟨length_drawnRow hlow hhigh, fun k => getElem?_drawnRow_eq_queen_iff hlow⟩

/-- Four queens can be placed, and the first of their placements is printed. -/
theorem run_prints_least_placement_four :
    1 ≤ 4 ∧ 4 ≤ 2 ^ 20 ∧ Placement 4 [2, 4, 1, 3] ∧
      ∃ m net s columns, model 4 = .ok m ∧ Network.build m = .ok net ∧
        IsLeast {columns | Placement 4 columns} columns ∧
        run ⟨4, none, false⟩ = ⟨0, heading 4 ++ (counters false net s ++
          ("\nFound a solution:\n" ++ drawing 4 columns)), ""⟩ := by
  have hplacement : Placement 4 [2, 4, 1, 3] := by decide
  obtain ⟨m, net, -, s, ending, hmodel, hbuild, -, -, -, -, hrun, -, hfound⟩ :=
    run_prints_least_placement (n := 4) (by decide) (by decide) false
  obtain ⟨columns, hleast, rfl, -⟩ := hfound ⟨_, hplacement⟩
  exact ⟨by decide, by decide, hplacement, m, net, s, columns, hmodel, hbuild, hleast, hrun⟩

end FiniteDomain.Command.Queens
