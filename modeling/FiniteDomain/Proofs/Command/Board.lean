import FiniteDomain.Proofs.Command.Diagonal
import FiniteDomain.Proofs.Solution.Rejection

/-!
# The network of a board

The model that the queens command makes has one unknown for each row of the board, with the columns
as its values. Its network can be built for every board of at least one and at most
`Domain.sizeLimit` rows, and what it allows is the placements of queens that do not attack each
other.

Rows are counted from 0 in lists and from 1 in the model; shifting both rows of a pair by one
changes nothing about their diagonals.

## Main definitions

* `Queens.Placement`: a placement of queens that do not attack each other.
* `Queens.boardModel`: the model that the edits make.

## Main results

* `Queens.model_eq`: the edits are accepted and make this model.
* `Queens.exists_build`: its network can be built.
* `Queens.solution_iff`: its solutions are the placements.
-/

namespace FiniteDomain.Command.Queens

/-! ### Placements -/

/-- A queen in each row of a board of `n` rows and columns, given by the columns of the queens,
which are counted from 1. -/
structure OnBoard (n : Nat) (columns : List Nat) : Prop where
  /-- There is one queen in each row. -/
  length_eq : columns.length = n
  /-- She stands in a column of the board. -/
  inside : ∀ column ∈ columns, 1 ≤ column ∧ column ≤ n

/-- A queen in each row such that no two share a column or a diagonal. -/
structure Placement (n : Nat) (columns : List Nat) : Prop extends OnBoard n columns where
  /-- Queens in different rows stand in different columns. -/
  column_ne : ∀ {i j a b : Nat}, i < j → columns[i]? = some a → columns[j]? = some b → a ≠ b
  /-- They are on different diagonals that go up with the columns. -/
  sum_ne : ∀ {i j a b : Nat}, i < j → columns[i]? = some a → columns[j]? = some b → a + i ≠ b + j
  /-- They are on different diagonals that go down with the columns. -/
  difference_ne : ∀ {i j a b : Nat}, i < j → columns[i]? = some a → columns[j]? = some b →
    a + j ≠ b + i

/-- Whether queens attack each other is decided pair by pair. -/
instance (n : Nat) (columns : List Nat) : Decidable (Placement n columns) :=
  decidable_of_iff (columns.length = n ∧ (∀ column ∈ columns, 1 ≤ column ∧ column ≤ n) ∧
      ∀ i j : Fin columns.length, i < j → columns[i] ≠ columns[j] ∧
        columns[i] + i ≠ columns[j] + j ∧ columns[i] + j ≠ columns[j] + i) <| by
    constructor
    · rintro ⟨hlength, hinside, hapart⟩
      have hpair : ∀ {i j a b : Nat}, i < j → columns[i]? = some a → columns[j]? = some b →
          a ≠ b ∧ a + i ≠ b + j ∧ a + j ≠ b + i := by
        intro i j a b hij ha hb
        obtain ⟨hi, rfl⟩ := List.getElem?_eq_some_iff.1 ha
        obtain ⟨hj, rfl⟩ := List.getElem?_eq_some_iff.1 hb
        exact hapart ⟨i, hi⟩ ⟨j, hj⟩ hij
      exact ⟨⟨hlength, hinside⟩, fun hij ha hb => (hpair hij ha hb).1,
        fun hij ha hb => (hpair hij ha hb).2.1, fun hij ha hb => (hpair hij ha hb).2.2⟩
    · intro hplacement
      refine ⟨hplacement.length_eq, hplacement.inside, ?_⟩
      intro i j hij
      have ha : columns[(i : Nat)]? = some columns[i] := List.getElem?_eq_getElem i.2
      have hb : columns[(j : Nat)]? = some columns[j] := List.getElem?_eq_getElem j.2
      exact ⟨hplacement.column_ne hij ha hb, hplacement.sum_ne hij ha hb,
        hplacement.difference_ne hij ha hb⟩

example : Placement 4 [2, 4, 1, 3] ∧ ¬ Placement 4 [1, 3, 4, 2] := by decide

/-! ### The model -/

/-- The columns of the queens. -/
def columnsOf (n : Nat) : Aggregate :=
  ⟨"cols", "1..size(cols)", Aggregate.freshElements "cols" 0 n⟩

/-- The constraints of the board. -/
def boardConstraints (n : Nat) : List ModelConstraint :=
  .allDifferent "constraint1" "cols" ::
    if 1 < n then
      [.expression "constraint2" (diagonalText .plus n),
        .expression "constraint3" (diagonalText .minus n)]
    else []

/-- The model of the board. -/
def boardModel (n : Nat) : Model where
  name := Decimal.ofNat n ++ " queens"
  vars := [.aggregate (columnsOf n)]
  sharedDomains := []
  bundles := []
  tables := []
  constraints := boardConstraints n

/-- The aggregate of the columns is declared in the empty model. -/
theorem edit_addAggregate {n : Nat} (h : 1 ≤ n) (name : String) :
    Draft.edit (Draft.new name) (.addAggregate "cols" n "1..size(cols)") =
      ⟨{ Model.new name with vars := [.aggregate (columnsOf n)] }, none⟩ := by
  have hpositive : n ≠ 0 := by omega
  have hname : requireName "cols" = .ok "cols" := by decide
  have hdomain : requireExpression "cols" "1..size(cols)" = .ok "1..size(cols)" := by decide
  simp [Draft.edit, Draft.new, Edit.apply, Model.addAggregate, Model.requireFreshVariable, hname,
    hdomain, Aggregate.new, hpositive, Model.new, Model.variableNamed?, columnsOf, bind,
    Except.bind, pure, Except.pure]

/-- The rule that columns differ is accepted by any model. -/
theorem edit_addAllDifferent (m : Model) :
    Draft.edit ⟨m, none⟩ (.addAllDifferent "cols") =
      ⟨{ m with constraints := m.constraints ++ [.allDifferent m.nextConstraintName "cols"] },
        none⟩ := by
  have htarget : ∀ name, requireExpression name "cols" = .ok "cols" := fun _ => rfl
  simp [Draft.edit, Edit.apply, Model.addAllDifferent, htarget, bind, Except.bind, pure,
    Except.pure, Except.map]

/-- A template is not blank, so it is accepted. -/
theorem edit_addExpression (m : Model) (sign : String) (n : Nat) :
    Draft.edit ⟨m, none⟩ (.addExpression (diagonal sign n)) =
      ⟨{ m with constraints :=
          m.constraints ++ [.expression m.nextConstraintName (diagonal sign n)] }, none⟩ := by
  have hvisible : Text.isBlank 'c' = false := by decide
  have hblank : Text.isBlankText (diagonal sign n) = false := by
    simp [Text.isBlankText, diagonal, hvisible]
  simp [Draft.edit, Edit.apply, Model.addExpression, requireExpression, hblank, bind, Except.bind,
    pure, Except.pure, Except.map]

/-- The edits make the model of the board. -/
theorem model_eq {n : Nat} (h : 1 ≤ n) : model n = .ok (boardModel n) := by
  have hone : Model.constraintName 1 = "constraint1" := by decide
  have htwo : Model.constraintName 2 = "constraint2" := by decide
  have hthree : Model.constraintName 3 = "constraint3" := by decide
  rw [model, edits, List.foldl_append, List.foldl_cons, List.foldl_cons, List.foldl_nil,
    edit_addAggregate h, edit_addAllDifferent]
  by_cases hmore : 1 < n
  · rw [if_pos hmore, List.foldl_cons, List.foldl_cons, List.foldl_nil, edit_addExpression,
      edit_addExpression]
    simp [Model.nextConstraintName, boardModel, boardConstraints, diagonalText, signChar, hmore,
      hone, htwo, hthree, Draft.build, List.range'_succ, Model.new, ModelConstraint.name]
  · rw [if_neg hmore]
    simp [Model.nextConstraintName, boardModel, boardConstraints, hmore, hone, Draft.build,
      Model.new]

/-! ### The unknowns -/

theorem size_columnsOf (n : Nat) : (columnsOf n).size = n := by
  simp [columnsOf, Aggregate.size, Aggregate.freshElements]

theorem mem_aggregates_boardModel (n : Nat) : columnsOf n ∈ (boardModel n).aggregates := by
  simp [Model.aggregates, boardModel, Variable.aggregate?]

/-- The rule that columns differ finds their aggregate. -/
theorem aggregate?_boardModel (n : Nat) :
    (boardModel n).aggregate? (allDifferentTarget "cols") = some (columnsOf n) := by
  have hcols : allDifferentTarget "cols" = "cols" := by decide
  rw [hcols]
  rfl

/-- The columns are all that the board declares. -/
theorem declarations_boardModel (n : Nat) :
    (boardModel n).declarations = (columnsOf n).declarations := by
  simp [Model.declarations, Model.singletons, Model.aggregates, Model.buckets, boardModel,
    Variable.aggregate?, Variable.bucket?]

/-- The columns are declared in the order of their rows. -/
theorem keys_boardModel (n : Nat) :
    (boardModel n).directory.keys = (List.range' 1 n).map (.element "cols") := by
  show (boardModel n).declarations.map Declaration.key = _
  rw [declarations_boardModel, Model.map_key_declarations, size_columnsOf]
  rfl

variable {n : Nat}

/-- The element of a row leads to the unknown of this row. -/
theorem number?_cols {i : Nat} (hone : 1 ≤ i) (hle : i ≤ n) :
    (boardModel n).directory.number? (.element "cols" i) = some (i - 1) := by
  obtain ⟨k, hk⟩ := Model.exists_number_element (mem_aggregates_boardModel n) hone
    (by rwa [size_columnsOf])
  have hkey := Model.getElem?_keys_of_number? hk
  rw [keys_boardModel, List.getElem?_map, Option.map_eq_some_iff] at hkey
  obtain ⟨index, hindex, heq⟩ := hkey
  obtain ⟨hlt, hvalue⟩ := List.getElem?_eq_some_iff.1 hindex
  rw [List.getElem_range'] at hvalue
  obtain rfl : index = i := (UnknownKey.element.inj heq).2
  obtain rfl : k = index - 1 := by omega
  exact hk

/-- The domain of every unknown: the columns of the board. -/
def columnDomain (n : Nat) : Domain :=
  .intRange 1 (Int64.ofNat n)

/-- The key of a column is its position, since columns are counted from 1. -/
theorem exactKey_columnDomain (p : Int64) : (columnDomain n).exactKey p = p.toInt := by
  have hone : (1 : Int64).toInt = 1 := rfl
  rw [columnDomain, Domain.exactKey, hone]
  omega

section Sizes

variable (hone : 1 ≤ n) (hlimit : n ≤ Domain.sizeLimit)

include hlimit in
theorem toInt_ofNat_of_le {k : Nat} (hk : k ≤ n) : (Int64.ofNat k).toInt = k := by
  have hsizeLimit : Domain.sizeLimit = 1048576 := rfl
  exact Int64.toInt_ofNat_of_lt (by omega)

include hone hlimit

/-- The domain text stands for the columns of the board. -/
theorem evaluate_columnDomain :
    Resolver.evaluate (boardModel n).context (Text.trim "1..size(cols)") =
      .ok (columnDomain n) := by
  have hparse : DomainExpr.parse (Text.trim "1..size(cols)") =
      .ok (.range (.integer 1) (.call ⟨"size", [.name "cols"]⟩)) := by
    decide +kernel
  have hsizeLimit : Domain.sizeLimit = 1048576 := rfl
  have hcountLimit : Domain.countLimit = 18446744073709551615 := rfl
  have hmax : Int64.maxValue.toNatClampNeg = 9223372036854775807 := rfl
  have hfirst : (1 : Int64).toInt = 1 := rfl
  have hlast := toInt_ofNat_of_le hlimit (Nat.le_refl n)
  -- the call answers the number of the rows, which is no larger than the greatest word
  have hcall : Domain.evaluateCall (boardModel n).context ⟨"size", [.name "cols"]⟩ =
      .ok (Int64.ofNat n) := by
    have hname : "size".toList.map Char.toLower = ['s', 'i', 'z', 'e'] := by decide
    have haggregate : (boardModel n).context.aggregateSize "cols" = some n :=
      congrArg some (size_columnsOf n)
    simp only [Domain.evaluateCall, hname, haggregate, if_true, hmax]
    rw [Nat.min_eq_left (by omega)]
  have hle : (1 : Int64) ≤ Int64.ofNat n := by
    rw [Int64.le_iff_toInt_le, hlast, hfirst]
    omega
  have hsize : ¬ Domain.sizeLimit < (Domain.intRange 1 (Int64.ofNat n)).size := by
    rw [Domain.size, hlast, hfirst]
    omega
  refine Resolver.evaluate_eq_ok_iff.2 ⟨_, hparse, ?_⟩
  simp [Domain.evaluate, Domain.evaluateWith, Domain.evaluateRange, Domain.evaluateBand, hcall,
    Domain.checkSize, hle, hsize, columnDomain, bind, Except.bind, Except.map]

/-- Every column has the domain of the aggregate. -/
theorem domain?_of_mem {d : Declaration} (hd : d ∈ (boardModel n).declarations) :
    (boardModel n).domain? d = some (columnDomain n) := by
  rw [declarations_boardModel] at hd
  obtain ⟨i, hi, rfl⟩ := List.mem_mapIdx.1 hd
  have htext : ((columnsOf n).elements[i].domainOverride.getD (columnsOf n).domain) =
      "1..size(cols)" := by
    simp [columnsOf, Aggregate.freshElements]
  rw [Model.domain?_eq_some_iff, htext]
  exact evaluate_columnDomain hone hlimit

/-- All unknowns of the board have one domain. -/
theorem domains_boardModel :
    (boardModel n).directory.domains = List.replicate n (columnDomain n) := by
  have hlength : (boardModel n).declarations.length = n := by
    rw [declarations_boardModel, Aggregate.declarations, List.length_mapIdx]
    exact size_columnsOf n
  show (boardModel n).declarations.filterMap (boardModel n).domain? = _
  rw [List.filterMap_congr fun d hd => domain?_of_mem hone hlimit hd]
  simp [hlength]

theorem proper_columnDomain : (columnDomain n).Proper :=
  Resolver.proper_of_evaluate (evaluate_columnDomain hone hlimit)

/-- There are as many columns as rows. -/
theorem toInt_sizeWord_columnDomain : (columnDomain n).sizeWord.toInt = n := by
  have hfirst : (1 : Int64).toInt = 1 := rfl
  rw [columnDomain, Domain.toInt_sizeWord_intRange (proper_columnDomain hone hlimit),
    toInt_ofNat_of_le hlimit (Nat.le_refl n), hfirst]
  omega

/-- Positions are columns. -/
theorem mem_positions_columnDomain {p : Int64} :
    p ∈ (columnDomain n).positions ↔ 1 ≤ p.toInt ∧ p.toInt ≤ n := by
  rw [Domain.mem_positions, Word.one_le_iff, Int64.le_iff_toInt_le,
    toInt_sizeWord_columnDomain hone hlimit]

/-! ### Construction -/

/-- A row can be added to a column or subtracted from it. -/
theorem overflows_columnDomain {offset : Int64} (hlow : -n ≤ offset.toInt)
    (hhigh : offset.toInt ≤ n) : Network.overflows (columnDomain n) offset = false := by
  have hsizeLimit : Domain.sizeLimit = 1048576 := rfl
  have hmin : Int64.minValue.toInt = -9223372036854775808 := rfl
  have hmax : Int64.maxValue.toInt = 9223372036854775807 := rfl
  have hfirst : (1 : Int64).toInt = 1 := rfl
  have hlast := toInt_sizeWord_columnDomain hone hlimit
  have hsum : ∀ p : Int64, 1 ≤ p.toInt → p.toInt ≤ n →
      (Word.addExact? ((columnDomain n).key p) offset).isNone = false := by
    intro p hp hle
    have hmem := (mem_positions_columnDomain hone hlimit).2 ⟨hp, hle⟩
    rw [Word.addExact?, Domain.toInt_key (proper_columnDomain hone hlimit) hmem,
      exactKey_columnDomain, Template.ofInt?_of_fits ⟨by omega, by omega⟩]
    rfl
  rw [Network.overflows, hsum 1 (by omega) (by omega), hsum _ (by omega) (by omega)]
  rfl

variable {net : Network} (hnet : net.Sound) (hdir : net.directory = (boardModel n).directory)
include hnet hdir

/-- The diagonal of a queen is resolved to the unknown of her row. -/
theorem exists_side (s : Sign) {i : Nat} (hi : 1 ≤ i) (hin : i ≤ n) :
    ∃ number offset d,
      net.side (diagonalOf s (.literal (Int64.ofNat i))) = .ok (.unknown number offset d) := by
  have hsizeLimit : Domain.sizeLimit = 1048576 := rfl
  have hword := toInt_ofNat_of_le hlimit hin
  have hkey : (Reference.element "cols" (.literal (Int64.ofNat i))).key =
      .ok (.element "cols" i) := by
    rw [Model.key_element (by omega), hword]
    rfl
  obtain ⟨⟨k, u⟩, hfound⟩ := Network.resolve_of_number hnet hdir hkey (number?_cols hi hin)
  obtain ⟨-, -, -, hu⟩ := Network.resolve_eq_ok hfound
  have hdomain : u.domain = columnDomain n := by
    have hd := net.getElem?_domains k
    rw [hdir, hu, domains_boardModel hone hlimit] at hd
    exact List.eq_of_mem_replicate (List.mem_of_getElem? hd)
  -- the row is added or subtracted, and stays within the size of the board either way
  obtain ⟨offset, hoffset, hlow, hhigh⟩ : ∃ offset,
      (diagonalOf s (.literal (Int64.ofNat i))).offset = .ok offset ∧ -n ≤ offset.toInt ∧
        offset.toInt ≤ n := by
    cases s with
    | plus => exact ⟨_, rfl, by omega, by omega⟩
    | minus =>
      have hneg : (Int64.ofInt (-i)).toInt = -i :=
        Int64.toInt_ofInt_of_le (by omega) (by omega)
      have hexact : Word.negExact? (Int64.ofNat i) = some (Int64.ofInt (-i)) :=
        Word.negExact?_eq_some_iff.2 (by rw [hneg, hword])
      refine ⟨Int64.ofInt (-i), ?_, by omega, by omega⟩
      simp [diagonalOf, Term.offset, Adjustment.offset, hexact]
  have hfits := overflows_columnDomain hone hlimit hlow hhigh
  rw [← hdomain] at hfits
  refine ⟨k, offset, u.domain, ?_⟩
  show (net.resolve _ >>= _) = _
  rw [hfound]
  show (Term.offset _ >>= _) = _
  rw [hoffset]
  simp [hfits, bind, Except.bind, pure, Except.pure]

/-- The rule for one diagonal and two rows is accepted: both rows are on the board, and a column
with a row added or subtracted fits the word. -/
theorem exists_addRelation (name : String) (s : Sign) {i j : Nat} (hj : 1 ≤ j) (hji : j < i)
    (hi : i ≤ n) : ∃ net', Network.addRelation name net (apart s i j) = .ok net' := by
  obtain ⟨a, offsetA, dA, hleft⟩ :=
    exists_side hone hlimit hnet hdir s (show 1 ≤ i by omega) hi
  obtain ⟨b, offsetB, dB, hright⟩ :=
    exists_side hone hlimit hnet hdir s hj (show j ≤ n by omega)
  obtain ⟨effect, heffect⟩ : ∃ effect, net.effectOf name (apart s i j) = .ok effect := by
    by_cases hab : a = b <;>
      simp [Network.effectOf, apart, hleft, hright, hab, bind, Except.bind, pure, Except.pure]
  refine ⟨net.apply effect, ?_⟩
  rw [Network.addRelation, heffect]
  rfl

/-- The rule for the diagonals of one direction is accepted pair by pair. -/
theorem exists_addDiagonal (name : String) (s : Sign) :
    ∃ net', Network.addModelConstraint (boardModel n) net (.expression name (diagonalText s n)) =
      .ok net' := by
  have hsizeLimit : Domain.sizeLimit = 1048576 := rfl
  obtain ⟨relations, hexpand, hmem⟩ := exists_expandText_diagonal s (show n < 2 ^ 63 by omega)
  rw [Network.addModelConstraint, Network.relationsOf, hexpand]
  refine exists_foldlM_eq_ok
    (P := fun net => net.Sound ∧ net.directory = (boardModel n).directory) ?_ ?_ ⟨hnet, hdir⟩
  · rintro net₁ e he ⟨hnet₁, hdir₁⟩
    obtain ⟨i, j, hj, hji, hi, rfl⟩ := (hmem e).1 he
    exact exists_addRelation hone hlimit hnet₁ hdir₁ name s hj hji hi
  · rintro net₁ e net₂ ⟨hnet₁, hdir₁⟩ h₁
    have hrefines := Network.refines_addRelation hnet₁ h₁
    exact ⟨hrefines.sound, hrefines.directory_eq.trans hdir₁⟩

omit hone hlimit hnet in
/-- The rule that columns differ is accepted, since its aggregate is declared. -/
theorem exists_addAllDifferent (name : String) :
    ∃ net', Network.addModelConstraint (boardModel n) net (.allDifferent name "cols") =
      .ok net' := by
  obtain ⟨elements, helements⟩ :=
    Network.exists_elementNumbers hdir (mem_aggregates_boardModel n) (allDifferentTarget "cols")
  rw [Network.addModelConstraint, Network.addAllDifferent, aggregate?_boardModel]
  dsimp only
  rw [helements]
  exact ⟨_, rfl⟩

end Sizes

/-- The constraints of the board are one for the columns and one for each kind of diagonal. The
board of one row does without the latter. -/
theorem forall_mem_boardConstraints {P : ModelConstraint → Prop} :
    (∀ c ∈ boardConstraints n, P c) ↔ P (.allDifferent "constraint1" "cols") ∧
      (1 < n → P (.expression "constraint2" (diagonalText .plus n)) ∧
        P (.expression "constraint3" (diagonalText .minus n))) := by
  rw [boardConstraints, List.forall_mem_cons]
  by_cases hmore : 1 < n <;> simp [hmore]

/-- The network of the board can be built. -/
theorem exists_build (hone : 1 ≤ n) (hlimit : n ≤ Domain.sizeLimit) :
    ∃ net, Network.build (boardModel n) = .ok net := by
  have hbuckets : ∀ bucket ∈ (boardModel n).buckets,
      ∃ bundle, (boardModel n).bundle? bucket.bundle = some bundle := by
    simp [Model.buckets, boardModel, Variable.bucket?]
  obtain ⟨b, hb⟩ := Model.exists_declareAll hbuckets fun d hd =>
    ⟨_, Model.domain?_eq_some_iff.1 (domain?_of_mem hone hlimit hd)⟩
  obtain ⟨hsound, hdir, -⟩ := declareAll_eq_ok hb
  rw [Network.build, hb]
  refine exists_foldlM_eq_ok
    (P := fun net => net.Sound ∧ net.directory = (boardModel n).directory) ?_ ?_ ⟨hsound, hdir⟩
  · rintro net c hc ⟨hnet, hdir⟩
    revert c
    refine forall_mem_boardConstraints.2 ⟨?_, fun _ => ⟨?_, ?_⟩⟩
    · exact exists_addAllDifferent hdir _
    · exact exists_addDiagonal hone hlimit hnet hdir _ .plus
    · exact exists_addDiagonal hone hlimit hnet hdir _ .minus
  · rintro net c net' ⟨hnet, hdir⟩ hnet'
    have hrefines := Network.refines_addModelConstraint hnet hnet'
    exact ⟨hrefines.sound, hrefines.directory_eq.trans hdir⟩

/-! ### Meaning -/

/-- The positions of the unknowns for queens in the given columns. -/
def positionsOf (columns : List Nat) : List Int64 :=
  columns.map Int64.ofNat

section Meaning

variable (hone : 1 ≤ n) (hlimit : n ≤ Domain.sizeLimit)
include hone hlimit

/-- A choice is a queen in each row. -/
theorem admits_iff {v : List Int64} :
    (boardModel n).directory.Admits v ↔ ∃ columns, OnBoard n columns ∧ v = positionsOf columns := by
  have hdomains := domains_boardModel hone hlimit
  constructor
  · intro hv
    have hlength : v.length = n := by rw [hv.length_eq, hdomains, List.length_replicate]
    have hinside : ∀ p ∈ v, 1 ≤ p.toInt ∧ p.toInt ≤ n := by
      intro p hp
      obtain ⟨i, hi⟩ := List.mem_iff_getElem?.1 hp
      have hlt := (List.getElem?_eq_some_iff.1 hi).1
      have hd : (boardModel n).directory.domains[i]? = some (columnDomain n) := by
        rw [hdomains, List.getElem?_replicate, if_pos (by omega)]
      rw [← mem_positions_columnDomain hone hlimit, Domain.mem_positions]
      exact hv.inside hd hi
    -- the columns are the positions as natural numbers
    refine ⟨v.map fun p => p.toInt.toNat, ⟨by simpa using hlength, ?_⟩, ?_⟩
    · intro column hcolumn
      obtain ⟨p, hp, rfl⟩ := List.mem_map.1 hcolumn
      have := hinside p hp
      omega
    · rw [positionsOf, List.map_map, eq_comm]
      refine (List.map_congr_left fun p hp => ?_).trans (List.map_id v)
      have hp := hinside p hp
      rw [← Int64.toInt_inj]
      show (Int64.ofNat p.toInt.toNat).toInt = p.toInt
      rw [toInt_ofNat_of_le hlimit (by omega), Int.toNat_of_nonneg (by omega)]
  · rintro ⟨columns, hcolumns, rfl⟩
    refine ⟨by simp [positionsOf, hdomains, hcolumns.length_eq], ?_⟩
    intro i d p hd hp
    rw [hdomains] at hd
    obtain rfl := List.eq_of_mem_replicate (List.mem_of_getElem? hd)
    obtain ⟨column, hcolumn, rfl⟩ := List.mem_map.1 (List.mem_of_getElem? hp)
    obtain ⟨hlow, hhigh⟩ := hcolumns.inside column hcolumn
    rw [← Domain.mem_positions, mem_positions_columnDomain hone hlimit,
      toInt_ofNat_of_le hlimit hhigh]
    omega

variable {columns : List Nat} (hcolumns : OnBoard n columns)
include hcolumns

/-- The unknown of a row has the column of the queen as its key. -/
theorem chosenKey?_cols {i a : Nat} (hi : columns[i]? = some a) :
    (boardModel n).directory.chosenKey? (positionsOf columns) (.element "cols" (i + 1)) =
      some (a : Int) := by
  have hlt := (List.getElem?_eq_some_iff.1 hi).1
  have hin : i < n := by rwa [← hcolumns.length_eq]
  have hd : (boardModel n).directory.domains[i]? = some (columnDomain n) := by
    rw [domains_boardModel hone hlimit, List.getElem?_replicate, if_pos hin]
  have hp : (positionsOf columns)[i]? = some (Int64.ofNat a) := by
    rw [positionsOf, List.getElem?_map, hi]
    rfl
  have ha := (hcolumns.inside a (List.mem_of_getElem? hi)).2
  rw [Directory.chosenKey?_eq_some (number?_cols (by omega) (by omega)) hd hp,
    exactKey_columnDomain, toInt_ofNat_of_le hlimit ha]

/-- The value of a diagonal is the column of the queen with the row added or subtracted. -/
theorem value?_diagonalOf (s : Sign) {i a : Nat} (hi : columns[i]? = some a)
    (opposite : Operand) :
    (boardModel n).directory.value? (positionsOf columns)
      (diagonalOf s (.literal (Int64.ofNat (i + 1)))) opposite =
        some (a + s.apply (i + 1 : Nat)) := by
  have hlt := (List.getElem?_eq_some_iff.1 hi).1
  have hin : i + 1 ≤ n := by rwa [← hcolumns.length_eq]
  have hword := toInt_ofNat_of_le hlimit hin
  have haddress : (Reference.element "cols" (.literal (Int64.ofNat (i + 1)))).address? =
      some (.element "cols" (i + 1)) := by
    rw [Reference.address?, hword, if_pos (by omega)]
    rfl
  have hoffset : (diagonalOf s (.literal (Int64.ofNat (i + 1)))).exactOffset? =
      some (s.apply (i + 1 : Nat)) := by
    rw [← hword]
    cases s <;> rfl
  have hkey := chosenKey?_cols hone hlimit hcolumns hi
  simp only [Directory.value?, hoffset]
  show ((Reference.address? _).bind _ >>= _) = _
  rw [haddress, Option.bind_some, hkey]
  rfl

/-- The relation at two rows says that their queens are on different diagonals. -/
theorem isTrue_apart_iff (s : Sign) {i j a b : Nat} (hi : columns[i]? = some a)
    (hj : columns[j]? = some b) :
    (boardModel n).directory.IsTrue (positionsOf columns) (apart s (i + 1) (j + 1)) ↔
      a + s.apply (i + 1 : Nat) ≠ b + s.apply (j + 1 : Nat) := by
  have hleft := value?_diagonalOf hone hlimit hcolumns s hi
  have hright := value?_diagonalOf hone hlimit hcolumns s hj
  simp only [Directory.IsTrue, apart, hleft, hright, Comparison.Holds, Option.some.injEq]
  simp only [exists_eq_left', exists_and_left]

/-- A template is true when no two queens share a diagonal of its kind. -/
theorem satisfies_diagonal_iff (name : String) (s : Sign) :
    (boardModel n).directory.Satisfies (positionsOf columns) (boardModel n)
      (.expression name (diagonalText s n)) ↔
        ∀ {i j a b : Nat}, i < j → columns[i]? = some a → columns[j]? = some b →
          a + s.apply (i : Nat) ≠ b + s.apply (j : Nat) := by
  have hsizeLimit : Domain.sizeLimit = 1048576 := rfl
  obtain ⟨relations, hexpand, hmem⟩ := exists_expandText_diagonal s (show n < 2 ^ 63 by omega)
  -- the rows of the relations are counted from 1, which moves both diagonals alike
  have hshift : ∀ k : Nat, s.apply (k + 1 : Nat) = s.apply k + s.apply 1 := by
    intro k
    cases s <;> simp only [Sign.apply] <;> omega
  constructor
  · rintro ⟨relations', hexpand', htrue⟩ i j a b hij hi hj
    obtain rfl : relations' = relations := Except.ok.inj (hexpand'.symm.trans hexpand)
    have hlt := (List.getElem?_eq_some_iff.1 hj).1
    rw [hcolumns.length_eq] at hlt
    have happart := htrue _ ((hmem _).2 ⟨j + 1, i + 1, by omega, by omega, by omega, rfl⟩)
    rw [isTrue_apart_iff hone hlimit hcolumns s hj hi, hshift, hshift] at happart
    omega
  · intro hapart
    refine ⟨relations, hexpand, ?_⟩
    intro e he
    obtain ⟨i, j, hj, hji, hin, rfl⟩ := (hmem e).1 he
    obtain ⟨i, rfl⟩ : ∃ i', i = i' + 1 := ⟨i - 1, by omega⟩
    obtain ⟨j, rfl⟩ : ∃ j', j = j' + 1 := ⟨j - 1, by omega⟩
    have hlength := hcolumns.length_eq
    have hi : columns[i]? = some columns[i] := List.getElem?_eq_getElem (by omega)
    have hj : columns[j]? = some columns[j] := List.getElem?_eq_getElem (by omega)
    have hne := hapart (by omega) hj hi
    rw [isTrue_apart_iff hone hlimit hcolumns s hi hj, hshift, hshift]
    omega

/-- The columns are different when no two queens share a column. -/
theorem satisfies_allDifferent_iff (name : String) :
    (boardModel n).directory.Satisfies (positionsOf columns) (boardModel n)
      (.allDifferent name "cols") ↔
        ∀ {i j a b : Nat}, i < j → columns[i]? = some a → columns[j]? = some b → a ≠ b := by
  -- elements are counted from 1, the rows of a placement from 0
  have hdiffer : ∀ {i j a b : Nat}, columns[i]? = some a → columns[j]? = some b →
      ((boardModel n).directory.Differ (positionsOf columns) (.element "cols" (i + 1))
        (.element "cols" (j + 1)) ↔ a ≠ b) := by
    intro i j a b hi hj
    have hfirst := chosenKey?_cols hone hlimit hcolumns hi
    have hsecond := chosenKey?_cols hone hlimit hcolumns hj
    simp only [Directory.Differ, hfirst, hsecond, Option.some.injEq, exists_and_left,
      exists_eq_left']
    omega
  have hlength := hcolumns.length_eq
  constructor
  · rintro ⟨aggregate, haggregate, hall⟩ i j a b hij hi hj
    obtain rfl : columnsOf n = aggregate :=
      Option.some.inj ((aggregate?_boardModel n).symm.trans haggregate)
    have hlt := (List.getElem?_eq_some_iff.1 hj).1
    rw [Directory.AllDifferent, size_columnsOf] at hall
    exact (hdiffer hi hj).1 (hall _ _ (by omega) (by omega) (by omega))
  · intro hne
    refine ⟨_, aggregate?_boardModel n, ?_⟩
    intro i j hi hij hj
    rw [size_columnsOf] at hj
    obtain ⟨i, rfl⟩ : ∃ i', i = i' + 1 := ⟨i - 1, by omega⟩
    obtain ⟨j, rfl⟩ : ∃ j', j = j' + 1 := ⟨j - 1, by omega⟩
    have hi : columns[i]? = some columns[i] := List.getElem?_eq_getElem (by omega)
    have hj : columns[j]? = some columns[j] := List.getElem?_eq_getElem (by omega)
    exact (hdiffer hi hj).2 (hne (by omega) hi hj)

/-- The constraints of the board are true when the queens do not attack each other. -/
theorem satisfies_iff_placement :
    (∀ c ∈ boardConstraints n,
      (boardModel n).directory.Satisfies (positionsOf columns) (boardModel n) c) ↔
        Placement n columns := by
  rw [forall_mem_boardConstraints, satisfies_allDifferent_iff hone hlimit hcolumns,
    satisfies_diagonal_iff hone hlimit hcolumns, satisfies_diagonal_iff hone hlimit hcolumns]
  simp only [Sign.apply]
  constructor
  · rintro ⟨hcolumn, hdiagonals⟩
    -- two rows make a board that has diagonals
    have hmore : ∀ {i j b : Nat}, i < j → columns[j]? = some b → 1 < n := by
      intro i j b hij hj
      have hlt := (List.getElem?_eq_some_iff.1 hj).1
      rw [hcolumns.length_eq] at hlt
      omega
    refine ⟨hcolumns, hcolumn, ?_, ?_⟩
    · intro i j a b hij hi hj
      have hsum := (hdiagonals (hmore hij hj)).1 hij hi hj
      omega
    · intro i j a b hij hi hj
      have hdifference := (hdiagonals (hmore hij hj)).2 hij hi hj
      omega
  · intro hplacement
    refine ⟨hplacement.column_ne, fun _ => ⟨?_, ?_⟩⟩
    · intro i j a b hij hi hj
      have hsum := hplacement.sum_ne hij hi hj
      omega
    · intro i j a b hij hi hj
      have hdifference := hplacement.difference_ne hij hi hj
      omega

omit hcolumns in
/-- The solutions are the placements. -/
theorem solution_iff {v : List Int64} :
    (boardModel n).Solution v ↔ ∃ columns, Placement n columns ∧ v = positionsOf columns := by
  constructor
  · rintro ⟨hadmits, hsatisfies⟩
    obtain ⟨columns, hcolumns, rfl⟩ := (admits_iff hone hlimit).1 hadmits
    exact ⟨columns, (satisfies_iff_placement hone hlimit hcolumns).1 hsatisfies, rfl⟩
  · rintro ⟨columns, hplacement, rfl⟩
    have hcolumns := hplacement.toOnBoard
    exact ⟨(admits_iff hone hlimit).2 ⟨columns, hcolumns, rfl⟩,
      (satisfies_iff_placement hone hlimit hcolumns).2 hplacement⟩

end Meaning

end FiniteDomain.Command.Queens
