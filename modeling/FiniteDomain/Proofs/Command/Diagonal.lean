import FiniteDomain.Command.Queens
import FiniteDomain.Proofs.Expression.Rendering
import Mathlib.Algebra.Group.Int.Defs
import Mathlib.Algebra.Group.Nat.Defs

/-!
# The templates of the queens command

The two templates that rule out diagonals are put together from pieces of text and the size of the
board. For every size they are read as the tree that they were meant to be, and they expand to one
relation for each pair of a row and a row above it.

## Main definitions

* `Queens.diagonalTree`: the tree of a template.
* `Queens.apart`: the relation that a template stands for at a pair of rows.

## Main results

* `Queens.parse_diagonal`: a template is read as its tree.
* `Queens.mem_tuples_rowPairs`: the pairs of rows that the counters run through.
* `Queens.exists_expandText_diagonal`: what a template expands to.
-/

namespace FiniteDomain.Command.Queens

open Template

/-! ### Trees -/

/-- The rows of the board from the second to the last, each with those above it. -/
def rowPairs (n : Nat) : List Counter :=
  [⟨"i", some ⟨.literal 2, 0⟩, ⟨.literal (Int64.ofNat n), 0⟩⟩,
    ⟨"j", some ⟨.literal 1, 0⟩, ⟨.counter "i", -1⟩⟩]

/-- The diagonal of the queen in a row: her column, with the row added or subtracted. -/
def diagonalOf (s : Sign) (row : Index) : Term :=
  ⟨.reference (.element "cols" row), some ⟨s, row⟩⟩

/-- The tree of a template. -/
def diagonalTree (s : Sign) (n : Nat) : ConstraintExpr :=
  ⟨diagonalOf s (.counter "i"), .ne, diagonalOf s (.counter "j"), some (rowPairs n)⟩

/-- The text of a template. -/
def diagonalText (s : Sign) (n : Nat) : String :=
  diagonal (String.ofList [signChar s]) n

/-- The template is put together as its tree is written. -/
theorem diagonalText_eq_render (s : Sign) {n : Nat} (h : n < 2 ^ 63) :
    diagonalText s n = (diagonalTree s n).render := by
  have hn : Decimal.ofInt64 (Int64.ofNat n) = Decimal.ofNat n := by
    rw [Decimal.ofInt64, Int64.toInt_ofNat_of_lt h, Decimal.ofInt, if_neg (by omega)]
    rfl
  have hone : Decimal.ofInt64 1 = "1" := by decide
  have htwo : Decimal.ofInt64 2 = "2" := by decide
  have hback : Decimal.ofInt64 (-1) = "-1" := by decide
  apply String.toList_injective
  cases s <;>
    simp [diagonalText, diagonal, diagonalTree, diagonalOf, rowPairs, ConstraintExpr.render,
      Term.render, Operand.render, Reference.render, Index.render, Adjustment.render,
      renderRepeater, Counter.renderRange, Bound.render, Comparison.symbol, signChar, hn, hone,
      htwo, hback, String.intercalate_cons_cons]

/-! ### Reading -/

/-- A character that can start a name is one by itself. -/
theorem nameWord_singleton {c : Char} (h : isNameStart c = true) : NameWord [c] :=
  ⟨c, [], rfl, h, by simp⟩

/-- A queen's column with its row added or subtracted can be written as a term. -/
theorem termWord_diagonalOf (s : Sign) {c : Char} (h : isNameStart c = true) :
    ∃ w, TermWord false w (diagonalOf s (.counter (String.ofList [c]))) := by
  have hindex := IndexWord.counter (nameWord_singleton h)
  have hcols : NameWord ['c', 'o', 'l', 's'] :=
    ⟨'c', _, rfl, by decide, List.all_eq_true.1 (by decide)⟩
  have hsubscript : SubscriptWord ('[' :: ([c] ++ [']'])) (.counter (String.ofList [c])) :=
    ⟨[], [], _, [], isGap_nil, isGap_nil, isGap_nil, hindex, rfl⟩
  exact ⟨_, .adjusted (.reference (.element hcols hsubscript)) isGap_space isGap_space hindex⟩

/-- The clause of the pairs of rows can be written. -/
theorem repeaterWord_rowPairs (n : Nat) : ∃ w, RepeaterWord w (rowPairs n) := by
  have hi : NameOf ['i'] "i" := ⟨nameWord_singleton (by decide), rfl⟩
  have hj : NameOf ['j'] "j" := ⟨nameWord_singleton (by decide), rfl⟩
  have hdots : RangeSignWord ['.', '.'] := .inl rfl
  have hrows : RangeWord _ (some ⟨.literal 2, 0⟩, ⟨.literal (Int64.ofNat n), 0⟩) :=
    .both (.literal (integerWord_ofInt64 2)) isGap_nil hdots (by simp) isGap_nil
      (.literal (integerWord_ofInt64 (Int64.ofNat n)))
  have habove : RangeWord _ (some ⟨.literal 1, 0⟩, ⟨.counter "i", -1⟩) :=
    .both (.literal (integerWord_ofInt64 1)) isGap_nil hdots (by simp) isGap_nil
      (.shifted (s := .minus) (.counter hi.1) isGap_nil isGap_nil (integerWord_ofInt64 1) rfl)
  have hin : StopsName ([' '] ++ ['i', 'n']) := by
    rintro d ⟨⟩
    decide
  exact ⟨_, .clause isGap_space (.cons hi isGap_nil isGap_nil (.single hj)) isGap_space rfl hin
    isGap_space (.cons hrows isGap_nil isGap_nil (.single habove))⟩

/-- The second row is bounded by the first one, which is declared before it. -/
theorem countersDeclared_diagonalTree (s : Sign) (n : Nat) :
    CountersDeclared (diagonalTree s n) := by
  refine ⟨?_, ?_, ?_⟩
  · simp [diagonalTree, rowPairs]
  · simp [diagonalTree, rowPairs, Scoped, Counter.bounds, Index.counter?]
  · simp [diagonalTree, diagonalOf, rowPairs, ConstraintExpr.counterUses, Term.counterUses,
      Term.reference?, Reference.index?, Index.counter?]

/-- A template is read as its tree. -/
theorem parse_diagonal (s : Sign) {n : Nat} (h : n < 2 ^ 63) :
    ConstraintExpr.parse (diagonalText s n) = .ok (diagonalTree s n) := by
  obtain ⟨left, hleft⟩ := termWord_diagonalOf s (c := 'i') (by decide)
  obtain ⟨right, hright⟩ := termWord_diagonalOf s (c := 'j') (by decide)
  obtain ⟨clause, hclause⟩ := repeaterWord_rowPairs n
  have hne : ['<', '>'] ∈ Comparison.spellings .ne := by decide
  have hword := ConstraintWord.repeated
    (.relation hleft isGap_space hne isGap_space hright) isGap_space hclause
  have hleast : ∀ c ∈ rowPairs n, ∀ b ∈ c.bounds, b.offset ≠ Int64.minValue := by
    have hzero : (0 : Int64) ≠ Int64.minValue := by decide
    have hback : (-1 : Int64) ≠ Int64.minValue := by decide
    simp only [rowPairs, Counter.bounds, Option.toList_some, List.singleton_append,
      List.forall_mem_cons]
    simp [hzero, hback]
  -- the tree has some spelling, so its written form is one too
  have hread := (hword.render hleast).readTree isGap_nil isGap_nil
  rw [List.nil_append, List.append_nil] at hread
  rw [diagonalText_eq_render s h, parse_eq_ok_iff]
  exact ⟨hread, countersDeclared_diagonalTree s n⟩

/-! ### Expansion -/

/-- The words between two numbers are those of the numbers between them. -/
theorem mem_wordsBetween {low high : Nat} {value : Int64} :
    value ∈ wordsBetween low high ↔ ∃ k, low ≤ k ∧ k ≤ high ∧ value = Int64.ofNat k := by
  rw [wordsBetween, List.mem_map]
  constructor
  · rintro ⟨i, hi, rfl⟩
    rw [List.mem_range] at hi
    exact ⟨low + i, by omega, by omega, rfl⟩
  · rintro ⟨k, hlow, hhigh, rfl⟩
    refine ⟨k - low, List.mem_range.2 (by omega), ?_⟩
    rw [← Int.natCast_add, Nat.add_sub_cancel' hlow]
    rfl

/-- The first row runs from 2 to the size of the board. -/
theorem counterValues_rows {n : Nat} (h : n < 2 ^ 63) :
    counterValues [] ⟨"i", some ⟨.literal 2, 0⟩, ⟨.literal (Int64.ofNat n), 0⟩⟩ =
      wordsBetween (2 : Nat) n := by
  have hn := Int64.toInt_ofNat_of_lt h
  simp [counterValues, exactLow?, exactBound?, hn]

/-- The second row runs through those above the first. -/
theorem counterValues_above {i : Nat} (hone : 1 ≤ i) (h : i < 2 ^ 63) :
    counterValues [("i", Int64.ofNat i)] ⟨"j", some ⟨.literal 1, 0⟩, ⟨.counter "i", -1⟩⟩ =
      wordsBetween (1 : Nat) (i - 1 : Nat) := by
  have hi := Int64.toInt_ofNat_of_lt h
  have hback : (-1 : Int64).toInt = -1 := rfl
  have hpred : ((i - 1 : Nat) : Int) = i + -1 := by omega
  simp [counterValues, exactLow?, exactBound?, hi, hback, hpred]

/-- The counters run through the pairs of a row and a row above it. -/
theorem mem_tuples_rowPairs {n : Nat} (h : n < 2 ^ 63) {b : Bindings} :
    b ∈ tuples (rowPairs n) [] ↔
      ∃ i j, 1 ≤ j ∧ j < i ∧ i ≤ n ∧ b = [("j", Int64.ofNat j), ("i", Int64.ofNat i)] := by
  simp only [rowPairs, tuples, counterValues_rows h, List.mem_flatMap, mem_wordsBetween,
    List.mem_singleton]
  constructor
  · rintro ⟨_, ⟨i, htwo, hi, rfl⟩, value, hvalue, rfl⟩
    rw [counterValues_above (by omega) (by omega), mem_wordsBetween] at hvalue
    obtain ⟨j, hone, hj, rfl⟩ := hvalue
    exact ⟨i, j, hone, by omega, hi, rfl⟩
  · rintro ⟨i, j, hone, hlt, hi, rfl⟩
    refine ⟨_, ⟨i, by omega, hi, rfl⟩, Int64.ofNat j, ?_, rfl⟩
    rw [counterValues_above (by omega) (by omega), mem_wordsBetween]
    exact ⟨j, hone, by omega, rfl⟩

/-- No bound leaves the word. -/
theorem not_overflows_rowPairs {n : Nat} (h : n < 2 ^ 63) : ¬ Overflows (rowPairs n) [] := by
  have hmin : Int64.minValue.toInt = -9223372036854775808 := rfl
  have hmax : Int64.maxValue.toInt = 9223372036854775807 := rfl
  have hback : (-1 : Int64).toInt = -1 := rfl
  have hone : (1 : Int64).toInt = 1 := rfl
  have htwo : (2 : Int64).toInt = 2 := rfl
  have hn := Int64.toInt_ofNat_of_lt h
  simp only [rowPairs, Overflows, counterValues_rows h, mem_wordsBetween, Counter.bounds,
    Option.toList_some, List.singleton_append, List.exists_mem_cons_iff, exactBound?]
  rintro (hrows | ⟨_, ⟨i, hi, hin, rfl⟩, habove⟩)
  · simp [Fits, hn, hmin, hmax, htwo] at hrows
    omega
  · have hi := Int64.toInt_ofNat_of_lt (show i < 2 ^ 63 by omega)
    simp [Fits, hi, hmin, hmax, hback, hone] at habove
    omega

/-- The queens in two rows are on different diagonals of one kind. -/
def apart (s : Sign) (i j : Nat) : ConstraintExpr :=
  ⟨diagonalOf s (.literal (Int64.ofNat i)), .ne, diagonalOf s (.literal (Int64.ofNat j)), none⟩

/-- A template stands for one relation for each pair of a row and a row above it. -/
theorem exists_expandText_diagonal (s : Sign) {n : Nat} (h : n < 2 ^ 63) :
    ∃ relations, expandText (diagonalText s n) = .ok relations ∧
      ∀ e, e ∈ relations ↔ ∃ i j, 1 ≤ j ∧ j < i ∧ i ≤ n ∧ e = apart s i j := by
  have houtcome := expandText_outcome (parse_diagonal s h) rfl
  cases hresult : expandText (diagonalText s n) with
  | error error =>
    rw [hresult] at houtcome
    exact absurd houtcome.1 (not_overflows_rowPairs h)
  | ok relations =>
    rw [hresult] at houtcome
    refine ⟨relations, rfl, fun e => ?_⟩
    rw [houtcome.2, List.mem_map]
    simp only [mem_tuples_rowPairs h]
    constructor
    · rintro ⟨b, ⟨i, j, hj, hlt, hi, rfl⟩, rfl⟩
      exact ⟨i, j, hj, hlt, hi, rfl⟩
    · rintro ⟨i, j, hj, hlt, hi, rfl⟩
      exact ⟨_, ⟨i, j, hj, hlt, hi, rfl⟩, rfl⟩

end FiniteDomain.Command.Queens
