import FiniteDomain.Proofs.Domain.Bijection
import FiniteDomain.Proofs.Expression.Rendering

/-!
# The sizes of evaluated domains

A domain that evaluation returns has at least one value. The limit on the number of values is
checked for ranges, after their ends are known, and for table slices, after repeated cells are
erased. It is not checked for lists, also not for a list that a shared domain stands for. So the
domain stays within the limit exactly when the expression stands for no longer list.

Lists beyond the limit are read and evaluated like any others. The first numbers in decimal make one
of any length.

## Main definitions

* `Context.Lists`: an expression stands for a list of items.

## Main results

* `DomainExpr.parse_intercalate`: items are read from their texts with commas between them.
* `Domain.size_of_evaluate`: an evaluated domain has a value and exceeds the limit only as a list.
* `Domain.size_of_evaluate_numerals`: a list that exceeds the limit.
-/

namespace FiniteDomain

/-- In a context, the expression stands for the list of these items: it is the list, or a shared
domain whose text is read as the list. -/
inductive Context.Lists (context : Context) : DomainExpr → List String → Prop where
  /-- A list stands for its items. -/
  | list {items : List String} : Lists context (.list items) items
  /-- A shared domain stands for the items of its text. -/
  | shared {name text : String} {items : List String}
    (htext : context.sharedDomain name = some text)
    (hparse : DomainExpr.parse text = .ok (.list items)) : Lists context (.shared name) items

namespace Domain

variable {context : Context} {d : Domain}

/-! ### Sizes -/

/-- An expression that is no shared domain and was read has a value, and it stays within the limit
unless it is a list. -/
theorem size_of_evaluateWith {shared : String → Except DomainError Domain} {text : String}
    {tree : DomainExpr} (hplain : ∀ name, tree ≠ .shared name)
    (hparse : DomainExpr.parse text = .ok tree) (h : evaluateWith shared context tree = .ok d) :
    1 ≤ d.size ∧
      (d.size ≤ sizeLimit ↔ ∀ items, tree = .list items → items.length ≤ sizeLimit) := by
  cases tree with
  | range low high =>
    obtain ⟨hpos, hsize⟩ := size_of_evaluateRange h
    exact ⟨hpos, iff_of_true hsize (by simp)⟩
  | list items =>
    obtain ⟨-, rfl⟩ := evaluateList_eq_ok_iff.1 h
    obtain ⟨hne, -⟩ := DomainExpr.length_items_of_parse hparse
    exact ⟨List.length_pos_iff.2 hne, by simp [size]⟩
  | shared name => exact absurd rfl (hplain name)
  | table slice =>
    obtain ⟨hpos, hsize⟩ := size_of_evaluateSlice h
    exact ⟨hpos, iff_of_true hsize (by simp)⟩

/-- The domain of an expression that was read has a value. It has no more values than allowed
exactly when the expression does not stand for a list with more items. -/
theorem size_of_evaluate {text : String} {tree : DomainExpr}
    (hparse : DomainExpr.parse text = .ok tree) (hd : evaluate context tree = .ok d) :
    1 ≤ d.size ∧
      (d.size ≤ sizeLimit ↔ ∀ items, context.Lists tree items → items.length ≤ sizeLimit) := by
  by_cases hshared : ∃ name, tree = .shared name
  · -- the text of a shared domain is evaluated like any other, but stands for no shared domain
    obtain ⟨name, rfl⟩ := hshared
    replace hd : evaluateShared context name = .ok d := hd
    unfold evaluateShared at hd
    split at hd
    · cases hd
    next text' htext' =>
      split at hd
      · cases hd
      next tree' hparse' =>
        -- a shared domain that is another one is refused
        have hplain : ∀ other, tree' ≠ .shared other := by
          rintro other rfl
          cases hd
        have hlists (items : List String) :
            context.Lists (.shared name) items ↔ tree' = .list items := by
          constructor
          · rintro (_ | ⟨htext, hlist⟩)
            rw [htext'] at htext
            cases htext
            rw [hparse'] at hlist
            exact Except.ok.inj hlist
          · rintro rfl
            exact .shared htext' hparse'
        simpa only [hlists] using size_of_evaluateWith hplain hparse' hd
  · have hlists (items : List String) : context.Lists tree items ↔ tree = .list items := by
      constructor
      · rintro (_ | _)
        · rfl
        · exact absurd ⟨_, rfl⟩ hshared
      · rintro rfl
        exact .list
    simpa only [hlists] using size_of_evaluateWith (not_exists.1 hshared) hparse hd

/-- The letters of grades are within the limit, and no list stands for them. -/
theorem size_of_evaluate_grades :
    DomainExpr.parse " $grades " = .ok (.shared "grades") ∧
      evaluate gradeContext (.shared "grades") = .ok (charRange 'a' 'f') ∧
      (charRange 'a' 'f').size = 6 ∧ 1 ≤ (charRange 'a' 'f').size ∧
      (charRange 'a' 'f').size ≤ sizeLimit ∧
      ∀ items, gradeContext.Lists (.shared "grades") items → items.length ≤ sizeLimit := by
  have hparse : DomainExpr.parse " $grades " = .ok (.shared "grades") := by rfl
  have heval : evaluate gradeContext (.shared "grades") = .ok (charRange 'a' 'f') := by rfl
  have hsize : (charRange 'a' 'f').size = 6 := by rfl
  obtain ⟨hpos, hlimit⟩ := size_of_evaluate hparse heval
  have hle : (charRange 'a' 'f').size ≤ sizeLimit := by
    rw [hsize]
    decide
  exact ⟨hparse, heval, hsize, hpos, hle, hlimit.1 hle⟩

end Domain

/-! ### Lists of any length -/

/-- Items without double quotes are read from their texts with commas between them. -/
theorem DomainExpr.parse_intercalate {items : List String} (hne : items ≠ [])
    (hquote : ∀ item ∈ items, '"' ∉ item.toList) :
    DomainExpr.parse (",".intercalate (items.map quoteItem)) = .ok (.list items) := by
  have hword : ∀ item ∈ items, ItemWord (quoteItem item).toList item := by
    intro item hitem
    refine ⟨item.toList, ?_, String.ofList_toList.symm, by simp [quoteItem]⟩
    rintro c hc rfl
    exact hquote item hitem hc
  have hitems : SeparatedWord ItemWord (",".intercalate (items.map quoteItem)).toList
      (items.map id) :=
    separatedWord_intercalate hne hword
  have hread := (DomainWord.list hitems).parse isGap_nil isGap_nil
  rwa [List.nil_append, List.append_nil, String.ofList_toList, List.map_id] at hread

namespace Domain

/-- The numbers below `count` in decimal. -/
def numerals (count : Nat) : List String :=
  (List.range count).map Decimal.ofNat

theorem nodup_numerals (count : Nat) : (numerals count).Nodup :=
  List.Nodup.map (fun _ _ => Decimal.ofNat_inj.1) List.nodup_range

theorem quote_notMem_numerals {count : Nat} {item : String} (h : item ∈ numerals count) :
    '"' ∉ item.toList := by
  obtain ⟨n, -, rfl⟩ := List.mem_map.1 h
  rw [Decimal.ofNat, String.toList_ofList]
  intro hquote
  have hdigit : Char.isDigit '"' = true :=
    Nat.isDigit_of_mem_toDigits (by decide) (by decide) hquote
  exact absurd hdigit (by decide)

/-- The first numbers are read and evaluated to the domain that holds them all. -/
theorem evaluate_numerals (context : Context) {count : Nat} (hcount : 0 < count) :
    DomainExpr.parse (",".intercalate ((numerals count).map quoteItem)) =
        .ok (.list (numerals count)) ∧
      evaluate context (.list (numerals count)) = .ok (list (numerals count)) ∧
      (list (numerals count)).size = count := by
  have hlength : (numerals count).length = count := by
    rw [numerals, List.length_map, List.length_range]
  have hne : numerals count ≠ [] := by
    rwa [← List.length_pos_iff, hlength]
  exact ⟨DomainExpr.parse_intercalate hne fun _ => quote_notMem_numerals,
    evaluateList_eq_ok_iff.2 ⟨nodup_numerals count, rfl⟩, hlength⟩

/-- One number more than allowed is read and evaluated to a domain that exceeds the limit. -/
theorem size_of_evaluate_numerals :
    DomainExpr.parse (",".intercalate ((numerals (sizeLimit + 1)).map quoteItem)) =
        .ok (.list (numerals (sizeLimit + 1))) ∧
      evaluate gradeContext (.list (numerals (sizeLimit + 1))) =
        .ok (list (numerals (sizeLimit + 1))) ∧
      ¬ (1 ≤ (list (numerals (sizeLimit + 1))).size ∧
        (list (numerals (sizeLimit + 1))).size ≤ sizeLimit) := by
  obtain ⟨hparse, heval, hsize⟩ := evaluate_numerals gradeContext (Nat.succ_pos sizeLimit)
  refine ⟨hparse, heval, ?_⟩
  rw [hsize]
  exact fun h => Nat.not_succ_le_self sizeLimit h.2

end Domain

end FiniteDomain
