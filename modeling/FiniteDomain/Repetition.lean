/-!
# Repetitions in a list

* `repetitions`: the items that occur earlier in the list already, in order.
* `repetitions_eq_nil_iff`: a list without repetitions has no item twice.
-/

namespace FiniteDomain

variable {α : Type} [BEq α]

/-- The items of a list that are among `seen` or occur earlier in the list. -/
def repetitionsAfter (seen : List α) : List α → List α
  | [] => []
  | a :: as =>
    if seen.contains a then a :: repetitionsAfter seen as else repetitionsAfter (a :: seen) as

/-- The items of a list that occur earlier in it already, in order. -/
def repetitions (as : List α) : List α :=
  repetitionsAfter [] as

variable [LawfulBEq α]

/-- Nothing is repeated exactly when no item occurs twice or is among `seen`. -/
theorem repetitionsAfter_eq_nil_iff (seen as : List α) :
    repetitionsAfter seen as = [] ↔ as.Nodup ∧ ∀ a ∈ as, a ∉ seen := by
  induction as generalizing seen with
  | nil => simp [repetitionsAfter]
  | cons a as ih =>
    rw [repetitionsAfter, List.forall_mem_cons, List.nodup_cons]
    split
    case isTrue h =>
      have hseen : a ∈ seen := by simpa using h
      simp [hseen]
    case isFalse h =>
      have hseen : a ∉ seen := by simpa using h
      rw [ih]
      constructor
      · rintro ⟨hnodup, hfresh⟩
        refine ⟨⟨fun ha => hfresh a ha List.mem_cons_self, hnodup⟩, hseen, ?_⟩
        exact fun b hb hmem => hfresh b hb (List.mem_cons_of_mem _ hmem)
      · rintro ⟨⟨ha, hnodup⟩, -, hfresh⟩
        refine ⟨hnodup, fun b hb hmem => ?_⟩
        rcases List.mem_cons.1 hmem with rfl | hmem
        · exact ha hb
        · exact hfresh b hb hmem

/-- A list without repetitions has no item twice. -/
theorem repetitions_eq_nil_iff (as : List α) : repetitions as = [] ↔ as.Nodup := by
  rw [repetitions, repetitionsAfter_eq_nil_iff]
  simp

/-- Erasing later occurrences leaves each item once. -/
theorem nodup_eraseDups (as : List α) : as.eraseDups.Nodup := by
  match as with
  | [] => exact List.nodup_nil
  | a :: as =>
    -- what is left of the tail no longer has `a`, and is shorter than the list
    have hlen : (as.filter fun b => !b == a).length < (a :: as).length :=
      Nat.lt_succ_of_le (List.length_filter_le ..)
    rw [List.eraseDups_cons, List.nodup_cons]
    refine ⟨?_, nodup_eraseDups _⟩
    simp
termination_by as.length
decreasing_by exact hlen

end FiniteDomain
