import FiniteDomain.Domain.Resolver
import FiniteDomain.Proofs.Domain.Exact
import FiniteDomain.Proofs.Outcome

/-!
# What evaluation returns

Evaluation only returns proper domains, and a resolver that remembers texts returns what evaluating
the trimmed text afresh returns.

## Main definitions

* `Resolver.Faithful`: everything remembered is what evaluation returns.

## Main results

* `Domain.proper_of_evaluate`: evaluated domains are proper.
* `Domain.size_of_evaluateRange`, `Domain.size_of_evaluateSlice`: ranges and slices have a value and
  stay within the limit.
* `Resolver.resolve_eq_ok`: a resolved text was evaluated, and the resolver stays faithful.
-/

namespace FiniteDomain

namespace Domain

variable {context : Context} {d : Domain}

/-- The check on the size returns the domain itself, with at most as many values as allowed. -/
theorem checkSize_eq_ok {expression : String} {d' : Domain}
    (h : d.checkSize expression = .ok d') : d' = d ∧ d.size ≤ sizeLimit := by
  unfold checkSize at h
  split at h
  case isTrue => cases h
  case isFalse hsize =>
    cases h
    exact ⟨rfl, Nat.not_lt.1 hsize⟩

/-- A range that was evaluated is proper. -/
theorem proper_of_evaluateRange {low high : Band}
    (h : evaluateRange context low high = .ok d) : d.Proper := by
  rw [evaluateRange, bind_eq_ok_iff] at h
  obtain ⟨lower, -, h⟩ := h
  rw [bind_eq_ok_iff] at h
  obtain ⟨upper, -, h⟩ := h
  -- only two integers or two characters make a range
  rcases lower with a | a <;> rcases upper with b | b <;> dsimp only at h
  · split at h
    case isTrue hle =>
      obtain ⟨rfl, hsize⟩ := checkSize_eq_ok h
      rw [Int64.le_iff_toInt_le] at hle
      have hlimit : (sizeLimit : Int) = 2 ^ 20 := rfl
      have hlimit' : sizeLimit = 2 ^ 20 := rfl
      have hcount : countLimit = 2 ^ 64 - 1 := rfl
      rw [size, hlimit', hcount] at hsize
      refine ⟨hle, ?_⟩
      omega
    case isFalse => cases h
  · cases h
  · cases h
  · split at h
    case isTrue hle =>
      split at h
      case isTrue => cases h
      case isFalse hside =>
        obtain ⟨rfl, -⟩ := checkSize_eq_ok h
        exact ⟨hle, hside⟩
    case isFalse => cases h

/-- A range that was evaluated has a value, and as many as allowed at most. -/
theorem size_of_evaluateRange {low high : Band} (h : evaluateRange context low high = .ok d) :
    1 ≤ d.size ∧ d.size ≤ sizeLimit := by
  rw [evaluateRange, bind_eq_ok_iff] at h
  obtain ⟨lower, -, h⟩ := h
  rw [bind_eq_ok_iff] at h
  obtain ⟨upper, -, h⟩ := h
  -- only two integers or two characters make a range
  rcases lower with a | a <;> rcases upper with b | b <;> dsimp only at h
  · split at h
    case isTrue =>
      obtain ⟨rfl, hsize⟩ := checkSize_eq_ok h
      exact ⟨Nat.le_min.2 ⟨Nat.le_add_left 1 _, by decide⟩, hsize⟩
    case isFalse => cases h
  · cases h
  · cases h
  · split at h
    case isTrue =>
      split at h
      case isTrue => cases h
      case isFalse =>
        obtain ⟨rfl, hsize⟩ := checkSize_eq_ok h
        exact ⟨Nat.le_add_left 1 _, hsize⟩
    case isFalse => cases h

/-- A list is evaluated, whatever its length, exactly when no item occurs twice. -/
theorem evaluateList_eq_ok_iff {items : List String} :
    evaluateList items = .ok d ↔ items.Nodup ∧ list items = d := by
  rw [← repetitions_eq_nil_iff, ← List.head?_eq_none_iff, evaluateList]
  cases (repetitions items).head? <;> simp

/-- A list that was evaluated has no item twice. -/
theorem proper_of_evaluateList {items : List String} (h : evaluateList items = .ok d) :
    d.Proper := by
  obtain ⟨hnodup, rfl⟩ := evaluateList_eq_ok_iff.1 h
  exact hnodup

/-- A slice that was evaluated has no cell twice. -/
theorem proper_of_evaluateSlice {s : Slice} (h : evaluateSlice context s = .ok d) :
    d.Proper := by
  unfold evaluateSlice at h
  split at h
  · cases h
  · split at h
    · cases h
    · cases h
    · next cells _ _ =>
      obtain ⟨rfl, -⟩ := checkSize_eq_ok h
      exact nodup_eraseDups cells

/-- A slice that was evaluated has a value, and as many as allowed at most. -/
theorem size_of_evaluateSlice {s : Slice} (h : evaluateSlice context s = .ok d) :
    1 ≤ d.size ∧ d.size ≤ sizeLimit := by
  unfold evaluateSlice at h
  split at h
  · cases h
  split at h
  · cases h
  · cases h
  next cells hne _ =>
    obtain ⟨rfl, hsize⟩ := checkSize_eq_ok h
    refine ⟨?_, hsize⟩
    -- the first cell is kept
    cases cells with
    | nil => exact (hne rfl).elim
    | cons cell cells =>
      rw [List.eraseDups_cons]
      exact Nat.le_add_left 1 _

/-- Evaluation with proper shared domains returns proper domains. -/
theorem proper_of_evaluateWith {shared : String → Except DomainError Domain}
    (hshared : ∀ name d, shared name = .ok d → d.Proper) {e : DomainExpr}
    (h : evaluateWith shared context e = .ok d) : d.Proper := by
  cases e with
  | range low high => exact proper_of_evaluateRange h
  | list items => exact proper_of_evaluateList h
  | shared name => exact hshared name d h
  | table slice => exact proper_of_evaluateSlice h

/-- Evaluated domains are proper. -/
theorem proper_of_evaluate {e : DomainExpr} (h : evaluate context e = .ok d) : d.Proper := by
  refine proper_of_evaluateWith ?_ h
  -- a shared domain is evaluated without shared domains of its own, so one more level is enough
  intro name d' hd'
  unfold evaluateShared at hd'
  split at hd'
  · cases hd'
  · split at hd'
    · cases hd'
    · exact proper_of_evaluateWith (by simp) hd'

end Domain

namespace Resolver

/-- Everything remembered is what evaluation returns. -/
def Faithful (r : Resolver) : Prop :=
  ∀ text d, r.cache.lookup text = some d → evaluate r.context text = .ok d

theorem faithful_new (context : Context) : (new context).Faithful := by
  intro text d h
  simp [new] at h

/-- A resolved text was evaluated, and the resolver that remembers it is faithful. -/
theorem resolve_eq_ok {r r' : Resolver} (hr : r.Faithful) {text : String} {d : Domain}
    (h : r.resolve text = .ok (d, r')) :
    evaluate r.context (Text.trim text) = .ok d ∧ r'.Faithful ∧ r'.context = r.context := by
  unfold resolve at h
  dsimp only at h
  split at h
  · next found hcache =>
    cases h
    exact ⟨hr _ _ hcache, hr, rfl⟩
  · split at h
    · cases h
    · next found heval =>
      cases h
      refine ⟨heval, ?_, rfl⟩
      -- the text that is remembered now comes first
      intro text' d' h'
      rw [List.lookup_cons] at h'
      split at h'
      · next heq =>
        cases h'
        rw [eq_of_beq heq]
        exact heval
      · exact hr text' d' h'

/-- A text whose trimmed form evaluates is resolved. -/
theorem exists_resolve_eq_ok {r : Resolver} {text : String} {d : Domain}
    (h : evaluate r.context (Text.trim text) = .ok d) : ∃ result, r.resolve text = .ok result := by
  unfold resolve
  dsimp only
  split
  · exact ⟨_, rfl⟩
  · rw [h]
    exact ⟨_, rfl⟩

/-- A text evaluates to a domain exactly when it is read as an expression that does. -/
theorem evaluate_eq_ok_iff {context : Context} {text : String} {d : Domain} :
    evaluate context text = .ok d ↔
      ∃ tree, DomainExpr.parse text = .ok tree ∧ Domain.evaluate context tree = .ok d := by
  unfold evaluate
  cases DomainExpr.parse text with
  | error error => simp
  | ok tree => cases h : Domain.evaluate context tree <;> simp [h]

/-- Resolved domains are proper. -/
theorem proper_of_evaluate {context : Context} {text : String} {d : Domain}
    (h : evaluate context text = .ok d) : d.Proper := by
  obtain ⟨tree, -, hd⟩ := evaluate_eq_ok_iff.1 h
  exact Domain.proper_of_evaluate hd

end Resolver

end FiniteDomain
