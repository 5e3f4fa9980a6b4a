import FiniteDomain.Proofs.Template.RelationWord

/-!
# Expansion as instantiation

A text with a repeater clause is expanded by writing numbers into its template and reading the
result. This gives the instances of its tree, one for each tuple of counter values, and fails only
when a bound that is reached leaves the word.

Tuples and bounds are described with integers, apart from the loops that run through them.

## Main definitions

* `Template.tuples`: the bindings of all tuples of counter values, in order.
* `Template.Overflows`: a bound that is reached leaves the word.
* `Template.Scoped`: bounds only use counters declared to their left.
* `Template.CountersDeclared`: the rules on counters.

## Main results

* `Template.expandCounters_outcome`: the loops run through the tuples, or meet a bound that leaves
  the word.
* `Template.parse_substitute`: the text for a tuple is read as the instance of the tree.
* `Template.counterUses_of_expandText`: an expansion leaves no counters.
* `Template.expandText_eq_instances`: the expansion of a text.
-/

namespace FiniteDomain.Template

/-! ### Tuples of counter values -/

/-- The integer that a bound stands for, if its counter is bound. -/
def exactBound? (b : Bindings) (bound : Bound) : Option Int :=
  match bound.value with
  | .literal value => some (value.toInt + bound.offset.toInt)
  | .counter name => (b.lookup name).map fun value => value.toInt + bound.offset.toInt

/-- The lower end of a counter's range, which is 1 if it is missing. -/
def exactLow? (b : Bindings) (c : Counter) : Option Int :=
  match c.low with
  | none => some 1
  | some bound => exactBound? b bound

/-- The words from `low` to `high`. -/
def wordsBetween (low high : Int) : List Int64 :=
  (List.range (high - low + 1).toNat).map fun i : Nat => Int64.ofInt (low + i)

/-- The values of a counter under the bindings made so far. -/
def counterValues (b : Bindings) (c : Counter) : List Int64 :=
  match exactLow? b c, exactBound? b c.high with
  | some low, some high => wordsBetween low high
  | _, _ => []

/-- The bindings of all tuples of counter values, the first counter varying slowest. -/
def tuples : List Counter → Bindings → List Bindings
  | [], b => [b]
  | c :: counters, b =>
    (counterValues b c).flatMap fun value => tuples counters ((c.name, value) :: b)

/-- An integer that fits the word. -/
def Fits (n : Int) : Prop :=
  Int64.minValue.toInt ≤ n ∧ n ≤ Int64.maxValue.toInt

instance (n : Int) : Decidable (Fits n) :=
  inferInstanceAs (Decidable (_ ∧ _))

/-- A bound of a counter leaves the word, or one of a counter to its right does under one of its
values. -/
def Overflows : List Counter → Bindings → Prop
  | [], _ => False
  | c :: counters, b =>
    (∃ bound ∈ c.bounds, ∃ n ∈ exactBound? b bound, ¬ Fits n) ∨
      ∃ value ∈ counterValues b c, Overflows counters ((c.name, value) :: b)

instance decidableOverflows :
    (counters : List Counter) → (b : Bindings) → Decidable (Overflows counters b)
  | [], _ => inferInstanceAs (Decidable False)
  | c :: counters, b =>
    have (value : Int64) := decidableOverflows counters ((c.name, value) :: b)
    inferInstanceAs (Decidable (_ ∨ _))

/-- Bounds only use counters that are declared before. -/
def Scoped : List String → List Counter → Prop
  | _, [] => True
  | declared, c :: counters =>
    (∀ bound ∈ c.bounds, ∀ name, bound.value.counter? = some name → name ∈ declared) ∧
      Scoped (c.name :: declared) counters

/-- No counter of a bound is missing. -/
theorem undeclared_eq_nil_iff {declared : List String} {bounds : List Bound} :
    undeclared declared bounds = [] ↔
      ∀ bound ∈ bounds, ∀ name, bound.value.counter? = some name → name ∈ declared := by
  rw [undeclared, List.filter_eq_nil_iff]
  simp only [List.mem_filterMap, Bool.not_eq_true', Bool.not_eq_false, List.contains_iff_mem]
  grind

/-- The declarations are accepted exactly when bounds are scoped and each counter is new. -/
theorem checkDeclarations_eq_ok_iff {offset : UInt64} {counters : List Counter}
    {declared declared' : List String} :
    checkDeclarations offset counters declared = .ok declared' ↔
      Scoped declared counters ∧ (counters.map Counter.name).Nodup ∧
        (∀ c ∈ counters, c.name ∉ declared) ∧
        declared' = (counters.map Counter.name).reverse ++ declared := by
  induction counters generalizing declared with
  | nil => simp [checkDeclarations, Scoped, eq_comm]
  | cons c counters ih =>
    rw [checkDeclarations]
    split
    · next name names hundeclared =>
      have hscope := mt undeclared_eq_nil_iff.2 (by rw [hundeclared]; simp)
      simp [Scoped, hscope]
    · next hnone =>
      have hscope := undeclared_eq_nil_iff.1 hnone
      rw [List.forall_mem_cons, List.map_cons, List.nodup_cons, Scoped]
      split
      case isTrue hcontains =>
        have hdeclared : c.name ∈ declared := List.contains_iff_mem.1 hcontains
        simp [hdeclared]
      case isFalse hcontains =>
        have hnew : c.name ∉ declared := mt List.contains_iff_mem.2 hcontains
        -- a later counter is not in the longer list exactly when it is new and has another name
        have hlater : (∀ d ∈ counters, d.name ∉ c.name :: declared) ↔
            c.name ∉ counters.map Counter.name ∧ ∀ d ∈ counters, d.name ∉ declared := by
          simp only [List.mem_cons, not_or, List.mem_map, not_exists, not_and, forall_and]
        rw [ih, hlater]
        simp only [List.reverse_cons, List.append_assoc, List.singleton_append]
        tauto

/-- The rules on counters. -/
structure CountersDeclared (e : ConstraintExpr) : Prop where
  /-- No counter is declared twice. -/
  distinct : ((e.repeater.getD []).map Counter.name).Nodup
  /-- Bounds only use counters declared to their left. -/
  inScope : Scoped [] (e.repeater.getD [])
  /-- Every counter in a subscript or an adjustment is declared. -/
  uses : ∀ name ∈ e.counterUses, name ∈ (e.repeater.getD []).map Counter.name

/-- The check of counters accepts exactly what the rules on counters allow. -/
theorem checkCounters_eq_ok_iff {offset : UInt64} {e : ConstraintExpr} {u : Unit} :
    checkCounters offset e = .ok u ↔ CountersDeclared e := by
  rw [checkCounters, bind_eq_ok_iff]
  constructor
  · rintro ⟨declared, hdeclared, h⟩
    obtain ⟨hscoped, hnodup, -, rfl⟩ := checkDeclarations_eq_ok_iff.1 hdeclared
    refine ⟨hnodup, hscoped, fun name hname => ?_⟩
    split at h
    · cases h
    · next hnone =>
      rw [List.find?_eq_none] at hnone
      simpa using hnone name hname
  · intro h
    refine ⟨_, checkDeclarations_eq_ok_iff.2 ⟨h.inScope, h.distinct, by simp, rfl⟩, ?_⟩
    split
    · next name hfind =>
      have hdeclared := h.uses name (List.mem_of_find?_eq_some hfind)
      have hmissing := List.find?_some hfind
      simp [hdeclared] at hmissing
    · rfl

/-! ### Bounds -/

/-- The error for a bound that leaves the word. -/
def overflowError (bound : Bound) : ParseError :=
  ⟨"bound `" ++ bound.render ++ "` overflows", 0⟩

/-- Every bound counter has a value. -/
theorem exists_lookup {b : Bindings} {name : String} (h : name ∈ b.map Prod.fst) :
    ∃ value, b.lookup name = some value := by
  induction b with
  | nil => simp at h
  | cons entry b ih =>
    obtain ⟨key, value⟩ := entry
    rw [List.lookup_cons]
    by_cases heq : name = key
    · exact ⟨value, by simp [heq]⟩
    · have hne : (name == key) = false := beq_eq_false_iff_ne.2 heq
      rw [hne]
      exact ih (by simpa [heq] using h)

theorem ofInt?_of_fits {n : Int} (h : Fits n) : Word.ofInt? n = some (Int64.ofInt n) :=
  if_pos h

theorem ofInt?_of_not_fits {n : Int} (h : ¬ Fits n) : Word.ofInt? n = none :=
  if_neg h

/-- A bound whose counter is bound is the sum of two words. -/
theorem exists_boundValue_eq {b : Bindings} {bound : Bound}
    (h : ∀ name, bound.value.counter? = some name → name ∈ b.map Prod.fst) :
    ∃ n, exactBound? b bound = some n ∧ boundValue b bound =
      match Word.ofInt? n with
      | some value => .ok value
      | none => .error (overflowError bound) := by
  cases hindex : bound.value with
  | literal value =>
    refine ⟨value.toInt + bound.offset.toInt, by simp [exactBound?, hindex], ?_⟩
    simp only [boundValue, hindex, bind, Except.bind]
    rfl
  | counter name =>
    obtain ⟨value, hlookup⟩ := exists_lookup (h name (by simp [hindex, Index.counter?]))
    refine ⟨value.toInt + bound.offset.toInt, by simp [exactBound?, hindex, hlookup], ?_⟩
    simp only [boundValue, hindex, hlookup, bind, Except.bind]
    rfl

/-- A bound whose counter is bound has the value of its integer, or an error if that does not fit.
-/
theorem boundValue_eq {b : Bindings} {bound : Bound}
    (h : ∀ name, bound.value.counter? = some name → name ∈ b.map Prod.fst) :
    ∃ n, exactBound? b bound = some n ∧
      (Fits n ∧ boundValue b bound = .ok (Int64.ofInt n) ∨
        ¬ Fits n ∧ boundValue b bound = .error (overflowError bound)) := by
  obtain ⟨n, hexact, hvalue⟩ := exists_boundValue_eq h
  refine ⟨n, hexact, ?_⟩
  by_cases hfits : Fits n
  · rw [ofInt?_of_fits hfits] at hvalue
    exact .inl ⟨hfits, hvalue⟩
  · rw [ofInt?_of_not_fits hfits] at hvalue
    exact .inr ⟨hfits, hvalue⟩

/-! ### Loops -/

/-- What an expansion returns: the given trees, or an error for one of the bounds if there is an
overflow. -/
def Outcome (bounds : List Bound) (overflows : Prop) (trees : List ConstraintExpr) :
    Except ParseError (List ConstraintExpr) → Prop
  | .ok result => ¬ overflows ∧ result = trees
  | .error error => overflows ∧ ∃ bound ∈ bounds, error = overflowError bound

/-- The words between two numbers are counted up from the lower one. -/
theorem wordsBetween_eq {low high : Int} :
    wordsBetween low high = (List.range (high - low + 1).toNat).map fun i =>
      Int64.ofInt low + Int64.ofNat i := by
  rw [wordsBetween]
  refine List.map_congr_left fun i _ => ?_
  rw [Int64.ofInt_add]
  rfl

/-- A loop has the outcome of its rounds, up to the first error. -/
theorem forEach_outcome {bounds : List Bound} {overflows : Int64 → Prop}
    {trees : Int64 → List ConstraintExpr} {body : Int64 → Except ParseError (List ConstraintExpr)}
    (count : Nat) (first : Int64)
    (hbody : ∀ value, Outcome bounds (overflows value) (trees value) (body value)) :
    Outcome bounds
      (∃ value ∈ (List.range count).map fun i => first + Int64.ofNat i, overflows value)
      (((List.range count).map fun i => first + Int64.ofNat i).flatMap trees)
      (forEach body count first) := by
  induction count generalizing first with
  | zero => exact ⟨by simp, rfl⟩
  | succ count ih =>
    have hwords : (List.range (count + 1)).map (fun i => first + Int64.ofNat i) =
        first :: (List.range count).map fun i => first + 1 + Int64.ofNat i := by
      rw [List.range_succ_eq_map, List.map_cons, List.map_map]
      congr 1
      · simp
      · refine List.map_congr_left fun i _ => ?_
        show first + Int64.ofNat (i + 1) = first + 1 + Int64.ofNat i
        rw [Int64.ofNat_add, Int64.add_assoc, Int64.add_comm 1]
        rfl
    -- an error in this round ends the loop, and otherwise the later rounds decide
    have hhere := hbody first
    have hlater := ih (first + 1)
    rw [hwords, forEach, List.flatMap_cons]
    simp only [List.exists_mem_cons_iff]
    cases hfirst : body first with
    | error error =>
      rw [hfirst] at hhere
      exact ⟨.inl hhere.1, hhere.2⟩
    | ok here =>
      rw [hfirst] at hhere
      obtain ⟨hno, rfl⟩ := hhere
      cases hrest : forEach body count (first + 1) with
      | error error =>
        rw [hrest] at hlater
        exact ⟨.inr hlater.1, hlater.2⟩
      | ok later =>
        rw [hrest] at hlater
        obtain ⟨hno', rfl⟩ := hlater
        refine ⟨?_, rfl⟩
        rintro (h | h)
        · exact hno h
        · exact hno' h

/-- A range with two ends starts at the lower one. -/
theorem exactLow?_of_low {c : Counter} {bound : Bound} (h : c.low = some bound) (b : Bindings) :
    exactLow? b c = exactBound? b bound := by
  rw [exactLow?, h]

/-- The value of the lower end of a counter's range. -/
def lowValue (b : Bindings) (c : Counter) : Except ParseError Int64 :=
  match c.low with
  | some bound => boundValue b bound
  | none => .ok implicitLow

/-- One counter runs through its range, and for each value the others run through theirs. -/
theorem expandCounters_cons (template : List Char) (c : Counter) (counters : List Counter)
    (b : Bindings) :
    expandCounters template (c :: counters) b = (lowValue b c).bind fun low =>
      (boundValue b c.high).bind fun high =>
        forEach (fun value => expandCounters template counters ((c.name, value) :: b))
          (rangeSize low high) low := by
  rw [expandCounters, lowValue]
  cases c.low <;> rfl

/-- The lower end of a counter's range, which never overflows if it is missing. -/
theorem lowValue_eq {b : Bindings} {c : Counter}
    (h : ∀ bound ∈ c.bounds, ∀ name, bound.value.counter? = some name → name ∈ b.map Prod.fst) :
    ∃ n, exactLow? b c = some n ∧
      (Fits n ∧ lowValue b c = .ok (Int64.ofInt n) ∨
        ∃ bound ∈ c.bounds, exactBound? b bound = some n ∧ ¬ Fits n ∧
          lowValue b c = .error (overflowError bound)) := by
  rw [lowValue]
  cases hlow : c.low with
  | none =>
    refine ⟨1, by rw [exactLow?, hlow], .inl ⟨?_, rfl⟩⟩
    rw [Fits]
    decide
  | some bound =>
    have hmem : bound ∈ c.bounds := by simp [Counter.bounds, hlow]
    obtain ⟨n, hexact, ⟨hfits, hvalue⟩ | ⟨hfits, hvalue⟩⟩ := boundValue_eq (h bound hmem)
    · exact ⟨n, (exactLow?_of_low hlow b).trans hexact, .inl ⟨hfits, hvalue⟩⟩
    · exact ⟨n, (exactLow?_of_low hlow b).trans hexact, .inr ⟨bound, hmem, hexact, hfits, hvalue⟩⟩

/-- When both ends of a range fit, none of its bounds overflows. -/
theorem not_overflows_of_fits {b : Bindings} {c : Counter} {low high : Int}
    (hlow : exactLow? b c = some low) (hhigh : exactBound? b c.high = some high)
    (hlowFits : Fits low) (hhighFits : Fits high) :
    ¬ ∃ bound ∈ c.bounds, ∃ n ∈ exactBound? b bound, ¬ Fits n := by
  rintro ⟨bound, hmem, n, hexact, hfits⟩
  rw [Counter.bounds, List.mem_append, List.mem_singleton, Option.mem_toList] at hmem
  rcases hmem with hmem | rfl
  · rw [exactLow?_of_low hmem, Option.mem_def.1 hexact] at hlow
    exact hfits (Option.some.inj hlow ▸ hlowFits)
  · rw [Option.mem_def.1 hexact] at hhigh
    exact hfits (Option.some.inj hhigh ▸ hhighFits)

/-- The number of values between two words is computed with their exact difference. -/
theorem rangeSize_ofInt {low high : Int} (hlow : Fits low) (hhigh : Fits high) :
    rangeSize (Int64.ofInt low) (Int64.ofInt high) = (high - low + 1).toNat := by
  rw [rangeSize, Word.ofInt?_eq_some_iff.1 (ofInt?_of_fits hlow),
    Word.ofInt?_eq_some_iff.1 (ofInt?_of_fits hhigh)]

/-- The loops run through the tuples of counter values, or meet a bound that leaves the word. -/
theorem expandCounters_outcome {template : List Char} {tree : Bindings → ConstraintExpr}
    {bounds : List Bound} {counters : List Counter} {b : Bindings}
    (hscoped : Scoped (b.map Prod.fst) counters) (hbounds : ∀ c ∈ counters, c.bounds ⊆ bounds)
    (hleaf : ∀ b' : Bindings,
      b'.map Prod.fst = (counters.map Counter.name).reverse ++ b.map Prod.fst →
      ConstraintExpr.parse (String.ofList (substitute b' none template)) = .ok (tree b')) :
    Outcome bounds (Overflows counters b) ((tuples counters b).map tree)
      (expandCounters template counters b) := by
  induction counters generalizing b with
  | nil =>
    have hparse := hleaf b (by simp)
    rw [expandCounters, hparse]
    exact ⟨id, rfl⟩
  | cons c counters ih =>
    obtain ⟨hscope, hscoped⟩ := hscoped
    obtain ⟨hhere, hbounds⟩ := List.forall_mem_cons.1 hbounds
    have hhighMem : c.high ∈ c.bounds := by simp [Counter.bounds]
    obtain ⟨low, hlow, hlowValue⟩ := lowValue_eq hscope
    obtain ⟨high, hhigh, hhighValue⟩ := boundValue_eq (hscope c.high hhighMem)
    rw [expandCounters_cons]
    -- the lower end is computed first; if it overflows, the upper one is not looked at
    rcases hlowValue with ⟨hlowFits, hlowValue⟩ | ⟨bound, hmem, hexact, hfits, hvalue⟩
    · rw [hlowValue]
      rcases hhighValue with ⟨hhighFits, hhighValue⟩ | ⟨hfits, hvalue⟩
      · rw [hhighValue]
        have hvalues : counterValues b c = wordsBetween low high := by
          rw [counterValues, hlow, hhigh]
        have hrounds := forEach_outcome (rangeSize (Int64.ofInt low) (Int64.ofInt high))
          (Int64.ofInt low) fun value => ih (b := (c.name, value) :: b) hscoped hbounds (by
            intro b' hb'
            exact hleaf b' (by simpa using hb'))
        rw [rangeSize_ofInt hlowFits hhighFits, ← wordsBetween_eq] at hrounds
        -- both ends fit, so only counters to the right can overflow
        have hoverflows : Overflows (c :: counters) b ↔
            ∃ value ∈ wordsBetween low high, Overflows counters ((c.name, value) :: b) := by
          rw [Overflows, hvalues]
          exact or_iff_right (not_overflows_of_fits hlow hhigh hlowFits hhighFits)
        have htuples : (tuples (c :: counters) b).map tree =
            (wordsBetween low high).flatMap fun value =>
              (tuples counters ((c.name, value) :: b)).map tree := by
          rw [tuples, hvalues, List.map_flatMap]
        rw [hoverflows, htuples]
        show Outcome _ _ _ (forEach _ (rangeSize (Int64.ofInt low) (Int64.ofInt high)) _)
        rw [rangeSize_ofInt hlowFits hhighFits]
        exact hrounds
      · rw [hvalue]
        exact ⟨.inl ⟨c.high, hhighMem, high, hhigh, hfits⟩, c.high, hhere hhighMem, rfl⟩
    · rw [hvalue]
      exact ⟨.inl ⟨bound, hmem, low, hexact, hfits⟩, bound, hhere hmem, rfl⟩

/-! ### Instances -/

/-- No bound counter is left in an index. -/
theorem counter?_instantiate {b : Bindings} {i : Index}
    (h : ∀ name, i.counter? = some name → name ∈ b.map Prod.fst) :
    (i.instantiate b).counter? = none := by
  cases i with
  | literal value => rfl
  | counter name =>
    obtain ⟨value, hlookup⟩ := exists_lookup (h name rfl)
    simp [Index.instantiate, hlookup, Index.counter?]

/-- No counter is left in a term whose counters are all bound. -/
theorem counterUses_instantiate_term {b : Bindings} {t : Term}
    (h : ∀ name ∈ t.counterUses, name ∈ b.map Prod.fst) (dollar : Bool) :
    (t.instantiate b dollar).counterUses = [] := by
  obtain ⟨operand, adjustment⟩ := t
  simp only [Term.counterUses, List.mem_append, Option.mem_toList, Option.bind_eq_some_iff] at h
  -- counters are used in an amount and in a subscript
  have hamount : (((adjustment.map fun a => (⟨a.sign, a.amount.instantiate b⟩ : Adjustment)).map
      Adjustment.amount).bind Index.counter?) = none := by
    cases adjustment with
    | none => rfl
    | some a => exact counter?_instantiate fun name hname => h name (.inr ⟨a.amount, rfl, hname⟩)
  have hsubscript : ((Term.reference? ⟨operand.instantiate b dollar, none⟩).bind
      Reference.index?).bind Index.counter? = none := by
    cases operand with
    | literal l => rfl
    | reference r =>
      cases r with
      | singleton name =>
        cases dollar <;> cases hlookup : b.lookup name <;>
          simp [Operand.instantiate, hlookup, Term.reference?, Reference.index?]
      | element aggregate i =>
        exact counter?_instantiate fun name hname => h name (.inl ⟨i, ⟨_, rfl, rfl⟩, hname⟩)
      | field bucket i label =>
        exact counter?_instantiate fun name hname => h name (.inl ⟨i, ⟨_, rfl, rfl⟩, hname⟩)
  rw [Term.counterUses, Term.instantiate]
  exact List.append_eq_nil_iff.2 ⟨Option.toList_eq_nil_iff.2 hsubscript,
    Option.toList_eq_nil_iff.2 hamount⟩

/-- No counter is left in a relation whose counters are all bound. -/
theorem counterUses_instantiate {b : Bindings} {e : ConstraintExpr}
    (h : ∀ name ∈ e.counterUses, name ∈ b.map Prod.fst) (dollars : Bool × Bool) :
    (e.instantiate b dollars).counterUses = [] := by
  rw [ConstraintExpr.counterUses, List.forall_mem_append] at h
  rw [ConstraintExpr.counterUses, ConstraintExpr.instantiate,
    counterUses_instantiate_term h.1, counterUses_instantiate_term h.2]
  rfl

/-- A text is accepted exactly when it is read as a tree that keeps the rules on counters. -/
theorem parse_eq_ok_iff {text : String} {tree : ConstraintExpr} :
    ConstraintExpr.parse text = .ok tree ↔
      ConstraintExpr.readTree text.toList = .ok tree ∧ CountersDeclared tree := by
  have hchecks : (do
      let tree' ← ConstraintExpr.readTree text.toList
      checkCounters (barOffset text.toList) tree'
      return tree') = Except.ok tree ↔
        ConstraintExpr.readTree text.toList = .ok tree ∧ CountersDeclared tree := by
    simp only [bind_eq_ok_iff, checkCounters_eq_ok_iff, exists_const]
    constructor
    · rintro ⟨tree', hread, hcounters, h⟩
      cases h
      exact ⟨hread, hcounters⟩
    · rintro ⟨hread, hcounters⟩
      exact ⟨tree, hread, hcounters, rfl⟩
  rw [ConstraintExpr.parse]
  split
  case isTrue hblank =>
    -- a blank text is not read as a tree either
    refine iff_of_false (by simp) fun h => ?_
    obtain ⟨relation, gap, rest, rest', hword, -, htext, -⟩ := exists_relationWord h.1
    have hvisible := hword.not_isBlankText (gap ++ rest)
    rw [← htext, String.ofList_toList, hblank] at hvisible
    cases hvisible
  case isFalse => exact hchecks

/-- The text for a tuple is read as the instance of the tree. -/
theorem parse_substitute {dollars : Bool × Bool} {template : List Char} {e : ConstraintExpr}
    (h : RelationWord dollars template e) {b : Bindings}
    (hbound : ∀ name ∈ e.counterUses, name ∈ b.map Prod.fst) :
    ConstraintExpr.parse (String.ofList (substitute b none template)) =
      .ok (e.instantiate b dollars) := by
  have hword := h.substitute b
  have hread : ConstraintExpr.readTree (substitute b none template ++ []) =
      .ok (e.instantiate b dollars) := hword.readTree isGap_nil
  have huses := counterUses_instantiate hbound dollars
  have hcounters : CountersDeclared (e.instantiate b dollars) :=
    ⟨List.nodup_nil, trivial, by simp [huses]⟩
  rw [parse_eq_ok_iff, String.toList_ofList]
  rw [List.append_nil] at hread
  exact ⟨hread, hcounters⟩

/-! ### The expansion of a text -/

/-- A tuple binds the counters in order, the last one innermost. -/
theorem map_fst_of_mem_tuples {counters : List Counter} {b b' : Bindings}
    (h : b' ∈ tuples counters b) :
    b'.map Prod.fst = (counters.map Counter.name).reverse ++ b.map Prod.fst := by
  induction counters generalizing b with
  | nil =>
    obtain rfl : b' = b := List.mem_singleton.1 h
    simp
  | cons c counters ih =>
    rw [tuples, List.mem_flatMap] at h
    obtain ⟨value, -, h⟩ := h
    simp [ih h]

/-- Each tuple binds the counters that the tree uses. -/
theorem forall_counterUses_of_parse {text : String} {tree : ConstraintExpr}
    {counters : List Counter} (hparse : ConstraintExpr.parse text = .ok tree)
    (hrepeater : tree.repeater = some counters) {b : Bindings}
    (hb : b.map Prod.fst = (counters.map Counter.name).reverse ++ []) :
    ∀ name ∈ tree.counterUses, name ∈ b.map Prod.fst := by
  have huses := (parse_eq_ok_iff.1 hparse).2.uses
  rw [hrepeater, Option.getD_some] at huses
  intro name hname
  rw [hb, List.append_nil]
  exact List.mem_reverse.2 (huses name hname)

/-- What a text with a repeater clause expands to. -/
theorem expandText_outcome {text : String} {tree : ConstraintExpr} {counters : List Counter}
    (hparse : ConstraintExpr.parse text = .ok tree) (hrepeater : tree.repeater = some counters) :
    Outcome (counters.flatMap Counter.bounds) (Overflows counters [])
      ((tuples counters []).map fun b => tree.instantiate b (dollars text.toList))
      (expandText text) := by
  obtain ⟨hread, hcounters⟩ := parse_eq_ok_iff.1 hparse
  have hscoped := hcounters.inScope
  rw [hrepeater, Option.getD_some] at hscoped
  have hword := relationWord_of_readTree hread hrepeater
  have hbounds : ∀ c ∈ counters, c.bounds ⊆ counters.flatMap Counter.bounds :=
    fun c hc bound hmem => List.mem_flatMap.2 ⟨c, hc, hmem⟩
  have hexpand : expandText text = expandCounters (strip text.toList) counters [] := by
    simp [expandText, hparse, expand, hrepeater, bind, Except.bind]
  rw [hexpand]
  -- at each tuple all counters are bound, so that the text of the instance is accepted
  exact expandCounters_outcome (b := []) hscoped hbounds fun b hb =>
    parse_substitute hword (forall_counterUses_of_parse hparse hrepeater hb)

/-- No counter is left in an instance. -/
theorem counterUses_of_mem_tuples {text : String} {tree : ConstraintExpr} {counters : List Counter}
    (hparse : ConstraintExpr.parse text = .ok tree) (hrepeater : tree.repeater = some counters)
    {b : Bindings} (hb : b ∈ tuples counters []) (dollars : Bool × Bool) :
    (tree.instantiate b dollars).counterUses = [] :=
  counterUses_instantiate
    (forall_counterUses_of_parse hparse hrepeater (map_fst_of_mem_tuples hb)) dollars

/-- What a text expands to was read from a text without a repeater clause. -/
theorem exists_parse_of_expandText {text : String} {trees : List ConstraintExpr}
    (h : expandText text = .ok trees) {tree : ConstraintExpr} (htree : tree ∈ trees) :
    ∃ text', ConstraintExpr.parse text' = .ok tree ∧ tree.repeater = none := by
  cases hparse : ConstraintExpr.parse text with
  | error error => simp [expandText, hparse, bind, Except.bind] at h
  | ok template =>
    cases hrepeater : template.repeater with
    | none =>
      -- the tree stands for itself
      obtain rfl : trees = [template] := by
        simpa [expandText, hparse, expand, hrepeater, bind, Except.bind] using h.symm
      obtain rfl := List.mem_singleton.1 htree
      exact ⟨text, hparse, hrepeater⟩
    | some counters =>
      have houtcome := expandText_outcome hparse hrepeater
      rw [h] at houtcome
      rw [houtcome.2] at htree
      obtain ⟨b, hb, rfl⟩ := List.mem_map.1 htree
      have hword := relationWord_of_readTree (parse_eq_ok_iff.1 hparse).1 hrepeater
      have hbound := forall_counterUses_of_parse hparse hrepeater (map_fst_of_mem_tuples hb)
      exact ⟨_, parse_substitute hword hbound, rfl⟩

/-- No counter is left in what a text expands to. -/
theorem counterUses_of_expandText {text : String} {trees : List ConstraintExpr}
    (h : expandText text = .ok trees) {tree : ConstraintExpr} (htree : tree ∈ trees) :
    tree.counterUses = [] := by
  obtain ⟨text', hparse, hrepeater⟩ := exists_parse_of_expandText h htree
  have huses := (parse_eq_ok_iff.1 hparse).2.uses
  rw [hrepeater] at huses
  exact List.eq_nil_iff_forall_not_mem.2 fun name hname => by simpa using huses name hname

/-- A text that is read as a tree with a repeater clause expands to the instances of the tree, one
for each tuple of counter values and in the order of the tuples, and no counter is left in them. The
only error is a bound of a reached range that leaves the word. -/
theorem expandText_eq_instances {text : String} {tree : ConstraintExpr} {counters : List Counter}
    (hparse : ConstraintExpr.parse text = .ok tree) (hrepeater : tree.repeater = some counters) :
    (¬ Overflows counters [] → expandText text = .ok ((tuples counters []).map fun b =>
      tree.instantiate b (dollars text.toList))) ∧
    (Overflows counters [] → ∃ c ∈ counters, ∃ bound ∈ c.bounds,
      expandText text = .error ⟨"bound `" ++ bound.render ++ "` overflows", 0⟩) ∧
    ∀ b ∈ tuples counters [], (tree.instantiate b (dollars text.toList)).counterUses = [] := by
  -- either all bounds fit and the instances are listed, or the first that does not is reported
  have houtcome := expandText_outcome hparse hrepeater
  refine ⟨?_, ?_, ?_⟩
  · intro hfits
    cases hresult : expandText text with
    | ok result =>
      rw [hresult] at houtcome
      rw [houtcome.2]
    | error error =>
      rw [hresult] at houtcome
      exact absurd houtcome.1 hfits
  · intro hoverflows
    cases hresult : expandText text with
    | ok result =>
      rw [hresult] at houtcome
      exact absurd hoverflows houtcome.1
    | error error =>
      rw [hresult] at houtcome
      obtain ⟨-, bound, hmem, rfl⟩ := houtcome
      obtain ⟨c, hc, hmem⟩ := List.mem_flatMap.1 hmem
      exact ⟨c, hc, bound, hmem, rfl⟩
  · intro b hb
    exact counterUses_of_mem_tuples hparse hrepeater hb _

/-- The second counter runs from one before the first one up to it. The plain name on the right is
the first counter. -/
def bandText : String :=
  "x[i] - j <> i | i, j in 2, i - 1..i"

/-- The counters of the text. -/
def bandCounters : List Counter :=
  [⟨"i", none, ⟨.literal 2, 0⟩⟩, ⟨"j", some ⟨.counter "i", -1⟩, ⟨.counter "i", 0⟩⟩]

/-- The tree that is read from the text. -/
def bandTree : ConstraintExpr :=
  ⟨⟨.reference (.element "x" (.counter "i")), some ⟨.minus, .counter "j"⟩⟩, .ne,
    ⟨.reference (.singleton "i"), none⟩, some bandCounters⟩

/-- The range of the second counter depends on the first one, and its value 0 is reached. -/
theorem expandText_eq_instances_bandText :
    ConstraintExpr.parse bandText = .ok bandTree ∧ ¬ Overflows bandCounters [] ∧
      tuples bandCounters [] =
        [[("j", 0), ("i", 1)], [("j", 1), ("i", 1)], [("j", 1), ("i", 2)], [("j", 2), ("i", 2)]] ∧
      expandText bandText = .ok ((tuples bandCounters []).map fun b =>
        bandTree.instantiate b (dollars bandText.toList)) := by
  have hparse : ConstraintExpr.parse bandText = .ok bandTree := by decide +kernel
  have hfits : ¬ Overflows bandCounters [] := by decide +kernel
  refine ⟨hparse, hfits, by decide +kernel, ?_⟩
  exact (expandText_eq_instances hparse rfl).1 hfits

-- the bound of `j` leaves the word, but no value of `i` leads there
example : expandText "x = i | i, j in 0, 9223372036854775807 + 1" = .ok [] := by
  decide +kernel

end FiniteDomain.Template
