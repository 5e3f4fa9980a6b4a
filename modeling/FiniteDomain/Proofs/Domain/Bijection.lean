import FiniteDomain.Proofs.Domain.Evaluation
import FiniteDomain.Proofs.Expression.DomainWord
import Mathlib.Algebra.Group.Int.Defs
import Mathlib.Algebra.Group.Nat.Defs

/-!
# Domains number their values

The domain of an expression that was read has values, and its positions number them: every position
has a value, every value has one position, and keys ascend with positions. The numbers that
comparisons use for a value are the same whether the value comes from a position or from a constant.

Lists are the only domains whose size evaluation does not limit. They are as long as their texts
allow, and positions are signed words; so the texts have to be shorter than the word can count, as
all texts in memory are.

## Main definitions

* `Text.Countable`: the characters of a text can be counted with signed words.
* `Domain.Regular`: a proper domain with values, whose positions are signed words.
* `Domain.IsNumbering`: positions and values correspond to each other.

## Main results

* `Domain.position?_eq_some_iff`: a value has a position exactly when it is the value there.
* `Domain.isNumbering_of_evaluate`: evaluated domains number their values.
-/

namespace FiniteDomain

/-- The characters of a text can be counted with signed words. -/
def Text.Countable (text : String) : Prop :=
  text.length < 2 ^ 63

instance (text : String) : Decidable (Text.Countable text) :=
  inferInstanceAs (Decidable (text.length < 2 ^ 63))

/-- The texts of the shared domains can be counted. -/
def Context.Countable (context : Context) : Prop :=
  ∀ name text, context.sharedDomain name = some text → Text.Countable text

/-- The constant that denotes a value. -/
def Value.literal : Value → Literal
  | .int value => .integer value
  | .char value => .character value
  | .item value => .item value

namespace Domain

variable {context : Context} {d : Domain}

/-- A proper domain with values, all of whose positions are signed words. -/
structure Regular (d : Domain) : Prop where
  /-- The domain is proper. -/
  proper : d.Proper
  /-- The domain has a value. -/
  size_pos : 1 ≤ d.size
  /-- The last position is a signed word. -/
  size_lt : d.size < 2 ^ 63

/-! ### Evaluated domains are regular -/

/-- The largest size of a domain is far from the end of the word. -/
theorem sizeLimit_lt : sizeLimit < 2 ^ 63 := by
  decide

/-- A range is accepted only if its ends are in order and its size is within the limit. -/
theorem regular_of_evaluateRange {low high : Band}
    (h : evaluateRange context low high = .ok d) : d.Regular := by
  obtain ⟨hpos, hsize⟩ := size_of_evaluateRange h
  exact ⟨proper_of_evaluateRange h, hpos, Nat.lt_of_le_of_lt hsize sizeLimit_lt⟩

/-- Lists of items have no limit of their own; that their length fits is asked of the text. -/
theorem regular_of_evaluateList {items : List String} (hne : items ≠ [])
    (hlength : items.length < 2 ^ 63) (h : evaluateList items = .ok d) : d.Regular := by
  obtain ⟨hnodup, rfl⟩ := evaluateList_eq_ok_iff.1 h
  exact ⟨hnodup, List.length_pos_iff.2 hne, hlength⟩

/-- The cells of a slice are within the limit and there is at least one. -/
theorem regular_of_evaluateSlice {s : Slice} (h : evaluateSlice context s = .ok d) :
    d.Regular := by
  obtain ⟨hpos, hsize⟩ := size_of_evaluateSlice h
  exact ⟨proper_of_evaluateSlice h, hpos, Nat.lt_of_le_of_lt hsize sizeLimit_lt⟩

/-- Whatever form an expression has, its domain is regular if the shared domains are. -/
theorem regular_of_evaluateWith {shared : String → Except DomainError Domain}
    (hshared : ∀ name d, shared name = .ok d → d.Regular) {text : String}
    (htext : Text.Countable text) {tree : DomainExpr} (hparse : DomainExpr.parse text = .ok tree)
    (h : evaluateWith shared context tree = .ok d) : d.Regular := by
  cases tree with
  | range low high => exact regular_of_evaluateRange h
  | list items =>
    obtain ⟨hne, hlength⟩ := DomainExpr.length_items_of_parse hparse
    exact regular_of_evaluateList hne (Nat.lt_of_le_of_lt hlength htext) h
  | shared name => exact hshared name d h
  | table slice => exact regular_of_evaluateSlice h

/-- The domain of an expression that was read is regular. -/
theorem regular_of_evaluate (hcontext : context.Countable) {text : String}
    (htext : Text.Countable text) {tree : DomainExpr} (hparse : DomainExpr.parse text = .ok tree)
    (h : evaluate context tree = .ok d) : d.Regular := by
  refine regular_of_evaluateWith ?_ htext hparse h
  intro name d' hd'
  unfold evaluateShared at hd'
  split at hd'
  · cases hd'
  next text' htext' =>
    split at hd'
    · cases hd'
    next hparse' => exact regular_of_evaluateWith (by simp) (hcontext name text' htext') hparse' hd'

namespace Regular

/-- The size of a regular domain fits the word. -/
theorem toInt_sizeWord (hd : d.Regular) : d.sizeWord.toInt = d.size :=
  Int64.toInt_ofNat_of_lt hd.size_lt

/-- The positions of a regular domain are the words from 1 to its size. -/
theorem mem_positions_iff (hd : d.Regular) {p : Int64} :
    p ∈ d.positions ↔ 1 ≤ p ∧ p.toInt ≤ d.size := by
  rw [mem_positions, Int64.le_iff_toInt_le (x := p), hd.toInt_sizeWord]

end Regular

/-! ### Positions and values -/

/-- The distance of two words, counted from 1, is exact when it is small. -/
theorem toInt_sub_add_one {a b : Int64} (hle : b.toInt ≤ a.toInt)
    (hlt : a.toInt - b.toInt < 2 ^ 62) : (a - b + 1).toInt = a.toInt - b.toInt + 1 := by
  have hsub : (a - b).toInt = a.toInt - b.toInt := by
    rw [Int64.toInt_sub]
    exact Int.bmod_eq_of_le (by omega) (by omega)
  have hone : (1 : Int64).toInt = 1 := rfl
  have hmax : Int64.maxValue.toInt = 2 ^ 63 - 1 := rfl
  have hzero : (0 : Int64).toInt = 0 := rfl
  rw [Word.toInt_add_of_between 0 Int64.maxValue (by omega) (by omega), hsub, hone]

/-- An integer of a range has the position that has it as its key. -/
theorem position?_intRange_eq_some_iff {low high : Int64} (hd : (intRange low high).Proper)
    {x p : Int64} : (intRange low high).position? (.int x) = some p ↔
      p ∈ (intRange low high).positions ∧ (intRange low high).key p = x := by
  have hlimit : (sizeLimit : Int) = 2 ^ 20 := rfl
  have hwidth := hd.2
  simp only [position?, Option.ite_none_right_eq_some, Option.some.injEq]
  -- the range is short, so the distance from its lower end does not wrap
  constructor
  · rintro ⟨⟨hlow, hhigh⟩, rfl⟩
    rw [Int64.le_iff_toInt_le] at hlow hhigh
    have hdistance := toInt_sub_add_one (a := x) (b := low) hlow (by omega)
    have hmem : x - low + 1 ∈ (intRange low high).positions := by
      rw [mem_positions, Word.one_le_iff, Int64.le_iff_toInt_le, toInt_sizeWord_intRange hd]
      omega
    refine ⟨hmem, ?_⟩
    rw [← Int64.toInt_inj, toInt_key hd hmem, exactKey]
    omega
  · rintro ⟨hp, rfl⟩
    have hkey : ((intRange low high).key p).toInt = low.toInt + (p.toInt - 1) := toInt_key hd hp
    rw [mem_positions, Word.one_le_iff, Int64.le_iff_toInt_le, toInt_sizeWord_intRange hd] at hp
    refine ⟨?_, ?_⟩
    · rw [Int64.le_iff_toInt_le, Int64.le_iff_toInt_le]
      omega
    · rw [← Int64.toInt_inj, toInt_sub_add_one (by omega) (by omega)]
      omega

/-- A character of a range has the position whose key is its code point. -/
theorem position?_charRange_eq_some_iff {low high : Char} (hd : (charRange low high).Proper)
    {c : Char} {p : Int64} : (charRange low high).position? (.char c) = some p ↔
      p ∈ (charRange low high).positions ∧ (c.toNat : Int) = (charRange low high).exactKey p := by
  have hcode : ∀ a b : Char, a ≤ b ↔ (codePoint a).toInt ≤ (codePoint b).toInt := by
    intro a b
    rw [toInt_codePoint, toInt_codePoint, Char.le_def, UInt32.le_iff_toNat_le]
    exact Int.ofNat_le.symm
  have hhigh32 : high.toNat < 2 ^ 32 := high.val.toNat_lt_size
  -- characters are compared by their code points, which are small words
  simp only [position?, Option.ite_none_right_eq_some, Option.some.injEq, exactKey, hcode,
    ← toInt_codePoint]
  have hlow' := toInt_codePoint low
  have hhigh' := toInt_codePoint high
  rw [mem_positions, Word.one_le_iff, Int64.le_iff_toInt_le, toInt_sizeWord_charRange hd]
  constructor
  · rintro ⟨⟨hlow, hhigh⟩, rfl⟩
    rw [toInt_sub_add_one hlow (by omega)]
    omega
  · rintro ⟨hp, hc⟩
    refine ⟨by omega, ?_⟩
    rw [← Int64.toInt_inj, toInt_sub_add_one (by omega) (by omega)]
    omega

/-- An item that occurs once has a position exactly when it is the item there. -/
theorem itemPosition?_eq_some_iff {items : List String} (hnodup : items.Nodup)
    (hlength : items.length < 2 ^ 63) {text : String} {p : Int64} :
    itemPosition? items text = some p ↔
      1 ≤ p ∧ items[(p - 1).toNatClampNeg]? = some text := by
  simp only [itemPosition?, Option.map_eq_some_iff, List.idxOf?_eq_some_iff]
  constructor
  · rintro ⟨i, ⟨hi, rfl, -⟩, rfl⟩
    -- positions are places counted from 1, and the length of the list fits the word
    have hvalue : (Int64.ofNat (i + 1)).toInt = i + 1 := Int64.toInt_ofNat_of_lt (by omega)
    have hone : (1 : Int64) ≤ Int64.ofNat (i + 1) := by
      rw [Word.one_le_iff, hvalue]
      omega
    refine ⟨hone, ?_⟩
    rw [← Int64.toNat_toInt, Word.toInt_sub_one hone, hvalue, Int.add_sub_cancel, Int.toNat_natCast]
    exact List.getElem?_eq_getElem hi
  · rintro ⟨hone, hget⟩
    obtain ⟨hi, htext⟩ := List.getElem?_eq_some_iff.1 hget
    refine ⟨(p - 1).toNatClampNeg, ⟨hi, htext, ?_⟩, ?_⟩
    · -- an earlier occurrence would be a second one
      intro j hj heq
      rw [← htext, hnodup.getElem_inj_iff] at heq
      omega
    · have hpred := Word.toInt_sub_one hone
      rw [Word.one_le_iff] at hone
      rw [← Int64.toInt_inj, Int64.toInt_ofNat_of_lt (by omega), ← Int64.toNat_toInt, hpred]
      omega

/-- Only positions have values. -/
theorem mem_positions_of_value? {v : Value} {p : Int64} (h : d.value? p = some v) :
    p ∈ d.positions := by
  by_contra hp
  rw [value?_eq_none hp] at h
  cases h

/-- The value at a position of an integer range is its key. -/
theorem value?_intRange_eq_some_iff {low high p : Int64} {v : Value} :
    (intRange low high).value? p = some v ↔
      p ∈ (intRange low high).positions ∧ (.int ((intRange low high).key p)) = v := by
  constructor
  · intro h
    have hp := mem_positions_of_value? h
    rw [value?_intRange hp] at h
    exact ⟨hp, Option.some.inj h⟩
  · rintro ⟨hp, rfl⟩
    exact value?_intRange hp

/-- The value at a position of a character range is the character whose code point is the key, if
there is one. -/
theorem value?_charRange_eq_some_iff {low high : Char} (hd : (charRange low high).Proper)
    {p : Int64} {v : Value} : (charRange low high).value? p = some v ↔
      p ∈ (charRange low high).positions ∧
        ∃ c, .char c = v ∧ (c.toNat : Int) = (charRange low high).exactKey p := by
  constructor
  · intro h
    have hp := mem_positions_of_value? h
    obtain ⟨c, hc, hkey⟩ := value?_charRange hd hp
    rw [hc] at h
    exact ⟨hp, c, Option.some.inj h, hkey⟩
  · rintro ⟨hp, c, rfl, hkey⟩
    obtain ⟨c', hc', hkey'⟩ := value?_charRange hd hp
    -- characters with one code point are one
    have hsame : c'.toNat = c.toNat := by omega
    rw [hc', Char.toNat_inj.1 hsame]

/-- The items of a domain that was given by items. -/
def items? : Domain → Option (List String)
  | list items | table items => some items
  | intRange _ _ | charRange _ _ => none

/-- The value at a position of a domain of items is the item there. -/
theorem exists_item_of_value? {items : List String} (hd : d.items? = some items) {p : Int64}
    {v : Value} (h : d.value? p = some v) :
    ∃ text, .item text = v ∧ 1 ≤ p ∧ items[(p - 1).toNatClampNeg]? = some text := by
  have hp := mem_positions_of_value? h
  rw [value?, if_neg (mem_positions_iff_inside.1 hp)] at h
  cases d with
  | intRange | charRange => cases hd
  | list | table =>
    cases hd
    obtain ⟨text, htext, rfl⟩ := Option.map_eq_some_iff.1 h
    exact ⟨text, rfl, (mem_positions.1 hp).1, htext⟩

/-- The value at a position of a list is the item that stands there, counted from 1. -/
theorem value?_items_eq_some_iff {items : List String} (hlength : items.length < 2 ^ 63)
    (hd : d.items? = some items) {p : Int64} {v : Value} :
    d.value? p = some v ↔
      ∃ text, .item text = v ∧ 1 ≤ p ∧ items[(p - 1).toNatClampNeg]? = some text := by
  refine ⟨exists_item_of_value? hd, ?_⟩
  rintro ⟨text, rfl, hone, htext⟩
  obtain ⟨hi, -⟩ := List.getElem?_eq_some_iff.1 htext
  rw [← Int64.toNat_toInt, Word.toInt_sub_one hone] at hi
  have hp : p ∈ d.positions := by
    have hsize : d.sizeWord = Int64.ofNat items.length := by
      cases d with
      | intRange | charRange => cases hd
      | list | table => cases hd; rfl
    rw [mem_positions, hsize, Int64.le_iff_toInt_le (x := p), Int64.toInt_ofNat_of_lt hlength]
    exact ⟨hone, by omega⟩
  rw [value?, if_neg (mem_positions_iff_inside.1 hp)]
  cases d with
  | intRange | charRange => cases hd
  | list | table =>
    cases hd
    exact congrArg (Option.map Value.item) htext

/-- A value has a position exactly when it is the value there. -/
theorem position?_eq_some_iff (hd : d.Regular) {v : Value} {p : Int64} :
    d.position? v = some p ↔ d.value? p = some v := by
  obtain ⟨hproper, -, hlength⟩ := hd
  -- a domain has values of one kind only, and no value of another kind has a position
  cases d with
  | intRange low high =>
    rw [value?_intRange_eq_some_iff]
    cases v with
    | int x => simp [position?_intRange_eq_some_iff hproper]
    | char | item => simp [position?]
  | charRange low high =>
    rw [value?_charRange_eq_some_iff hproper]
    cases v with
    | char c => simp [position?_charRange_eq_some_iff hproper]
    | int | item => simp [position?]
  | list items =>
    rw [value?_items_eq_some_iff hlength rfl]
    cases v with
    | item text => simp [position?, itemPosition?_eq_some_iff hproper hlength]
    | int | char => simp [position?]
  | table items =>
    rw [value?_items_eq_some_iff hlength rfl]
    cases v with
    | item text => simp [position?, itemPosition?_eq_some_iff hproper hlength]
    | int | char => simp [position?]

/-- The constant that denotes a value has the key of the value's position. -/
theorem literalKey?_literal (hd : d.Regular) {v : Value} {p : Int64}
    (h : d.position? v = some p) : d.literalKey? v.literal = some (d.key p) := by
  have hp := mem_positions_of_value? ((position?_eq_some_iff hd).1 h)
  cases d with
  | intRange low high =>
    cases v with
    | int x =>
      obtain ⟨-, rfl⟩ := (position?_intRange_eq_some_iff hd.proper).1 h
      rfl
    | char | item => cases h
  | charRange low high =>
    cases v with
    | char c =>
      obtain ⟨-, hkey⟩ := (position?_charRange_eq_some_iff hd.proper).1 h
      show some (codePoint c) = _
      rw [Option.some.injEq, ← Int64.toInt_inj, toInt_codePoint, toInt_key hd.proper hp, hkey]
    | int | item => cases h
  | list items | table items =>
    cases v with
    | item text => exact h
    | int | char => cases h

/-- Keys of positions are ordered like the positions. -/
theorem key_lt_key (hd : d.Proper) {p q : Int64} (hp : p ∈ d.positions) (hq : q ∈ d.positions)
    (hlt : p < q) : d.key p < d.key q := by
  have hsub := d.exactKey_sub q p
  rw [Int64.lt_iff_toInt_lt] at hlt ⊢
  rw [toInt_key hd hp, toInt_key hd hq]
  omega

/-! ### Numberings -/

/-- The positions of a domain, from 1 to its size, and its values correspond to each other. -/
structure IsNumbering (d : Domain) : Prop where
  /-- There is a value. -/
  size_pos : 1 ≤ d.size
  /-- A position has a value, which has this position. -/
  valueAt_eq_ok : ∀ n : Int64, 1 ≤ n.toInt ∧ n.toInt ≤ d.size →
    ∃ v, d.valueAt n = .ok v ∧ d.positionOf v = .ok n
  /-- Any other number has no value, and the error names it. -/
  valueAt_eq_error : ∀ n : Int64, ¬ (1 ≤ n.toInt ∧ n.toInt ≤ d.size) →
    d.valueAt n = .error (.unmappable (Decimal.ofInt64 n) d.render)
  /-- What has a position is the value there. -/
  positionOf_eq_ok : ∀ v n, d.positionOf v = .ok n →
    (1 ≤ n.toInt ∧ n.toInt ≤ d.size) ∧ d.valueAt n = .ok v
  /-- Keys are ordered like the positions. -/
  key_lt_key : ∀ m n : Int64, 1 ≤ m.toInt → m < n → n.toInt ≤ d.size → d.key m < d.key n
  /-- The constant that denotes a value has the key of the value's position. -/
  literalKey_eq_key : ∀ v n, d.positionOf v = .ok n → d.literalKey v.literal = .ok (d.key n)

/-- The value of a position is answered exactly if there is one. -/
theorem valueAt_eq_ok_iff {v : Value} {p : Int64} :
    d.valueAt p = .ok v ↔ d.value? p = some v := by
  unfold valueAt
  cases d.value? p <;> simp

/-- The position of a value is answered exactly if there is one. -/
theorem positionOf_eq_ok_iff {v : Value} {p : Int64} :
    d.positionOf v = .ok p ↔ d.position? v = some p := by
  unfold positionOf
  cases d.position? v <;> simp

/-- The domain of an expression that was read numbers its values. -/
theorem isNumbering_of_evaluate {text : String} {tree : DomainExpr} {context : Context}
    {d : Domain} (htext : Text.Countable text) (hcontext : context.Countable)
    (hparse : DomainExpr.parse text = .ok tree) (hd : evaluate context tree = .ok d) :
    d.IsNumbering := by
  have hregular := regular_of_evaluate hcontext htext hparse hd
  have hmem : ∀ n : Int64, n ∈ d.positions ↔ 1 ≤ n.toInt ∧ n.toInt ≤ d.size := by
    intro n
    rw [hregular.mem_positions_iff, Word.one_le_iff]
  -- values of positions, no others, positions of values, keys that ascend, and their literals
  refine ⟨hregular.size_pos, ?_, ?_, ?_, ?_, ?_⟩
  · intro n hn
    obtain ⟨v, hv⟩ := Option.isSome_iff_exists.1 (value?_isSome hregular.proper ((hmem n).2 hn))
    refine ⟨v, valueAt_eq_ok_iff.2 hv, positionOf_eq_ok_iff.2 ?_⟩
    exact (position?_eq_some_iff hregular).2 hv
  · intro n hn
    rw [valueAt, value?_eq_none (mt (hmem n).1 hn)]
  · intro v n h
    have hv := (position?_eq_some_iff hregular).1 (positionOf_eq_ok_iff.1 h)
    exact ⟨(hmem n).1 (mem_positions_of_value? hv), valueAt_eq_ok_iff.2 hv⟩
  · intro m n hm hlt hn
    have hlt' := Int64.lt_iff_toInt_lt.1 hlt
    exact Domain.key_lt_key hregular.proper ((hmem m).2 (by omega)) ((hmem n).2 (by omega)) hlt
  · intro v n h
    rw [literalKey, literalKey?_literal hregular (positionOf_eq_ok_iff.1 h)]

/-- A context that knows the letters of grades. -/
def gradeContext : Context where
  sharedDomain name := if name = "grades" then some "'a' range 'f'" else none
  table _ := none
  aggregateSize _ := none

/-- The letters of grades number themselves. -/
theorem isNumbering_of_evaluate_grades :
    DomainExpr.parse " $grades " = .ok (.shared "grades") ∧
      evaluate gradeContext (.shared "grades") = .ok (charRange 'a' 'f') ∧
      (charRange 'a' 'f').IsNumbering := by
  have htext : Text.Countable " $grades " := by decide
  have hcontext : gradeContext.Countable := by
    intro name text h
    obtain ⟨-, ⟨⟩⟩ := Option.ite_none_right_eq_some.1 h
    decide
  have hparse : DomainExpr.parse " $grades " = .ok (.shared "grades") := by rfl
  have heval : evaluate gradeContext (.shared "grades") = .ok (charRange 'a' 'f') := by rfl
  exact ⟨hparse, heval, isNumbering_of_evaluate htext hcontext hparse heval⟩

end Domain

end FiniteDomain
