import FiniteDomain.Expression.ConstraintReader
import FiniteDomain.Proofs.Expression.TermWord
import FiniteDomain.Proofs.Outcome

/-!
# Tracers

A tracer reads like a reader, but where it fails it keeps a trace: what each of the parts that gave
up had to complain about, the innermost first. A choice keeps the trace of its last alternative
only, an optional part drops its trace, and a part with a label adds what it was to be. The error
that is shown is picked from the trace of the whole: its first label, or its first remark if it has
none.

A failure is final when no choice and no optional part may go on after it.

## Main definitions

* `Tracer`: what reads with a trace, with its combinators.
* `ParseError.ofFailure`: the error that is shown for a failure.
* `Traces t p`: the tracer `t` reads what the reader `p` reads, and its failures are not final.
* `Blames label x`: if `x` has failed, then `label` is the first label of its trace.

## Main results

* `Traces.map`, `Traces.padded`, `Traces.optional`, `Traces.separated`, `Alternatives.traces`: each
  combinator traces the reader that is put together alike.
* `Blames.firstOf`: a choice blames what its last alternative blames.
* `Traces.mapError_labelled`: a label on a part without labels is what is shown when it fails.
-/

namespace FiniteDomain

/-- The rules that complain by their own name. -/
inductive Rule where
  /-- A choice without an alternative that reads. -/
  | choice
  /-- Digits. -/
  | digits
  /-- The end of the text. -/
  | ending
  /-- A value that was read and then refused. -/
  | refused
  /-- A number that was read and does not fit. -/
  | unfit
  /-- Any character but some. -/
  | noneOf
  /-- One of some characters. -/
  | oneOf
  /-- A fixed text. -/
  | token
  /-- The characters of a name. -/
  | letters
  deriving DecidableEq

/-- The name that a rule is shown by. -/
def Rule.text : Rule → String
  | choice => "Alt"
  | digits => "Digit"
  | ending => "Eof"
  | refused => "MapOpt"
  | unfit => "MapRes"
  | noneOf => "NoneOf"
  | oneOf => "OneOf"
  | token => "Tag"
  | letters => "TakeWhile1"

/-- What a remark says. -/
inductive Complaint where
  /-- What a part was to be. -/
  | label (what : String)
  /-- The character that was to stand there. -/
  | symbol (c : Char)
  /-- The rule that failed. -/
  | rule (rule : Rule)
  deriving DecidableEq

/-- The message that a complaint is shown by. -/
def Complaint.message : Complaint → String
  | label what => "syntax error: expected " ++ what
  | symbol c => "syntax error: expected '" ++ String.singleton c ++ "'"
  | rule r => "syntax error near " ++ r.text

/-- One complaint and the text at which it was made. -/
structure Remark where
  /-- What the remark says. -/
  complaint : Complaint
  /-- The text that was left there. -/
  rest : List Char
  deriving DecidableEq

/-- The complaint is a label. -/
def Remark.isLabel (remark : Remark) : Bool :=
  match remark.complaint with
  | .label _ => true
  | _ => false

/-- Why a tracer failed: its trace, the innermost remark first. -/
inductive Failure where
  /-- Another alternative may be tried. -/
  | recoverable (trace : List Remark)
  /-- The text is rejected. -/
  | final (trace : List Remark)
  deriving DecidableEq

namespace Failure

/-- The remarks, the innermost first. -/
def trace : Failure → List Remark
  | recoverable trace | final trace => trace

/-- The first label of the trace. -/
def label? (failure : Failure) : Option Remark :=
  failure.trace.find? Remark.isLabel

/-- The failure with one more remark at its outer end. -/
def note (remark : Remark) : Failure → Failure
  | recoverable trace => recoverable (trace ++ [remark])
  | final trace => final (trace ++ [remark])

/-- A remark at the outer end is picked only if no remark before it is a label. -/
theorem label?_note (remark : Remark) (failure : Failure) :
    (failure.note remark).label? = failure.label?.or ([remark].find? Remark.isLabel) := by
  cases failure <;> exact List.find?_append

end Failure

/-- The error that is shown for a failure: its first label, or its first remark if it has none. -/
def ParseError.ofFailure (whole : List Char) (failure : Failure) : ParseError :=
  match failure.label?.or failure.trace.head? with
  | some remark => ⟨remark.complaint.message, byteOffset whole remark.rest⟩
  | none => ⟨"syntax error", 0⟩

/-- Reads a value from the start of a text, or says why the text does not start with one. -/
abbrev Tracer (α : Type) : Type :=
  List Char → Except Failure (α × List Char)

variable {α β : Type}

namespace Tracer

/-- The value, or a complaint at `cs` if there is none. -/
def orComplain (complaint : Complaint) (cs : List Char) : Option α → Except Failure α
  | some a => .ok a
  | none => .error (.recoverable [⟨complaint, cs⟩])

/-- A reader that complains where it starts. -/
def ofReader (complaint : Complaint) (p : Reader α) : Tracer α := fun cs =>
  orComplain complaint cs (p cs)

/-- Changes the value read. -/
def map (f : α → β) (t : Tracer α) : Tracer β := fun cs =>
  (t cs).map fun (a, rest) => (f a, rest)

/-- Says what the part was to be where it fails. -/
def labelled (what : String) (t : Tracer α) : Tracer α := fun cs =>
  (t cs).mapError (Failure.note ⟨.label what, cs⟩)

/-- Allows layout before and after. -/
def padded (t : Tracer α) : Tracer α := fun cs =>
  (t (Text.skipLayout cs)).map fun (a, rest) => (a, Text.skipLayout rest)

/-- The value if there is one. What the part complains about is dropped, unless it is final. -/
def optional (t : Tracer α) : Tracer (Option α) := fun cs =>
  match t cs with
  | .ok (a, rest) => .ok (some a, rest)
  | .error (.recoverable _) => .ok (none, cs)
  | .error (.final trace) => .error (.final trace)

/-- The alternatives in turn. Of those that have failed only the last one's trace is kept. -/
def tryEach (cs : List Char) : (trace : List Remark) → List (Tracer α) →
    Except Failure (α × List Char)
  | trace, [] => .error (.recoverable (trace ++ [⟨.rule .choice, cs⟩]))
  | _, t :: ts =>
    match t cs with
    | .ok result => .ok result
    | .error (.recoverable trace) => tryEach cs trace ts
    | .error (.final trace) => .error (.final trace)

/-- The first alternative that reads. -/
def firstOf (ts : List (Tracer α)) : Tracer α := fun cs =>
  tryEach cs [] ts

/-- A separator and the item that it announces. -/
def announced (separator : Tracer Unit) (t : Tracer α) : Tracer α := fun cs => do
  let (_, rest) ← separator cs
  t rest

/-- The items after the first one of a list, as far as each is announced by a separator. -/
def further (separator : Tracer Unit) (t : Tracer α) (cs : List Char) :
    Except Failure (List α × List Char) :=
  match optional (announced separator t) cs with
  | .error failure => .error failure
  | .ok (none, _) => .ok ([], cs)
  | .ok (some a, rest) =>
    if rest.length < cs.length then do
      let (more, rest) ← further separator t rest
      return (a :: more, rest)
    else .ok ([], cs)
termination_by cs.length

/-- A non-empty list of items with separators between them. -/
def separated (separator : Tracer Unit) (t : Tracer α) : Tracer (List α) := fun cs => do
  let (a, rest) ← t cs
  let (more, rest) ← further separator t rest
  return (a :: more, rest)

/-- The value, if nothing but layout is left. -/
def ending (a : α) (cs : List Char) : Except Failure α :=
  match Text.skipLayout cs with
  | [] => .ok a
  | rest => .error (.recoverable [⟨.rule .ending, rest⟩])

/-- Reads a text to its end, with layout around what it holds. -/
def entire (t : Tracer α) (cs : List Char) : Except Failure α := do
  let (a, rest) ← t (Text.skipLayout cs)
  ending a rest

end Tracer

/-! ### What a tracer reads -/

/-- The two have read the same, or both have failed, the first one not finally. -/
inductive SameReading : Except Failure α → Option α → Prop where
  /-- Both have read `a`. -/
  | read (a : α) : SameReading (.ok a) (some a)
  /-- Both have failed. -/
  | failed (trace : List Remark) : SameReading (.error (.recoverable trace)) none

namespace SameReading

variable {x : Except Failure α} {y : Option α}

/-- The two cases of an agreement, with the readings as equations. -/
theorem elim (h : SameReading x y) :
    (∃ a, x = .ok a ∧ y = some a) ∨ ∃ trace, x = .error (.recoverable trace) ∧ y = none := by
  cases h with
  | read a => exact .inl ⟨a, rfl, rfl⟩
  | failed trace => exact .inr ⟨trace, rfl, rfl⟩

/-- Where the reader has read a value, the tracer has read it too. -/
theorem eq_ok {a : α} (h : SameReading x (some a)) : x = .ok a := by
  cases h
  rfl

/-- Where the reader has failed, the tracer has failed, but not finally. -/
theorem eq_error (h : SameReading x none) : ∃ trace, x = .error (.recoverable trace) := by
  cases h with
  | failed trace => exact ⟨trace, rfl⟩

/-- Readings that agree still agree after a next step, if the step agrees for every value read. -/
theorem bind {f : α → Except Failure β} {g : α → Option β} (h : SameReading x y)
    (hf : ∀ a, SameReading (f a) (g a)) : SameReading (x >>= f) (y >>= g) := by
  cases h with
  | read a => exact hf a
  | failed trace => exact .failed trace

theorem map (f : α → β) (h : SameReading x y) : SameReading (x.map f) (y.map f) := by
  cases h with
  | read a => exact .read (f a)
  | failed trace => exact .failed trace

/-- A remark is made about failures only and does not make them final. -/
theorem note (remark : Remark) (h : SameReading x y) :
    SameReading (x.mapError (.note remark)) y := by
  cases h with
  | read a => exact .read a
  | failed trace => exact .failed (trace ++ [remark])

/-- A complaint stands where there is no value, and it is not final. -/
theorem orComplain (complaint : Complaint) (cs : List Char) (y : Option α) :
    SameReading (Tracer.orComplain complaint cs y) y := by
  cases y with
  | none => exact .failed _
  | some a => exact .read a

end SameReading

/-- The tracer reads what the reader reads, and where the reader fails it fails, but not finally. -/
def Traces (t : Tracer α) (p : Reader α) : Prop :=
  ∀ cs, SameReading (t cs) (p cs)

/-- One alternative after the other reads what the reader reads, whatever has failed before. -/
def Alternatives (ts : List (Tracer α)) (p : Reader α) : Prop :=
  ∀ cs trace, SameReading (Tracer.tryEach cs trace ts) (p cs)

namespace Traces

variable {t : Tracer α} {p : Reader α}

/-- A reader that is made to complain still reads what it read. -/
theorem ofReader (complaint : Complaint) (p : Reader α) :
    Traces (Tracer.ofReader complaint p) p := fun cs =>
  .orComplain complaint cs (p cs)

theorem map (f : α → β) (h : Traces t p) : Traces (t.map f) (p.map f) := fun cs =>
  (h cs).map _

/-- Layout around a part is skipped by both. -/
theorem padded (h : Traces t p) : Traces t.padded p.padded := fun cs =>
  (h (Text.skipLayout cs)).map _

/-- A label changes what is said of a failure, not what is read. -/
theorem labelled (what : String) (h : Traces t p) : Traces (t.labelled what) p := fun cs =>
  (h cs).note _

/-- An optional part never fails. -/
theorem exists_optional (h : Traces t p) (cs : List Char) :
    ∃ r, t.optional cs = .ok r ∧ p.optional cs = some r := by
  rw [Tracer.optional, Reader.optional]
  -- the part is read by both or left unread by both
  rcases (h cs).elim with ⟨⟨a, rest⟩, ht, hp⟩ | ⟨trace, ht, hp⟩
  · rw [ht, hp]
    exact ⟨_, rfl, rfl⟩
  · rw [ht, hp]
    exact ⟨_, rfl, rfl⟩

/-- Where the reader leaves an optional part unread, the tracer does so too, since no failure of the
part is final. -/
theorem optional (h : Traces t p) : Traces t.optional p.optional := by
  intro cs
  obtain ⟨r, ht, hp⟩ := h.exists_optional cs
  rw [ht, hp]
  exact .read r

/-- Lists go on alike, since both stop before the first item that is not announced or not read. -/
theorem further {separator : Tracer Unit} {comma : Reader Unit} (hcomma : Traces separator comma)
    (h : Traces t p) (cs : List Char) :
    Tracer.further separator t cs = .ok (Reader.further comma p cs) := by
  have hnext (cs : List Char) : SameReading (Tracer.announced separator t cs)
      ((comma cs).bind fun (_, rest) => p rest) :=
    (hcomma cs).bind fun (_, rest) => h rest
  -- along the recursion of the reader: the next item is missing, is read, or reads nothing
  fun_induction Reader.further comma p cs with
  | case1 cs hnone =>
    obtain ⟨trace, ht⟩ := (hnone ▸ hnext cs).eq_error
    rw [Tracer.further, Tracer.optional, ht]
  | case2 cs a rest hsome hlt more rest' hmore ih =>
    have ht := (hsome ▸ hnext cs).eq_ok
    rw [hmore] at ih
    simp only [Tracer.further, Tracer.optional, ht, if_pos hlt, ih]
    rfl
  | case3 cs a rest hsome hle =>
    have ht := (hsome ▸ hnext cs).eq_ok
    rw [Tracer.further, Tracer.optional, ht]
    exact if_neg hle

/-- A list is read alike: its first item must be there, and the further ones never fail. -/
theorem separated {separator : Tracer Unit} {comma : Reader Unit} (hcomma : Traces separator comma)
    (h : Traces t p) : Traces (Tracer.separated separator t) (Reader.separated comma p) := by
  intro cs
  refine (h cs).bind fun (a, rest) => ?_
  -- the further items never fail, so only the first one decides
  show SameReading (Tracer.further separator t rest >>= fun (more, rest) => .ok (a :: more, rest)) _
  rw [further hcomma h rest]
  exact .read _

end Traces

namespace Alternatives

variable {t : Tracer α} {ts : List (Tracer α)} {p q : Reader α}

/-- Without an alternative nothing is read. -/
theorem nil : Alternatives ([] : List (Tracer α)) fun _ => none := fun _ _ =>
  .failed _

/-- One more alternative is tried in front by both. -/
theorem cons (h : Traces t p) (hs : Alternatives ts q) :
    Alternatives (t :: ts) (p.orElse q) := by
  intro cs trace
  rw [Tracer.tryEach, Reader.orElse]
  -- the trace of an alternative that failed replaces the one before
  rcases (h cs).elim with ⟨r, ht, hp⟩ | ⟨trace', ht, hp⟩
  · rw [ht, hp]
    exact .read r
  · rw [ht, hp]
    exact hs cs trace'

/-- The last alternative needs no reader after it. -/
theorem last (h : Traces t p) : Alternatives [t] p := by
  intro cs trace
  have hlast := cons h nil cs trace
  rwa [Reader.orElse, Option.or_none] at hlast

/-- A choice starts with an empty trace and reads what its alternatives read in turn. -/
theorem traces (h : Alternatives ts p) : Traces (Tracer.firstOf ts) p := fun cs =>
  h cs []

end Alternatives

/-! ### What a tracer blames -/

/-- If the tracer has failed, then `label` is the first label of its trace. -/
def Blames (label : Option Remark) (x : Except Failure α) : Prop :=
  ∀ failure, x = .error failure → failure.label? = label

namespace Blames

variable {label : Option Remark} {x : Except Failure α}

/-- What has not failed has nothing to blame, so anything can be said of it. -/
theorem ok (label : Option Remark) (a : α) : Blames label (.ok a) := by
  rintro failure ⟨⟩

/-- A sequence blames the label if whichever step fails blames it. -/
theorem bind {f : α → Except Failure β} (h : Blames label x) (hf : ∀ a, Blames label (f a)) :
    Blames label (x >>= f) := by
  intro failure hfailure
  rcases bind_eq_error_iff.1 hfailure with hx | ⟨a, -, ha⟩
  · exact h failure hx
  · exact hf a failure ha

/-- A value that is changed after it was read fails as before. -/
theorem map (f : α → β) (h : Blames label x) : Blames label (x.map f) := by
  intro failure hfailure
  cases x with
  | error inner =>
    cases hfailure
    exact h _ rfl
  | ok a => cases hfailure

/-- A complaint that is no label blames nothing. -/
theorem orComplain {complaint : Complaint} {cs : List Char}
    (hcomplaint : Remark.isLabel ⟨complaint, cs⟩ = false) (y : Option α) :
    Blames none (Tracer.orComplain complaint cs y) := by
  cases y with
  | some a => exact ok none a
  | none =>
    rintro failure ⟨⟩
    exact List.find?_singleton.trans (if_neg (by simp [hcomplaint]))

/-- A part that blames nothing is blamed by its label. -/
theorem labelled {t : Tracer α} {cs : List Char} (h : Blames none (t cs)) (what : String) :
    Blames (some ⟨.label what, cs⟩) (t.labelled what cs) := by
  intro failure hfailure
  rw [Tracer.labelled] at hfailure
  cases ht : t cs with
  | ok a =>
    rw [ht] at hfailure
    cases hfailure
  | error inner =>
    rw [ht] at hfailure
    cases hfailure
    -- the part has no label in its trace, so the one that is added is the first
    rw [Failure.label?_note, h inner ht]
    rfl

/-- An optional part has no failure that could blame anything. -/
theorem optional {t : Tracer α} {p : Reader α} (h : Traces t p) (label : Option Remark)
    (cs : List Char) : Blames label (t.optional cs) := by
  obtain ⟨r, ht, -⟩ := h.exists_optional cs
  rw [ht]
  exact ok label r

end Blames

/-- A choice that has failed keeps the trace of its last alternative and nothing of the others. -/
theorem eq_error_of_tryEach {ts : List (Tracer α)} {t : Tracer α} {cs : List Char}
    {before trace : List Remark}
    (h : Tracer.tryEach cs before (ts ++ [t]) = .error (.recoverable trace)) :
    ∃ inner, t cs = .error (.recoverable inner) ∧ trace = inner ++ [⟨.rule .choice, cs⟩] := by
  -- what has failed before is generalised, since each alternative replaces it
  induction ts generalizing before with
  | nil =>
    rw [List.nil_append, Tracer.tryEach] at h
    split at h
    · cases h
    · next inner ht =>
      cases h
      exact ⟨inner, ht, rfl⟩
    · cases h
  | cons t' ts ih =>
    rw [List.cons_append, Tracer.tryEach] at h
    split at h
    · cases h
    · exact ih h
    · cases h

/-- A choice blames what its last alternative blames, since it keeps no other trace. -/
theorem Blames.firstOf {ts : List (Tracer α)} {t : Tracer α} {p : Reader α} {label : Option Remark}
    {cs : List Char} (h : Traces (Tracer.firstOf ts) p) (hts : ts.getLast? = some t)
    (hlast : Blames label (t cs)) : Blames label (Tracer.firstOf ts cs) := by
  obtain ⟨ts, rfl⟩ := List.getLast?_eq_some_iff.1 hts
  intro failure hfailure
  rcases (h cs).elim with ⟨r, ht, -⟩ | ⟨trace, ht, -⟩
  · rw [ht] at hfailure
    cases hfailure
  · obtain ⟨inner, hinner, rfl⟩ := eq_error_of_tryEach ht
    rw [ht] at hfailure
    cases hfailure
    -- the remark of the choice itself stands after the trace and is no label
    have hlabel := Failure.label?_note ⟨.rule .choice, cs⟩ (.recoverable inner)
    rw [hlast _ hinner] at hlabel
    exact hlabel.trans Option.or_none

/-- The error that is shown for a failure with a label. -/
theorem ParseError.ofFailure_eq {failure : Failure} {what : String} {cs : List Char}
    (h : failure.label? = some ⟨.label what, cs⟩) (whole : List Char) :
    ParseError.ofFailure whole failure = .expected what whole cs := by
  rw [ParseError.ofFailure, h]
  rfl

/-- If a part that blames nothing fails, then the error that is shown says what it was to be. -/
theorem Traces.mapError_labelled {t : Tracer α} {p : Reader α} (h : Traces t p) {cs : List Char}
    (ht : Blames none (t cs)) (what : String) (whole : List Char) :
    (t.labelled what cs).mapError (.ofFailure whole) = p.require what whole cs := by
  rw [Reader.require]
  rcases (h.labelled what cs).elim with ⟨r, hread, hp⟩ | ⟨trace, hfailed, hp⟩
  · rw [hread, hp]
    rfl
  · rw [hp, hfailed, Except.mapError, ParseError.ofFailure_eq (ht.labelled what _ hfailed)]

end FiniteDomain
