import FiniteDomain.Proofs.Domain.Evaluation
import Mathlib.Data.Finset.Card
import Mathlib.Data.Finset.Filter

/-!
# Remembering resolved texts

A resolver is called on one text after the other. It answers each call as if it had resolved nothing
before, whatever the calls before it were and whether they failed, and what it remembers is one
entry for each trimmed text that was resolved.

## Main definitions

* `Resolver.call`, `Resolver.after`: one call, and the resolver that is left by a sequence of calls.
* `Resolver.resolved`: the trimmed texts of a sequence that evaluate.
* `Resolver.Remembers`: what a resolver holds after a sequence of calls.

## Main results

* `Resolver.Remembers.call`: one call.
* `Resolver.Remembers.after`: a sequence of calls.
* `Resolver.call_after_eq_evaluate`: every call is answered afresh, and the entries are counted.
-/

namespace FiniteDomain.Resolver

variable {context : Context} {r : Resolver} {before : List String}

/-- One call: its answer, and the resolver that is left. A failure leaves the resolver as it was. -/
def call (r : Resolver) (text : String) : Except SolveError Domain × Resolver :=
  match r.resolve text with
  | .ok (d, after) => (.ok d, after)
  | .error error => (.error error, r)

/-- The resolver that is left by calls on `texts`, one after the other. -/
def after (r : Resolver) (texts : List String) : Resolver :=
  texts.foldl (fun r text => (r.call text).2) r

/-- A remembered text is not evaluated again. -/
theorem call_of_lookup {text : String} {d : Domain}
    (h : r.cache.lookup (Text.trim text) = some d) : r.call text = (.ok d, r) := by
  simp [call, resolve, h]

/-- A new text that evaluates is remembered. -/
theorem call_of_ok {text : String} {d : Domain} (hnew : r.cache.lookup (Text.trim text) = none)
    (h : evaluate r.context (Text.trim text) = .ok d) :
    r.call text = (.ok d, { r with cache := (Text.trim text, d) :: r.cache }) := by
  simp [call, resolve, hnew, h]

/-- A failure is not remembered. -/
theorem call_of_error {text : String} {error : SolveError}
    (hnew : r.cache.lookup (Text.trim text) = none)
    (h : evaluate r.context (Text.trim text) = .error error) :
    r.call text = (.error error, r) := by
  simp [call, resolve, hnew, h]

/-- The different trimmed texts of a sequence that evaluate. -/
def resolved (context : Context) (texts : List String) : Finset String :=
  {text ∈ (texts.map Text.trim).toFinset | (evaluate context text).toOption.isSome}

theorem mem_resolved {texts : List String} {text : String} :
    text ∈ resolved context texts ↔
      text ∈ texts.map Text.trim ∧ ∃ d, evaluate context text = .ok d := by
  rw [resolved, Finset.mem_filter, List.mem_toFinset, isSome_toOption_iff]

/-- A text that is resolved counts once. -/
theorem resolved_concat_of_ok {text : String} {d : Domain}
    (h : evaluate context (Text.trim text) = .ok d) :
    resolved context (before ++ [text]) = insert (Text.trim text) (resolved context before) := by
  ext t
  simp only [mem_resolved, Finset.mem_insert, List.map_append, List.mem_append, List.map_cons,
    List.map_nil, List.mem_singleton]
  constructor
  · rintro ⟨hmem | rfl, heval⟩
    · exact .inr ⟨hmem, heval⟩
    · exact .inl rfl
  · rintro (rfl | ⟨hmem, heval⟩)
    · exact ⟨.inr rfl, d, h⟩
    · exact ⟨.inl hmem, heval⟩

/-- A text that fails does not count. -/
theorem resolved_concat_of_error {text : String} {error : SolveError}
    (h : evaluate context (Text.trim text) = .error error) :
    resolved context (before ++ [text]) = resolved context before := by
  ext t
  simp only [mem_resolved, List.map_append, List.mem_append, List.map_cons, List.map_nil,
    List.mem_singleton]
  constructor
  · rintro ⟨hmem | rfl, d, hd⟩
    · exact ⟨hmem, d, hd⟩
    · rw [h] at hd
      cases hd
  · rintro ⟨hmem, heval⟩
    exact ⟨.inl hmem, heval⟩

/-- What a resolver holds after calls on `texts`: what each remembered text evaluates to, and one
entry for each text that was resolved. -/
structure Remembers (r : Resolver) (context : Context) (texts : List String) : Prop where
  /-- The context stays. -/
  context_eq : r.context = context
  /-- What is remembered is what evaluation returns. -/
  faithful : r.Faithful
  /-- No text is remembered twice. -/
  nodup : (r.cache.map Prod.fst).Nodup
  /-- The texts remembered are those that were resolved. -/
  toFinset_eq : (r.cache.map Prod.fst).toFinset = resolved context texts

theorem remembers_new (context : Context) : (new context).Remembers context [] :=
  ⟨rfl, faithful_new context, List.nodup_nil, rfl⟩

/-- The number of entries is the number of texts that were resolved. -/
theorem Remembers.cached_eq (h : r.Remembers context before) :
    r.cached = (resolved context before).card := by
  rw [← h.toFinset_eq, List.toFinset_card_of_nodup h.nodup, List.length_map]
  rfl

/-- A text is remembered exactly when it has an entry. -/
theorem lookup_eq_none_iff {text : String} :
    r.cache.lookup text = none ↔ text ∉ r.cache.map Prod.fst := by
  rw [List.lookup_eq_none_iff, List.mem_map, not_exists]
  refine forall_congr' fun entry => ?_
  rw [bne_iff_ne, not_and]
  exact imp_congr_right fun _ => ne_comm

/-- A call is answered by evaluation, and the resolver that is left remembers one call more. -/
theorem Remembers.call (h : r.Remembers context before) (text : String) :
    (r.call text).1 = evaluate context (Text.trim text) ∧
      (r.call text).2.Remembers context (before ++ [text]) := by
  cases hlookup : r.cache.lookup (Text.trim text) with
  | some d =>
    have heval : evaluate context (Text.trim text) = .ok d := by
      rw [← h.context_eq]
      exact h.faithful _ _ hlookup
    -- a remembered text is one of those resolved before, so the count stays
    have hmem : Text.trim text ∈ resolved context before := by
      rw [← h.toFinset_eq, List.mem_toFinset]
      by_contra hnone
      rw [lookup_eq_none_iff.2 hnone] at hlookup
      cases hlookup
    rw [call_of_lookup hlookup]
    refine ⟨heval.symm, h.context_eq, h.faithful, h.nodup, ?_⟩
    rw [resolved_concat_of_ok heval, Finset.insert_eq_of_mem hmem]
    exact h.toFinset_eq
  | none =>
    cases heval : evaluate context (Text.trim text) with
    | ok d =>
      -- a new text is remembered and counted
      rw [call_of_ok hlookup (by rw [h.context_eq, heval])]
      refine ⟨rfl, h.context_eq, ?_, ?_, ?_⟩
      · have hresolve : r.resolve text =
            .ok (d, { r with cache := (Text.trim text, d) :: r.cache }) := by
          simp [resolve, hlookup, h.context_eq, heval]
        exact (resolve_eq_ok h.faithful hresolve).2.1
      · exact List.nodup_cons.2 ⟨lookup_eq_none_iff.1 hlookup, h.nodup⟩
      · rw [resolved_concat_of_ok heval, ← h.toFinset_eq]
        exact List.toFinset_cons
    | error error =>
      -- a failure is neither remembered nor counted
      rw [call_of_error hlookup (by rw [h.context_eq, heval])]
      refine ⟨rfl, h.context_eq, h.faithful, h.nodup, ?_⟩
      rw [resolved_concat_of_error heval]
      exact h.toFinset_eq

/-- After a sequence of calls there is one entry for each text that was resolved, in these calls or
before them. -/
theorem Remembers.after (h : r.Remembers context before) (texts : List String) :
    (r.after texts).Remembers context (before ++ texts) := by
  -- the calls made so far are carried along, so that the rest starts from any such resolver
  induction texts generalizing r before with
  | nil =>
    rw [List.append_nil]
    exact h
  | cons text texts ih =>
    have hrest := ih (h.call text).2
    rwa [List.append_assoc] at hrest

/-- Remembering does not show. After any sequence of calls of a new resolver, the next call returns
what reading and evaluating its trimmed text afresh returns, and the number of entries is the number
of different trimmed texts that the sequence has resolved. -/
theorem call_after_eq_evaluate (context : Context) (before : List String) :
    (∀ text, (((new context).after before).call text).1 =
        evaluate context (Text.trim text)) ∧
      ((new context).after before).cached = (resolved context before).card := by
  have h : ((new context).after before).Remembers context before :=
    (remembers_new context).after before
  exact ⟨fun text => (h.call text).1, h.cached_eq⟩

-- neither a text that differs in white space around it nor one that fails brings an entry
example : ((new ⟨fun _ => none, fun _ => none, fun _ => none⟩).after
    ["1..3", "9..1", " 1..3 ", "'a'..'c'", "9..1"]).cached = 2 := by
  decide +kernel

end FiniteDomain.Resolver
