import Mathlib.Data.List.Forall2

/-!
# Outcomes of partial computations

A computation in `Except` that ends well has ended well at each of its steps.

* `bind_eq_ok_iff`, `bind_eq_error_iff`: one step after another.
* `guard_eq_ok_iff`: a step after a check.
* `forall₂_of_mapM`: a list of results holds the result for each item.
* `exists_mapM_of_forall₂`: similar lists have similar lists of results.
* `foldlM_invariant`: what each step keeps holds after a run.
* `foldlM_error`: the error of a run is the error of one of its steps.
* `foldlM_eq_error_iff`: the error of a run is the error of its first step that fails.
* `exists_foldlM_eq_ok`: a run whose steps end well ends well.
* `foldlM_mapError`: a run whose steps end alike, but for the form of their errors, ends alike.
* `foldlM_map_state`: a function of the state that goes along with each step goes along with a run.
* `foldlM_eq_mapM`: steps that compute without looking at the state can compute first and act later.
-/

namespace FiniteDomain

variable {ε α β : Type}

/-- The result as an option is that of a computation that ends well. -/
theorem toOption_eq_some_iff {x : Except ε α} {a : α} : x.toOption = some a ↔ x = .ok a := by
  cases x with
  | error e => simp [Except.toOption]
  | ok b => simp [Except.toOption]

/-- Whether a computation ends well can be computed. -/
theorem isSome_toOption_iff {x : Except ε α} : x.toOption.isSome = true ↔ ∃ a, x = .ok a := by
  rw [Option.isSome_iff_exists]
  simp only [toOption_eq_some_iff]

/-- A computation ends with an error exactly when it does not end well. -/
theorem exists_eq_error_iff {x : Except ε α} : (∃ e, x = .error e) ↔ ¬ ∃ a, x = .ok a := by
  cases x with
  | error e => simp
  | ok a => simp

/-- A computation followed by another ends well exactly when both do. -/
theorem bind_eq_ok_iff {x : Except ε α} {f : α → Except ε β} {b : β} :
    (x >>= f) = .ok b ↔ ∃ a, x = .ok a ∧ f a = .ok b := by
  cases x with
  | error e => simp [bind, Except.bind]
  | ok a => simp [bind, Except.bind]

/-- A computation followed by another ends with an error exactly when one of them does. -/
theorem bind_eq_error_iff {x : Except ε α} {f : α → Except ε β} {e : ε} :
    (x >>= f) = .error e ↔ x = .error e ∨ ∃ a, x = .ok a ∧ f a = .error e := by
  cases x with
  | error e' => simp [bind, Except.bind]
  | ok a => simp [bind, Except.bind]

/-- A computation after a check ends well exactly when the check does not fail and it ends well. -/
theorem guard_eq_ok_iff {γ : Type} {c : Prop} [Decidable c] {e : ε} {f : γ → Except ε α}
    {x : Except ε α} {a : α} : (if c then throw e >>= f else x) = .ok a ↔ ¬ c ∧ x = .ok a := by
  by_cases hc : c
  · simp [hc, throw, throwThe, MonadExceptOf.throw, bind, Except.bind]
  · simp [hc]

/-- A changed result comes from a result. -/
theorem map_eq_ok_iff {x : Except ε α} {f : α → β} {b : β} :
    x.map f = .ok b ↔ ∃ a, x = .ok a ∧ f a = b := by
  cases x with
  | error e => simp [Except.map]
  | ok a => simp [Except.map]

/-- The results of a computation on each item of a list, in order. -/
theorem forall₂_of_mapM {f : α → Except ε β} {as : List α} {bs : List β}
    (h : as.mapM f = .ok bs) : List.Forall₂ (fun a b => f a = .ok b) as bs := by
  induction as generalizing bs with
  | nil =>
    obtain rfl : [] = bs := by simpa [pure, Except.pure] using h
    exact .nil
  | cons a as ih =>
    rw [List.mapM_cons, bind_eq_ok_iff] at h
    obtain ⟨b, hb, h⟩ := h
    rw [bind_eq_ok_iff] at h
    obtain ⟨bs', hbs, h⟩ := h
    cases h
    exact .cons hb (ih hbs)

/-- A computation that ends well on each item of a list ends well on the list. -/
theorem mapM_eq_ok {f : α → Except ε β} {g : α → β} {as : List α}
    (h : ∀ a ∈ as, f a = .ok (g a)) : as.mapM f = .ok (as.map g) := by
  induction as with
  | nil => rfl
  | cons a as ih =>
    rw [List.forall_mem_cons] at h
    rw [List.mapM_cons, h.1, ih h.2]
    rfl

/-- A computation ends well on a list exactly when it does on each item. -/
theorem exists_mapM_eq_ok_iff {f : α → Except ε β} {as : List α} :
    (∃ bs, as.mapM f = .ok bs) ↔ ∀ a ∈ as, ∃ b, f a = .ok b := by
  induction as with
  | nil => simp [pure, Except.pure]
  | cons a as ih =>
    rw [List.forall_mem_cons, ← ih]
    simp only [List.mapM_cons, bind_eq_ok_iff]
    constructor
    · rintro ⟨-, b, hb, bs, hbs, -⟩
      exact ⟨⟨b, hb⟩, bs, hbs⟩
    · rintro ⟨⟨b, hb⟩, bs, hbs⟩
      exact ⟨b :: bs, b, hb, bs, hbs, rfl⟩

/-- What is in one of the results is in the result for one of the items. -/
theorem mem_flatten_of_mapM {f : α → Except ε (List β)} {as : List α} {bss : List (List β)}
    (h : as.mapM f = .ok bss) {b : β} :
    b ∈ bss.flatten ↔ ∃ a ∈ as, ∃ bs, f a = .ok bs ∧ b ∈ bs := by
  have hall := forall₂_of_mapM h
  clear h
  induction hall with
  | nil => simp
  | @cons a bs as bss hbs _ ih => simp [ih, hbs]

/-- If a computation that ends well on an item ends in a similar way on every similar item, then it
does so on similar lists. -/
theorem exists_mapM_of_forall₂ {R : α → α → Prop} {S : β → β → Prop} {f : α → Except ε β}
    (hf : ∀ a a' b, R a a' → f a = .ok b → ∃ b', f a' = .ok b' ∧ S b b') {as as' : List α}
    (has : List.Forall₂ R as as') {bs : List β} (h : as.mapM f = .ok bs) :
    ∃ bs', as'.mapM f = .ok bs' ∧ List.Forall₂ S bs bs' := by
  induction has generalizing bs with
  | nil =>
    obtain rfl : [] = bs := by simpa [pure, Except.pure] using h
    exact ⟨[], rfl, .nil⟩
  | @cons a a' as as' ha _ ih =>
    rw [List.mapM_cons, bind_eq_ok_iff] at h
    obtain ⟨b, hb, h⟩ := h
    obtain ⟨bs₀, hbs, h⟩ := bind_eq_ok_iff.1 h
    cases h
    obtain ⟨b', hb', hrel⟩ := hf a a' b ha hb
    obtain ⟨bs', hbs', hrels⟩ := ih hbs
    refine ⟨b' :: bs', ?_, .cons hrel hrels⟩
    rw [List.mapM_cons, hb', hbs']
    rfl

/-- What each step keeps holds after a run. -/
theorem foldlM_invariant {f : β → α → Except ε β} {P : β → Prop}
    (hinv : ∀ b a b', P b → f b a = .ok b' → P b') {as : List α} {b b' : β} (hb : P b)
    (h : as.foldlM f b = .ok b') : P b' := by
  induction as generalizing b with
  | nil =>
    obtain rfl : b = b' := by simpa [pure, Except.pure] using h
    exact hb
  | cons a as ih =>
    rw [List.foldlM_cons, bind_eq_ok_iff] at h
    obtain ⟨b₁, h₁, h⟩ := h
    exact ih (hinv b a b₁ hb h₁) h

/-- The error of a run is the error of one of its steps. -/
theorem foldlM_error {f : β → α → Except ε β} {P : β → Prop} {Q : ε → Prop} {as : List α}
    (hstep : ∀ b, ∀ a ∈ as, P b → ∀ e, f b a = .error e → Q e)
    (hinv : ∀ b a b', P b → f b a = .ok b' → P b') {b : β} (hb : P b) {e : ε}
    (h : as.foldlM f b = .error e) : Q e := by
  induction as generalizing b with
  | nil => cases h
  | cons a as ih =>
    rw [List.foldlM_cons] at h
    cases hfirst : f b a with
    | error e' =>
      rw [hfirst] at h
      cases h
      exact hstep b a List.mem_cons_self hb _ hfirst
    | ok b' =>
      rw [hfirst] at h
      exact ih (fun b a ha => hstep b a (List.mem_cons_of_mem _ ha)) (hinv b a b' hb hfirst) h

/-- A run ends with an error exactly when a step does after the steps before it have ended well. -/
theorem foldlM_eq_error_iff {f : β → α → Except ε β} {as : List α} {b : β} {e : ε} :
    as.foldlM f b = .error e ↔
      ∃ before a after b', as = before ++ a :: after ∧ before.foldlM f b = .ok b' ∧
        f b' a = .error e := by
  induction as generalizing b with
  | nil => simp [pure, Except.pure]
  | cons a as ih =>
    rw [List.foldlM_cons, bind_eq_error_iff]
    constructor
    · rintro (ha | ⟨b₁, ha, h⟩)
      · exact ⟨[], a, as, b, rfl, rfl, ha⟩
      · obtain ⟨before, a', after, b', rfl, hbefore, ha'⟩ := ih.1 h
        refine ⟨a :: before, a', after, b', rfl, ?_, ha'⟩
        rw [List.foldlM_cons, bind_eq_ok_iff]
        exact ⟨b₁, ha, hbefore⟩
    · rintro ⟨before, a', after, b', has, hbefore, ha'⟩
      -- the step that fails is the first one or one of the others
      rcases before with - | ⟨a₁, before⟩
      · obtain ⟨rfl, rfl⟩ := List.cons.inj has
        obtain rfl : b = b' := by simpa [pure, Except.pure] using hbefore
        exact .inl ha'
      · obtain ⟨rfl, rfl⟩ := List.cons.inj has
        rw [List.foldlM_cons, bind_eq_ok_iff] at hbefore
        obtain ⟨b₁, ha, hbefore⟩ := hbefore
        exact .inr ⟨b₁, ha, ih.2 ⟨before, a', after, b', rfl, hbefore, ha'⟩⟩

/-- A run whose steps end well on all states with an invariant that they keep ends well. -/
theorem exists_foldlM_eq_ok {f : β → α → Except ε β} {P : β → Prop} {as : List α}
    (hstep : ∀ b, ∀ a ∈ as, P b → ∃ b', f b a = .ok b')
    (hinv : ∀ b a b', P b → f b a = .ok b' → P b') {b : β} (hb : P b) :
    ∃ b', as.foldlM f b = .ok b' := by
  cases h : as.foldlM f b with
  | ok b' => exact ⟨b', rfl⟩
  | error e =>
    refine (foldlM_error (Q := fun _ => False) ?_ hinv hb h).elim
    intro b a ha hb e' he'
    obtain ⟨b', hb'⟩ := hstep b a ha hb
    rw [hb'] at he'
    cases he'

/-- Steps that end alike on all states with an invariant that they keep make runs that end alike. -/
theorem foldlM_mapError {ε' : Type} {g : ε → ε'} {f : β → α → Except ε β}
    {f' : β → α → Except ε' β} {P : β → Prop} {as : List α}
    (hstep : ∀ b, ∀ a ∈ as, P b → f' b a = (f b a).mapError g)
    (hinv : ∀ b a b', P b → f b a = .ok b' → P b') {b : β} (hb : P b) :
    as.foldlM f' b = (as.foldlM f b).mapError g := by
  induction as generalizing b with
  | nil => rfl
  | cons a as ih =>
    rw [List.foldlM_cons, List.foldlM_cons, hstep b a List.mem_cons_self hb]
    cases h : f b a with
    | error e => rfl
    | ok b' =>
      exact ih (fun b a ha => hstep b a (List.mem_cons_of_mem _ ha)) (hinv b a b' hb h)

/-- A function of the state that goes along with each step goes along with a run. -/
theorem foldlM_map_state {γ : Type} {g : β → γ} {f : β → α → Except ε β} {f' : γ → α → Except ε γ}
    (hstep : ∀ b a, f' (g b) a = (f b a).map g) (as : List α) (b : β) :
    as.foldlM f' (g b) = (as.foldlM f b).map g := by
  induction as generalizing b with
  | nil => rfl
  | cons a as ih =>
    rw [List.foldlM_cons, List.foldlM_cons, hstep]
    cases f b a with
    | error e => rfl
    | ok b' => exact ih b'

/-- If each step computes something from its item alone, on all states with an invariant that the
steps keep, then everything can be computed first. -/
theorem foldlM_eq_mapM {γ : Type} {step : β → α → Except ε β} {compute : α → Except ε γ}
    {act : β → γ → β} {P : β → Prop} (hstep : ∀ b a, P b → step b a = (compute a).map (act b))
    (hkeep : ∀ b c, P b → P (act b c)) (as : List α) {b : β} (hb : P b) :
    as.foldlM step b = (as.mapM compute).map fun cs => cs.foldl act b := by
  induction as generalizing b with
  | nil => rfl
  | cons a as ih =>
    rw [List.foldlM_cons, List.mapM_cons, hstep b a hb]
    cases compute a with
    | error e => rfl
    | ok c =>
      show as.foldlM step (act b c) = ((as.mapM compute).bind fun cs => .ok (c :: cs)).map _
      rw [ih (hkeep b c hb)]
      cases as.mapM compute <;> rfl

end FiniteDomain
