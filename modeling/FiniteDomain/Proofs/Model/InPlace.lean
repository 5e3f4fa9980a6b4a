import FiniteDomain.Model.InPlace
import FiniteDomain.Proofs.Model.Rules

/-!
# Edits in place are made as a whole or not at all

A change of a stored model writes the model part by part, and a rejection keeps what was written.
Every edit makes its checks before its first write. So an accepted edit leaves the model that the
rules of editing say, and a rejected edit leaves the model as it was, whatever model it started
from.

A draft applies edits one after the other until the first rejection, which it reports.

## Main definitions

* `InPlace.Realizes`: a change in place does what a function says, as a whole or not at all.
* `Edit.Steps`: accepted edits, one after the other.

## Main results

* `InPlace.Realizes.check`, `InPlace.Realizes.guard`: checks come before writes.
* `Edit.realizes_perform`: an edit in place does what the edit says.
* `Edit.perform_or_reject`: the outcome of an edit in place, and of a draft.
-/

namespace FiniteDomain

namespace InPlace

variable {σ τ α β ρ : Type} {s : σ} {view : ρ → α × σ}

/-- From the stored value `s`, the change does what `result` says, as a whole or not at all. A
result `r` stands for the answer and the stored value `view r`; an error is the reason of a
rejection that leaves `s`. -/
def Realizes (change : InPlace σ α) (s : σ) (view : ρ → α × σ) (result : Except ModelError ρ) :
    Prop :=
  change.run s = match result with
    | .ok r => (.ok (view r).1, (view r).2)
    | .error error => (.error error, s)

/-- What a change does to the stored value does not depend on its answer. -/
theorem run_discard (change : InPlace σ α) (s : σ) :
    run (discard change) s = ((change.run s).1.map fun _ => (), (change.run s).2) := by
  unfold run ExceptT.run StateT.run
  simp only [discard, Functor.mapConst, Function.comp_def, ExceptT.map, ExceptT.mk, bind,
    StateT.bind]
  rcases change s with ⟨_ | _, s'⟩ <;> rfl

namespace Realizes

/-- The stored value is read. -/
theorem read {k : σ → InPlace σ α} {result : Except ModelError ρ}
    (h : Realizes (k s) s view result) : Realizes (get >>= k) s view result :=
  h

/-- A check comes before what is done if it succeeds. -/
theorem check {x : Except ModelError β} {k : β → InPlace σ α} {g : β → Except ModelError ρ}
    (h : ∀ b, Realizes (k b) s view (g b)) : Realizes (liftM x >>= k) s view (x >>= g) := by
  cases x with
  | error error => rfl
  | ok b => exact h b

/-- A condition of rejection is tested before what is done if it fails. -/
theorem guard {c : Prop} [Decidable c] {error : ModelError} {k : β → InPlace σ α}
    {change : InPlace σ α} {result : Except ModelError ρ}
    (h : ¬ c → Realizes change s view result) :
    Realizes (if c then throw error >>= k else change) s view
      (if c then .error error else result) := by
  by_cases hc : c
  · rw [if_pos hc, if_pos hc]
    rfl
  · rw [if_neg hc, if_neg hc]
    exact h hc

/-- The answer to a change is dropped. -/
theorem discard {change : InPlace σ α} {result : Except ModelError (α × σ)}
    (h : Realizes change s id result) :
    Realizes (Functor.discard change) s (Prod.mk ()) (result.map Prod.snd) := by
  unfold Realizes
  rw [run_discard, h]
  cases result <;> rfl

end Realizes

/-! ### Changes of one variable -/

/-- A variable that is of a kind is changed as what it is by this kind. -/
theorem realizes_onKind {kind : Kind} (part? : Variable → Option τ) (whole : τ → Variable)
    {name : String} {change : InPlace τ Unit} {t : τ} {result : Except ModelError τ}
    (hpart : part? (whole t) = some t) (h : Realizes change t (Prod.mk ()) result) :
    Realizes (onKind kind part? whole name change) (whole t) (Prod.mk ()) (result.map whole) := by
  have hrun : run (onKind kind part? whole name change) (whole t) =
      ((change.run t).1, whole (change.run t).2) := by
    simp only [run, onKind, ExceptT.run_mk, StateT.run, hpart]
  unfold Realizes
  rw [hrun, h]
  cases result <;> rfl

/-- The first variable of a name is changed where it stands, and only if its change is accepted. -/
theorem onFirst_eq {name : String} {change : InPlace Variable Unit}
    {f : Variable → Except ModelError Variable} (h : ∀ v, Realizes change v (Prod.mk ()) (f v))
    (vs : List Variable) :
    onFirst name change vs = match updateVariable name f vs with
      | .ok vs' => (.ok (), vs')
      | .error error => (.error error, vs) := by
  induction vs with
  | nil => rfl
  | cons v vs ih =>
    rw [onFirst, updateVariable]
    by_cases hv : v.name == name
    · rw [if_pos hv, if_pos hv, h v]
      cases f v <;> rfl
    · -- a variable of another name stays, whether the change further on is accepted or not
      rw [if_neg hv, if_neg hv, ih]
      cases updateVariable name f vs <;> rfl

/-- A change in place of the variable of a name is the change in the list of variables. -/
theorem realizes_onVariable {name : String} {change : InPlace Variable Unit}
    {f : Variable → Except ModelError Variable} (h : ∀ v, Realizes change v (Prod.mk ()) (f v))
    (m : Model) :
    Realizes (onVariable name change) m (Prod.mk ()) (do
      let vars ← updateVariable name f m.vars
      return { m with vars }) := by
  have hrun : run (onVariable name change) m =
      ((onFirst name change m.vars).1, { m with vars := (onFirst name change m.vars).2 }) :=
    rfl
  unfold Realizes
  rw [hrun, onFirst_eq h]
  cases updateVariable name f m.vars <;> rfl

/-- A change of an aggregate in place is refused for variables of other kinds. -/
theorem realizes_updateAggregate {name : String} {change : InPlace Aggregate Unit}
    {f : Aggregate → Except ModelError Aggregate} (h : ∀ a, Realizes change a (Prod.mk ()) (f a))
    (m : Model) :
    Realizes (onVariable name (onAggregate name change)) m (Prod.mk ())
      (m.updateAggregate name f) := by
  refine realizes_onVariable (fun v => ?_) m
  cases v with
  | singleton | bucket => rfl
  | aggregate a => exact realizes_onKind Variable.aggregate? .aggregate rfl (h a)

/-- A change of a bucket in place is refused for variables of other kinds. -/
theorem realizes_updateBucket {name : String} {change : InPlace Bucket Unit}
    {f : Bucket → Except ModelError Bucket} (h : ∀ b, Realizes change b (Prod.mk ()) (f b))
    (m : Model) :
    Realizes (onVariable name (onBucket name change)) m (Prod.mk ()) (do
      let vars ← updateVariable name (fun
        | .bucket b => (f b).map .bucket
        | _ => .error (.wrongKind name .bucket)) m.vars
      return { m with vars }) := by
  refine realizes_onVariable (fun v => ?_) m
  cases v with
  | singleton | aggregate => rfl
  | bucket b => exact realizes_onKind Variable.bucket? .bucket rfl (h b)

/-- Cutting first and growing after it changes the elements as doing both at once. -/
theorem realizes_resizeElements (a : Aggregate) (size : Nat) :
    Realizes (resizeElements size) a (Prod.mk ()) (a.resize size) := by
  refine .guard fun _ => ?_
  have hfresh : Aggregate.freshElements a.name (a.elements.take size).length size =
      Aggregate.freshElements a.name a.elements.length size := by
    rw [List.length_take]
    rcases Nat.le_total size a.elements.length with hle | hle
    · -- nothing is added where something is cut
      simp [Aggregate.freshElements, hle]
    · rw [Nat.min_eq_right hle]
  show (Except.ok (), { a with
    elements := a.elements.take size ++
      Aggregate.freshElements a.name (a.elements.take size).length size }) = _
  rw [hfresh]

/-- The index is checked before the element is changed. -/
theorem realizes_overrideElement (a : Aggregate) (index : Nat) (domain : String) :
    Realizes (overrideElement index domain) a (Prod.mk ()) (a.overrideDomain index domain) :=
  .read (.guard fun _ => rfl)

/-- The size is checked before it is stored. -/
theorem realizes_resizeCopies (b : Bucket) (size : UInt64) :
    Realizes (resizeCopies size) b (Prod.mk ()) (b.resize size) :=
  .guard fun _ => rfl

/-- A variable is renamed with everything that is named after it. -/
theorem realizes_rename (v : Variable) (name : String) :
    Realizes (rename name) v (Prod.mk ()) (.ok (v.rename name)) := by
  cases v <;> rfl

/-! ### Changes of a collection -/

/-- What is deleted is answered, and the others are stored. -/
theorem realizes_deleteFirst {items : Model → List α} {withItems : Model → List α → Model}
    {p : α → Bool} {missing : ModelError} (m : Model) :
    Realizes (deleteFirst items withItems p missing) m id
      ((takeFirst? p (items m)).elim (.error missing)
        fun found => .ok (found.1, withItems m found.2)) := by
  refine .read ?_
  cases takeFirst? p (items m) <;> rfl

end InPlace

open InPlace

/-! ### Edits -/

/-- An edit in place does what the edit says, as a whole or not at all. -/
theorem Edit.realizes_perform (e : Edit) (m : Model) :
    Realizes e.perform m (Prod.mk ()) (e.apply m) := by
  -- the checks of an edit are gone through in order; what is left after them only writes
  cases e with
  | addSingleton name domain =>
    exact .read (.check fun _ => .check fun _ => rfl)
  | addAggregate name size domain =>
    exact .read (.check fun _ => .check fun _ => .check fun _ => rfl)
  | addBundle name fields =>
    exact .check fun _ => .read (.guard fun _ => .check fun _ => rfl)
  | addBucket name bundle size =>
    exact .read (.check fun _ => .read (.guard fun _ => .check fun _ => rfl))
  | addSharedDomain name expression =>
    exact .check fun _ => .read (.guard fun _ => .check fun _ => rfl)
  | addTable table =>
    exact .check fun _ => .read (.guard fun _ => rfl)
  | addExpression expression =>
    exact .discard (.read (.check fun _ => rfl))
  | addAllDifferent aggregate =>
    exact .discard (.read (.check fun _ => rfl))
  | deleteVariable name =>
    rw [apply, Model.deleteVariable_eq]
    exact .discard (realizes_deleteFirst m)
  | deleteSharedDomain name =>
    rw [apply, Model.deleteSharedDomain_eq]
    exact .discard (realizes_deleteFirst m)
  | deleteConstraint name =>
    rw [apply, Model.deleteConstraint_eq]
    exact .discard (realizes_deleteFirst m)
  | renameVariable name newName =>
    exact .read (.check fun n => realizes_onVariable (fun v => realizes_rename v n) m)
  | resizeAggregate name size =>
    exact realizes_updateAggregate (fun a => realizes_resizeElements a size) m
  | resizeBucket name size =>
    exact realizes_updateBucket (fun b => realizes_resizeCopies b size) m
  | overrideDomain name index domain =>
    exact .check fun d => realizes_updateAggregate (fun a => realizes_overrideElement a index d) m

/-- An edit in place is accepted and leaves the model that the rules say, or it is rejected and
leaves the model as it was. -/
theorem Edit.run_perform (e : Edit) (m : Model) :
    (∃ m', e.perform.run m = (.ok (), m') ∧ e.Step m m') ∨
      ∃ error, e.perform.run m = (.error error, m) ∧ ∀ m', ¬ e.Step m m' := by
  have hrun := e.realizes_perform m
  cases happly : e.apply m with
  | ok m' =>
    rw [happly] at hrun
    exact .inl ⟨m', hrun, apply_eq_ok_iff.1 happly⟩
  | error error =>
    rw [happly] at hrun
    refine .inr ⟨error, hrun, fun m' hstep => ?_⟩
    rw [apply_eq_ok_iff.2 hstep] at happly
    exact nomatch happly

/-! ### Runs -/

/-- Edits that are accepted one after the other. -/
inductive Edit.Steps : Model → List Edit → Model → Prop where
  /-- No edit changes nothing. -/
  | nil {m : Model} : Steps m [] m
  /-- An edit is accepted, and the others are from the model it makes. -/
  | cons {m m₁ m' : Model} {e : Edit} {edits : List Edit} (hstep : e.Step m m₁)
    (hsteps : Steps m₁ edits m') : Steps m (e :: edits) m'

/-- A list of edits is accepted exactly when each step follows the rules. -/
theorem Edit.foldlM_apply_eq_ok_iff {edits : List Edit} {m m' : Model} :
    edits.foldlM Edit.apply m = .ok m' ↔ Steps m edits m' := by
  induction edits generalizing m with
  | nil =>
    constructor
    · rintro ⟨⟩
      exact .nil
    · rintro ⟨⟩
      rfl
  | cons e edits ih =>
    rw [List.foldlM_cons, bind_eq_ok_iff]
    constructor
    · rintro ⟨m₁, hm₁, hm'⟩
      exact .cons (apply_eq_ok_iff.1 hm₁) (ih.1 hm')
    · intro h
      cases h with
      | cons hstep hsteps => exact ⟨_, apply_eq_ok_iff.2 hstep, ih.2 hsteps⟩

namespace Draft

/-- After its first rejected edit a draft stays as it is. -/
theorem foldl_edit_of_rejection {d : Draft} {error : ModelError} (h : d.rejection = some error)
    (edits : List Edit) : edits.foldl edit d = d := by
  induction edits with
  | nil => rfl
  | cons e edits ih =>
    have hd : d.edit e = d := by
      rw [edit, h]
    rw [List.foldl_cons, hd, ih]

/-- A draft applies edits until the first rejection. -/
theorem build_foldl_edit (m : Model) (edits : List Edit) :
    (edits.foldl edit ⟨m, none⟩).build = edits.foldlM Edit.apply m := by
  induction edits generalizing m with
  | nil => rfl
  | cons e edits ih =>
    rw [List.foldl_cons, List.foldlM_cons]
    cases happly : e.apply m with
    | ok m' =>
      have hedit : edit ⟨m, none⟩ e = ⟨m', none⟩ := by
        simp only [edit, happly]
      rw [hedit]
      exact ih m'
    | error error =>
      have hedit : edit ⟨m, none⟩ e = ⟨m, some error⟩ := by
        simp only [edit, happly]
      rw [hedit, foldl_edit_of_rejection rfl]
      rfl

end Draft

/-- An edit of a stored model, whatever model it is, ends in one of two ways. It is accepted, and
the model is changed as the rules say: the one item that the edit names is added, taken out or
changed, and everything else stays as it is and where it is. Or it is rejected, and the model is as
it was.

A draft whose edits are all accepted is built to the model that they make in order. Otherwise it
reports the reason of the first rejected edit. -/
theorem Edit.perform_or_reject (m : Model) (e : Edit) (name : String) (calls : List Edit) :
    ((∃ m', e.perform.run m = (.ok (), m') ∧ e.Step m m') ∨
      ∃ error, e.perform.run m = (.error error, m) ∧ ∀ m', ¬ e.Step m m') ∧
    ((∃ m', Steps (.new name) calls m' ∧
        (calls.foldl Draft.edit (.new name)).build = .ok m') ∨
      ∃ before rejected after m₁ error, calls = before ++ rejected :: after ∧
        Steps (.new name) before m₁ ∧ rejected.perform.run m₁ = (.error error, m₁) ∧
        (calls.foldl Draft.edit (.new name)).build = .error error) := by
  refine ⟨e.run_perform m, ?_⟩
  have hbuild : (calls.foldl Draft.edit (.new name)).build = calls.foldlM apply (.new name) :=
    Draft.build_foldl_edit _ calls
  rw [hbuild]
  cases hrun : calls.foldlM apply (.new name) with
  | ok m' => exact .inl ⟨m', foldlM_apply_eq_ok_iff.1 hrun, rfl⟩
  | error error =>
    -- the run ends at its first rejected edit, which is rejected in place for the same reason
    obtain ⟨before, rejected, after, m₁, rfl, hbefore, hrejected⟩ := foldlM_eq_error_iff.1 hrun
    have hperform := rejected.realizes_perform m₁
    rw [hrejected] at hperform
    exact .inr ⟨before, rejected, after, m₁, error, rfl, foldlM_apply_eq_ok_iff.1 hbefore,
      hperform, rfl⟩

end FiniteDomain
