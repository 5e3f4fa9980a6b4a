import FiniteDomain.Proofs.Network.Declaration

/-!
# The network of a model

The network that is built from a model has the unknowns that the model describes, and its candidates
and constraints say about them what the constraints of the model say. This needs no validation: it
holds whenever the construction succeeds.

## Main definitions

* `Model.Solution`: a choice under which all constraints of a model are true.

## Main results

* `build_eq_ok`: what a network that was built is, in terms of its model.
* `build_meets_iff_satisfies`: the choices that the network allows are those that satisfy every
  constraint of the model.
-/

namespace FiniteDomain

/-- A choice for the unknowns of a model under which all its constraints are true. -/
structure Model.Solution (m : Model) (v : List Int64) : Prop where
  /-- The choice takes a position from the resolved domain of each unknown. -/
  admits : m.directory.Admits v
  /-- Each constraint is true. -/
  satisfies : ∀ c ∈ m.constraints, m.directory.Satisfies v m c

namespace Network

variable {m : Model} {net : Network}

/-- A network that was built is sound, has the directory of its model, and is met by the choices
that satisfy the constraints of the model. -/
theorem build_eq_ok (h : build m = .ok net) :
    net.Sound ∧ net.directory = m.directory ∧ ∀ v, m.directory.Admits v →
      (net.Meets v ↔ ∀ c ∈ m.constraints, m.directory.Satisfies v m c) := by
  rw [build, bind_eq_ok_iff] at h
  obtain ⟨b, hb, h⟩ := h
  obtain ⟨hsound, hdir, hmeets⟩ := declareAll_eq_ok hb
  have hrefines : b.network.Refines net fun v =>
      ∀ c ∈ m.constraints, m.directory.Satisfies v m c := by
    refine refines_foldlM (fun c v => m.directory.Satisfies v m c) ?_ hsound hdir h
    intro net₁ c net₂ hnet₁ hdir₁ h₁
    rw [← hdir₁]
    exact refines_addModelConstraint hnet₁ h₁
  refine ⟨hrefines.sound, hrefines.directory_eq.trans hdir, ?_⟩
  intro v hv
  -- before the first constraint every choice meets the network
  rw [hrefines.meets_iff (by rwa [hdir])]
  exact and_iff_right (hmeets v hv)

/-- A network that was built preserves the meaning of its model. It is well-formed, and a choice of
one position for each unknown takes candidates only, satisfies every constraint of the network, and
meets no false relation between constants, exactly when every constraint of the model is true under
the choice. -/
theorem build_meets_iff_satisfies (h : build m = .ok net) :
    net.WellFormed ∧ ∀ v, net.directory.Admits v →
      (net.Solves v ∧ net.contradiction = false ↔
        ∀ c ∈ m.constraints, net.directory.Satisfies v m c) := by
  obtain ⟨hsound, hdir, hmeets⟩ := build_eq_ok h
  refine ⟨hsound.wellFormed, ?_⟩
  intro v hv
  have hlength : v.length = net.unknowns.size := hv.length_eq.trans net.length_domains
  rw [hdir] at hv ⊢
  rw [← hmeets v hv]
  constructor
  · rintro ⟨hsolves, hflag⟩
    exact ⟨hsolves.agrees, hflag⟩
  · rintro ⟨hagrees, hflag⟩
    exact ⟨⟨hlength, hagrees⟩, hflag⟩

/-- Three numbers that are to differ and a color, with a relation of each kind: between two
unknowns, of one unknown with itself, with a constant on either side, and between constants. -/
def mixedModel : Model where
  name := "mixed"
  vars := [.aggregate ⟨"n", "1..3", [⟨"n1", none⟩, ⟨"n2", none⟩, ⟨"n3", some "2..4"⟩]⟩,
    .singleton ⟨"color", "\"red\", \"green\""⟩]
  sharedDomains := []
  bundles := []
  tables := []
  constraints := [.allDifferent "differ" "$n", .expression "low" "n[i] < n[3] + j | i, j in 2, i",
    .expression "own" "n[1] <= n[1] + 1", .expression "named" "$color <> \"red\"",
    .expression "positive" "1 <= n[2]", .expression "constant" "1 < 2"]

/-- The network of `mixedModel` allows a green color and the numbers 1, 2, 3, of which all its
constraints are true. It allows none of three other choices, each of which makes one constraint
false: two numbers that are the same, a first number above the third one, and a red color. -/
theorem build_meets_iff_satisfies_mixedModel :
    ∃ net, build mixedModel = .ok net ∧ net.WellFormed ∧
      (net.directory.Admits [2, 1, 2, 2] ∧ net.Solves [2, 1, 2, 2] ∧ net.contradiction = false ∧
        ∀ c ∈ mixedModel.constraints, net.directory.Satisfies [2, 1, 2, 2] mixedModel c) ∧
      ∀ v ∈ [[2, 1, 1, 2], [2, 3, 1, 1], [1, 1, 2, 2]],
        net.directory.Admits v ∧ ¬ (net.Solves v ∧ net.contradiction = false) ∧
          ∃ c ∈ mixedModel.constraints, ¬ net.directory.Satisfies v mixedModel c := by
  obtain ⟨net, h⟩ : ∃ net, build mixedModel = .ok net :=
    isSome_toOption_iff.1 (by decide +kernel)
  obtain ⟨hnet, hiff⟩ := build_meets_iff_satisfies h
  have hdir := (build_eq_ok h).2.1
  refine ⟨net, h, hnet, ?_⟩
  -- what the constraints say is computed from the directory of the model
  rw [hdir] at hiff ⊢
  have hadmits : mixedModel.directory.Admits [2, 1, 2, 2] := by decide +kernel
  have htrue : ∀ c ∈ mixedModel.constraints,
      mixedModel.directory.Satisfies [2, 1, 2, 2] mixedModel c := by decide +kernel
  have hfalse : ∀ v ∈ [[2, 1, 1, 2], [2, 3, 1, 1], [1, 1, 2, 2]],
      mixedModel.directory.Admits v ∧
        ∃ c ∈ mixedModel.constraints, ¬ mixedModel.directory.Satisfies v mixedModel c := by
    decide +kernel
  obtain ⟨hsolves, hflag⟩ := (hiff _ hadmits).2 htrue
  refine ⟨⟨hadmits, hsolves, hflag, htrue⟩, ?_⟩
  intro v hv
  obtain ⟨hv, c, hc, hrefuses⟩ := hfalse v hv
  exact ⟨hv, fun hmeets => hrefuses ((hiff v hv).1 hmeets c hc), c, hc, hrefuses⟩

end Network

end FiniteDomain
