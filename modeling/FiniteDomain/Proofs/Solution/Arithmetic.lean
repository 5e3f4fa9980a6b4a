import FiniteDomain.Proofs.Domain.Bijection
import FiniteDomain.Proofs.Search.Checked
import FiniteDomain.Solution.Snapshot

/-!
# Arithmetic never overflows

From the construction of a network to the reading of a solution, no sum and no difference of words
leaves the word: with checked arithmetic every step ends as it does without. The offset of a term is
accepted exactly where that is so. It is checked at the two ends of a domain, and keys between the
ends lie between theirs.

## Main definitions

* `Word.Fits`: an integer is the value of a word.
* `Model.Countable`: the domain texts of a model can be counted.
* `Snapshot.extractChecked`: the reading of a solution with checked arithmetic.

## Main results

* `Snapshot.extractChecked_eq`: checked reading is reading.
* `Network.fits_of_side`, `Network.not_fits_of_side`: when the offset of a term is accepted.
* `Network.arithmetic_exact`: the arithmetic of a solve is that of unbounded integers.
-/

namespace FiniteDomain

/-- The integer is the value of a word. -/
def Word.Fits (n : Int) : Prop :=
  ∃ w : Int64, w.toInt = n

/-! ### Reading solutions -/

/-- The value at a position, or an error that names the position and the domain. -/
def Domain.valueAtChecked (d : Domain) (position : Int64) : Except Fault Value := do
  match ← d.valueChecked position with
  | some value => return value
  | none => throw (.failed (.unmappable (Decimal.ofInt64 position) d.render))

theorem Domain.valueAtChecked_eq {d : Domain} (hd : d.Proper) (p : Int64) :
    d.valueAtChecked p = unchecked (d.valueAt p) := by
  rw [valueAtChecked, valueAt, valueChecked_eq hd]
  cases d.value? p <;> rfl

namespace Snapshot

/-- Adds the value that an assignment gives to an unknown. -/
def addUnknownChecked (a : Assignment) (s : Snapshot) (unknown : Unknown × Nat) :
    Except Fault Snapshot :=
  match a.get? unknown.2 with
  | none => .error (.failed (.unassigned unknown.1.name))
  | some position => do
    let value ← unknown.1.domain.valueAtChecked position
    return s.add unknown.1.key value

/-- Reads an assignment of all unknowns of a network back. -/
def extractChecked (net : Network) (a : Assignment) : Except Fault Snapshot :=
  net.unknowns.toList.zipIdx.foldlM (addUnknownChecked a) empty

/-- Checked reading is reading, whatever the assignment. -/
theorem extractChecked_eq {net : Network} (hnet : net.Sound) (a : Assignment) :
    extractChecked net a = unchecked (extract net a) := by
  refine foldlM_mapError (P := fun _ => True) ?_ (fun _ _ _ _ _ => trivial) trivial
  rintro s ⟨u, n⟩ hu -
  have hproper := hnet.proper u (Array.mem_toList_iff.1 (List.fst_mem_of_mem_zipIdx hu))
  unfold addUnknownChecked addUnknown
  cases a.get? n with
  | none => rfl
  | some p =>
    dsimp only
    rw [Domain.valueAtChecked_eq hproper]
    cases u.domain.valueAt p <;> rfl

end Snapshot

/-! ### The domains of a model -/

theorem Text.length_trim_le (text : String) : (Text.trim text).length ≤ text.length := by
  have hstart : (Text.trimStart text.toList).length ≤ text.toList.length :=
    (List.dropWhile_sublist _).length_le
  have hend : (Text.trimEnd (Text.trimStart text.toList)).length ≤
      (Text.trimStart text.toList).length := by
    rw [Text.trimEnd, List.length_reverse]
    exact Nat.le_trans (List.dropWhile_sublist _).length_le (Nat.le_of_eq List.length_reverse)
  rw [Text.trim, String.length_ofList, ← String.length_toList]
  exact Nat.le_trans hend hstart

/-- The domain texts of a model can be counted. -/
structure Model.Countable (m : Model) : Prop where
  /-- Those of unknowns. -/
  declarations : ∀ d ∈ m.declarations, Text.Countable d.domain
  /-- Those of shared domains. -/
  context : m.context.Countable

/-- The domains of a model with countable texts are regular. -/
theorem Model.Countable.regular {m : Model} (hm : m.Countable) {d : Domain}
    (hd : d ∈ m.directory.domains) : d.Regular := by
  obtain ⟨declaration, hmem, hdomain⟩ := List.mem_filterMap.1 hd
  obtain ⟨tree, hparse, heval⟩ :=
    Resolver.evaluate_eq_ok_iff.1 (Model.domain?_eq_some_iff.1 hdomain)
  have htext : Text.Countable (Text.trim declaration.domain) :=
    Nat.lt_of_le_of_lt (Text.length_trim_le _) (hm.declarations declaration hmem)
  exact Domain.regular_of_evaluate hm.context htext hparse heval

/-! ### Offsets of terms -/

/-- The offset of a term is the word of what its adjustment adds, if that is one. -/
theorem offset_of_exactOffset? {t : Term} {offset : Int64}
    (h : t.exactOffset? = some offset.toInt) : t.offset = .ok offset := by
  -- the offset is computed as a word and as an integer by the same cases
  unfold Term.exactOffset? at h
  unfold Term.offset
  rcases t with ⟨operand, _ | ⟨sign, amount⟩⟩
  · have hzero : (0 : Int64).toInt = offset.toInt := Option.some.inj h
    rw [Int64.toInt_inj.1 hzero]
  · cases amount with
    | counter name => cases sign <;> cases h
    | literal k =>
      cases sign with
      | plus =>
        have hplus : k.toInt = offset.toInt := Option.some.inj h
        rw [Int64.toInt_inj.1 hplus]
        rfl
      | minus =>
        have hminus : offset.toInt = -k.toInt := (Option.some.inj h).symm
        simp only [Adjustment.offset, Word.negExact?_eq_some_iff.2 hminus]

namespace Network

variable {m : Model} {net stage : Network}

/-- A side that is accepted has an offset that fits the key of every position. -/
theorem fits_of_side (hproper : ∀ d ∈ stage.directory.domains, d.Proper) {t : Term} {n : Nat}
    {offset : Int64} {d : Domain} (h : stage.side t = .ok (.unknown n offset d)) {v : Int64}
    (hv : v ∈ d.positions) :
    (d.key v).toInt = d.exactKey v ∧ Word.Fits (d.exactKey v + offset.toInt) := by
  have hrefers := refersTo_of_side h
  have hd := hproper d (List.mem_of_getElem? hrefers.domain)
  exact ⟨Domain.toInt_key hd hv, _, Domain.toInt_key_add hd hrefers.fits hv⟩

/-- A side that is resolved but not accepted has no offset that is a word, or one that does not fit
the key of some position. -/
theorem not_fits_of_side {t : Term} {r : Reference} {n : Nat} {u : Unknown} {error : SolveError}
    (hr : t.operand = .reference r) (hresolve : stage.resolve r = .ok (n, u))
    (hregular : u.domain.Regular) (h : stage.side t = .error error) :
    (∀ offset, t.exactOffset? = some offset → ¬ Word.Fits offset) ∨
      ∃ offset, t.exactOffset? = some offset ∧ ∃ v ∈ u.domain.positions,
        ¬ Word.Fits (u.domain.exactKey v + offset) := by
  by_cases hoffset : ∃ offset : Int64, t.exactOffset? = some offset.toInt
  · right
    obtain ⟨offset, hoffset⟩ := hoffset
    refine ⟨offset.toInt, hoffset, ?_⟩
    have hoverflows : overflows u.domain offset = true := by
      by_contra hfits
      rw [side, hr] at h
      simp [hresolve, offset_of_exactOffset? hoffset, hfits, bind, Except.bind, pure,
        Except.pure] at h
    -- one of the two ends does not fit, and both are positions
    have hone : 1 ≤ u.domain.sizeWord := by
      rw [Word.one_le_iff, hregular.toInt_sizeWord]
      exact Int.ofNat_le.2 hregular.size_pos
    have hends : ∀ v ∈ u.domain.positions,
        (Word.addExact? (u.domain.key v) offset).isNone = true →
          ¬ Word.Fits (u.domain.exactKey v + offset.toInt) := by
      rintro v hv hnone ⟨w, hw⟩
      rw [← Domain.toInt_key hregular.proper hv, ← Word.addExact?_eq_some_iff] at hw
      rw [hw] at hnone
      cases hnone
    rw [overflows, Bool.or_eq_true] at hoverflows
    rcases hoverflows with hleast | hgreatest
    · have hmem := Domain.mem_positions.2 ⟨Int64.le_refl 1, hone⟩
      exact ⟨1, hmem, hends 1 hmem hleast⟩
    · have hmem := Domain.mem_positions.2 ⟨hone, Int64.le_refl u.domain.sizeWord⟩
      exact ⟨_, hmem, hends _ hmem hgreatest⟩
  · left
    rintro offset hsome ⟨w, rfl⟩
    exact hoffset ⟨w, hsome⟩

/-- The arithmetic of a solve is that of unbounded integers. With checked sums and differences a
network that can be built is built alike, every step of a search on it, with or without a limit,
ends alike, and so does the reading of an assignment.

The last two parts are about the sides of relations that are resolved while the network is built.
Construction never changes the directory, so they are stated for all networks with this one. A side
is accepted only if the sum of its offset and the key of each position fits the word. A reference to
an unknown is refused as unsupported only if its offset is no word or the sum does not fit for some
position. -/
theorem arithmetic_exact (h : build m = .ok net) :
    buildChecked m = .ok net ∧
    (∀ limit s, Search.Reachable net limit s →
      Search.stepChecked net limit s = .ok (Search.step net limit s)) ∧
    (∀ a, Snapshot.extractChecked net a = unchecked (Snapshot.extract net a)) ∧
    (∀ (stage : Network) (t : Term) (n : Nat) (offset : Int64) (d : Domain),
      stage.directory = net.directory → stage.side t = .ok (.unknown n offset d) →
      ∀ v, 1 ≤ v ∧ v ≤ d.sizeWord →
        (d.key v).toInt = d.exactKey v ∧ Word.Fits (d.exactKey v + offset.toInt)) ∧
    (m.Countable → ∀ (stage : Network) (t : Term) (r : Reference) (n : Nat) (u : Unknown)
      (cause : Unsupported), stage.directory = net.directory →
      t.operand = .reference r → stage.resolve r = .ok (n, u) →
      stage.side t = .error (.unsupported cause) →
        (∀ offset, t.exactOffset? = some offset → ¬ Word.Fits offset) ∨
          ∃ offset, t.exactOffset? = some offset ∧
            ∃ v, (1 ≤ v ∧ v ≤ u.domain.sizeWord) ∧
              ¬ Word.Fits (u.domain.exactKey v + offset)) := by
  have hfitting := fitting_of_build h
  have hdirectory := (build_eq_ok h).2.1
  -- construction, search, reading, and the sides that are accepted and refused
  refine ⟨?_, ?_, ?_, ?_, ?_⟩
  · rw [buildChecked_eq, h]
    rfl
  · intro limit s hs
    exact Search.stepChecked_eq hfitting hs.within
  · exact Snapshot.extractChecked_eq hfitting.sound
  · intro stage t n offset d hdir hside v hv
    refine fits_of_side ?_ hside (Domain.mem_positions.2 hv)
    rw [hdir]
    intro d' hd'
    obtain ⟨u, hu, rfl⟩ := List.mem_map.1 hd'
    exact hfitting.sound.proper u (Array.mem_toList_iff.1 hu)
  · intro hm stage t r n u cause hdir hr hresolve hside
    -- the domain of the side is one of the model, where both ends are positions
    have hdomain : u.domain ∈ m.directory.domains := by
      obtain ⟨key, -, -, hu⟩ := resolve_eq_ok hresolve
      rw [← hdirectory, ← hdir]
      exact List.mem_map.2 ⟨u, Array.mem_toList_iff.2 (Array.mem_of_getElem? hu), rfl⟩
    simpa only [Domain.mem_positions] using
      not_fits_of_side hr hresolve (hm.regular hdomain) hside

/-- Two numbers at the upper end of the word, compared after the larger part of it is subtracted. -/
def edgeModel : Model where
  name := "edge"
  vars := [.singleton ⟨"x", "9223372036854775806..9223372036854775807"⟩,
    .singleton ⟨"y", "1..2"⟩]
  sharedDomains := []
  bundles := []
  tables := []
  constraints := [.expression "shifted" "x - 9223372036854775805 = y",
    .expression "top" "$x = 9223372036854775807"]

/-- The numbers of `x` in `edgeModel`. -/
def edgeDomain : Domain :=
  .intRange 9223372036854775806 9223372036854775807

/-- The number of `x` with an amount added or subtracted. -/
def edgeTerm (sign : Sign) (amount : Int64) : Term :=
  ⟨.reference (.singleton "x"), some ⟨sign, .literal amount⟩⟩

/-- The network of `edgeModel` is built alike with checked arithmetic. The larger part of `x` can be
subtracted, since the differences fit. Not even 1 can be added: there is a sum that does not fit. -/
theorem arithmetic_exact_edgeModel :
    ∃ net, build edgeModel = .ok net ∧ buildChecked edgeModel = .ok net ∧
      (net.side (edgeTerm .minus 9223372036854775805) =
          .ok (.unknown 0 (-9223372036854775805) edgeDomain) ∧
        ∀ v, 1 ≤ v ∧ v ≤ edgeDomain.sizeWord →
          (edgeDomain.key v).toInt = edgeDomain.exactKey v ∧
            Word.Fits (edgeDomain.exactKey v - 9223372036854775805)) ∧
      edgeModel.Countable ∧
      (∃ cause, net.side (edgeTerm .plus 1) = .error (.unsupported cause)) ∧
        ∃ v, (1 ≤ v ∧ v ≤ edgeDomain.sizeWord) ∧ ¬ Word.Fits (edgeDomain.exactKey v + 1) := by
  -- what both sides resolve to is computed in the network
  have hresolved : (build edgeModel).toOption.map (fun net =>
      ((net.resolve (.singleton "x")).map fun r => (r.1, r.2.domain),
        net.side (edgeTerm .minus 9223372036854775805), net.side (edgeTerm .plus 1))) =
      some (.ok (0, edgeDomain), .ok (.unknown 0 (-9223372036854775805) edgeDomain),
        .error (.unsupported (.overflow (edgeTerm .plus 1).render edgeDomain.render))) := by
    decide +kernel
  obtain ⟨net, hnet, hvalues⟩ := Option.map_eq_some_iff.1 hresolved
  simp only [Prod.mk.injEq] at hvalues
  obtain ⟨hresolve, haccepted, hrefused⟩ := hvalues
  obtain ⟨⟨n, u⟩, hresolve, hu⟩ := map_eq_ok_iff.1 hresolve
  have hdomain : u.domain = edgeDomain := (Prod.mk.inj hu).2
  have hcountable : edgeModel.Countable := by
    refine ⟨by decide +kernel, ?_⟩
    intro name text htext
    cases htext
  obtain ⟨hchecked, -, -, hfits, hunfit⟩ := arithmetic_exact (toOption_eq_some_iff.1 hnet)
  refine ⟨net, toOption_eq_some_iff.1 hnet, hchecked, ⟨haccepted, ?_⟩, hcountable,
    ⟨_, hrefused⟩, ?_⟩
  · exact hfits net _ _ _ _ rfl haccepted
  · rcases hunfit hcountable net _ _ _ u _ rfl rfl hresolve hrefused with hno | ⟨_, ⟨⟩, hsum⟩
    · -- the amount is a word
      exact absurd ⟨1, rfl⟩ (hno 1 rfl)
    · rwa [hdomain] at hsum

end Network

end FiniteDomain
