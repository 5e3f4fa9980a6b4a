import FiniteDomain.Model.Validation
import FiniteDomain.Proofs.Domain.Caching
import FiniteDomain.Proofs.Expression.Rejection

/-!
# White space around domain texts

A domain text is read in two ways. Validation reads it as it stands, and the grammar allows layout
around the expression. A resolver trims the text first, which takes away all white space. So both
readings give the same expression exactly where the white space around the text is layout. Other
white space, such as a no-break space, is a fault for validation although the resolver reads the
text; the fault is found at the first such character.

## Main definitions

* `Text.leading`, `Text.trailing`: the white space around a text.
* `Text.LaidOut`: the white space around a text is layout.
* `PaddingFault`: the errors for white space around a text that is not layout.

## Main results

* `DomainExpr.parse_eq_ok_iff_laidOut`: reading a text and reading it trimmed.
* `DomainExpr.parse_eq_error_iff_paddingFault`: why a text is rejected whose trimmed form is read.
* `Model.parse_iff_trim_laidOut`: what validation and a resolver make of a domain text.
-/

namespace FiniteDomain

/-! ### The white space around a text -/

namespace Text

/-- The white space in front of a text. -/
def leading (text : String) : List Char :=
  text.toList.takeWhile isBlank

/-- The white space at the end of a text. All of a blank text stands in front. -/
def trailing (text : String) : List Char :=
  (trimStart text.toList).rtakeWhile isBlank

theorem isBlank_of_mem_leading {text : String} {c : Char} (h : c ∈ leading text) :
    isBlank c = true :=
  mem_takeWhile_imp h

theorem isBlank_of_mem_trailing {text : String} {c : Char} (h : c ∈ trailing text) :
    isBlank c = true :=
  List.mem_rtakeWhile_imp h

/-- A text is its leading white space and what trimming at the start leaves. -/
theorem leading_append_trimStart (text : String) :
    leading text ++ trimStart text.toList = text.toList :=
  List.takeWhile_append_dropWhile

/-- What is left after the leading white space is the trimmed text and the trailing white space. -/
theorem toList_trim_append_trailing (text : String) :
    (trim text).toList ++ trailing text = trimStart text.toList := by
  rw [trim, String.toList_ofList]
  exact List.rdropWhile_append_rtakeWhile

/-- A text is its trimmed form with the white space around it. -/
theorem toList_eq_leading_append (text : String) :
    text.toList = leading text ++ ((trim text).toList ++ trailing text) := by
  rw [toList_trim_append_trailing, leading_append_trimStart]

/-- The gaps around a word that starts and ends visibly are the white space around the text. -/
theorem leading_trailing_eq {text : String} {gap w gap' : List Char} (hgap : IsGap gap)
    (hstart : StartsVisibly w) (hend : EndsVisibly w) (hgap' : IsGap gap')
    (htext : text.toList = gap ++ (w ++ gap')) : leading text = gap ∧ trailing text = gap' := by
  have hrest : trimStart text.toList = w ++ gap' := by
    rw [htext, (hstart.append gap').trimStart_append hgap]
  have hfront := leading_append_trimStart text
  have hback := toList_trim_append_trailing text
  rw [hrest, htext] at hfront
  rw [trim, String.toList_ofList, hrest, trimEnd_append hend hgap'] at hback
  exact ⟨List.append_cancel_right hfront, List.append_cancel_left hback⟩

/-- The white space around a text is layout. -/
def LaidOut (text : String) : Prop :=
  IsGap (leading text ++ trailing text)

instance : DecidablePred LaidOut := fun text =>
  inferInstanceAs (Decidable (IsGap (leading text ++ trailing text)))

/-- A text is laid out when the white space at both of its ends is layout. -/
theorem laidOut_iff {text : String} :
    LaidOut text ↔ IsGap (leading text) ∧ IsGap (trailing text) :=
  List.forall_mem_append

end Text

/-! ### Texts that are read -/

/-- A text is read as an expression exactly when it is so without the white space around it, and
that white space is layout. -/
theorem DomainExpr.parse_eq_ok_iff_laidOut {text : String} {tree : DomainExpr} :
    DomainExpr.parse text = .ok tree ↔
      DomainExpr.parse (Text.trim text) = .ok tree ∧ Text.LaidOut text := by
  constructor
  · intro h
    obtain ⟨gap, w, gap', hgap, hw, hgap', htext⟩ := exists_domainWord h
    obtain ⟨hleading, htrailing⟩ :=
      Text.leading_trailing_eq hgap hw.startsVisibly hw.endsVisibly hgap' htext
    refine ⟨parse_trim h, ?_⟩
    rw [Text.laidOut_iff, hleading, htrailing]
    exact ⟨hgap, hgap'⟩
  · rintro ⟨h, hout⟩
    obtain ⟨hleading, htrailing⟩ := Text.laidOut_iff.1 hout
    obtain ⟨gap, w, gap', hgap, hw, hgap', htrim⟩ := exists_domainWord h
    have htext : text.toList =
        (Text.leading text ++ gap) ++ (w ++ (gap' ++ Text.trailing text)) := by
      rw [Text.toList_eq_leading_append text, htrim]
      simp
    rw [← text.ofList_toList, htext]
    exact hw.parse (hleading.append hgap) (hgap'.append htrailing)

/-! ### Texts that are read only when they are trimmed -/

/-- The errors for white space around a text that is not layout. They stand at its first character
that is not layout: in front, where the expression should start, or else at the end, where the text
should end. -/
inductive PaddingFault (text : String) : ParseError → Prop where
  /-- White space in front. -/
  | leading {gap rest : List Char} {c : Char} (hgap : IsGap gap) (hc : Text.isLayout c = false)
    (htext : Text.leading text = gap ++ c :: rest) :
    PaddingFault text ⟨"syntax error: expected domain expression", offsetAfter gap⟩
  /-- White space at the end. -/
  | trailing {gap rest : List Char} {c : Char} (hleading : IsGap (Text.leading text))
    (hgap : IsGap gap) (hc : Text.isLayout c = false)
    (htext : Text.trailing text = gap ++ c :: rest) :
    PaddingFault text ⟨"syntax error near Eof",
      offsetAfter (Text.leading text ++ ((Text.trim text).toList ++ gap))⟩

/-- A text that is not laid out has other white space before or after its trimmed form. -/
theorem Text.exists_paddingFault {text : String} (h : ¬ Text.LaidOut text) :
    ∃ e, PaddingFault text e := by
  by_cases hleading : IsGap (Text.leading text)
  · have htrailing : ¬ IsGap (Text.trailing text) := fun htrailing =>
      h (Text.laidOut_iff.2 ⟨hleading, htrailing⟩)
    obtain ⟨gap, c, rest, hgap, hc, htext⟩ := exists_gap_cons htrailing
    exact ⟨_, .trailing hleading hgap hc htext⟩
  · obtain ⟨gap, c, rest, hgap, hc, htext⟩ := exists_gap_cons hleading
    exact ⟨_, .leading hgap hc htext⟩

/-- No expression starts with white space that is not layout. -/
theorem domainExpr_eq_none_of_isBlank {c : Char} (hblank : Text.isBlank c = true)
    (hc : Text.isLayout c = false) (rest : List Char) : Reader.domainExpr (c :: rest) = none := by
  rw [Option.eq_none_iff_forall_ne_some]
  rintro ⟨tree, rest'⟩ hread
  obtain ⟨gap, w, gap', hgap, hw, -, hcs⟩ := domainWord_of_read hread
  cases gap with
  | nil =>
    obtain ⟨d, w', rfl, hd⟩ := hw.startsVisibly
    obtain rfl : c = d := (List.cons.inj hcs).1
    rw [hblank] at hd
    cases hd
  | cons d gap =>
    obtain rfl : c = d := (List.cons.inj hcs).1
    rw [hgap c List.mem_cons_self] at hc
    cases hc

/-- An expression ends where white space starts, layout or not. -/
theorem DomainWord.read_blank {w tail : List Char} {tree : DomainExpr} (h : DomainWord w tree)
    (htail : ∀ c ∈ tail, Text.isBlank c = true) :
    ∃ rest, Reader.domainExpr (w ++ tail) = some (tree, rest) ∧
      Text.skipLayout rest = Text.skipLayout tail := by
  refine h.read (fun c hc => ?_) fun hc => ?_
  · by_contra hname
    have hblank := htail c (List.mem_of_mem_head? hc)
    rw [not_isBlank_of_isNameChar (Bool.eq_true_of_not_eq_false hname)] at hblank
    cases hblank
  · have hcomma := htail ',' ((skipLayout_suffix tail).subset (List.mem_of_mem_head? hc))
    cases hcomma

/-- A text whose trimmed form is read is not blank. -/
theorem not_isBlankText_of_parse_trim {text : String} {tree : DomainExpr}
    (h : DomainExpr.parse (Text.trim text) = .ok tree) : Text.isBlankText text = false := by
  rw [Bool.eq_false_iff]
  intro hblank
  rw [Text.isBlankText_iff.1 hblank] at h
  cases h

/-- A text that is read when it is trimmed is rejected for a fault of its white space. -/
theorem PaddingFault.rejection {text : String} {e : ParseError} {tree : DomainExpr}
    (h : PaddingFault text e) (hread : DomainExpr.parse (Text.trim text) = .ok tree) :
    DomainRejection text e := by
  have hvisible := not_isBlankText_of_parse_trim hread
  have htext := Text.toList_eq_leading_append text
  cases h with
  | @leading gap rest c hgap hc hleading =>
    -- the first character after the layout is white space, so nothing can be read there
    have hmem : c ∈ Text.leading text := by simp [hleading]
    rw [hleading, List.append_assoc] at htext
    have hstart : Text.skipLayout text.toList =
        c :: (rest ++ ((Text.trim text).toList ++ Text.trailing text)) := by
      rw [htext, skipLayout_append hgap]
      exact skipLayout_cons hc _
    have hnone := domainExpr_eq_none_of_isBlank (Text.isBlank_of_mem_leading hmem) hc
      (rest ++ ((Text.trim text).toList ++ Text.trailing text))
    obtain ⟨hrange, hslice, hshared, hlist⟩ := domainExpr_eq_none_iff.1 hnone
    exact .unreadable hvisible hstart.symm hrange hslice hshared hlist htext
  | @trailing gap rest c hleading hgap hc htrailing =>
    -- the expression is read, and the first character after the layout is left over
    obtain ⟨gap₁, w, gap₂, hgap₁, hw, hgap₂, htrim⟩ := exists_domainWord hread
    have htail : ∀ d ∈ gap₂ ++ Text.trailing text, Text.isBlank d = true :=
      List.forall_mem_append.2 ⟨fun d hd => Text.isLayout_isBlank (hgap₂ d hd),
        fun d => Text.isBlank_of_mem_trailing⟩
    obtain ⟨mid, hword, hmid⟩ := hw.read_blank htail
    have hstart : Text.skipLayout text.toList = w ++ (gap₂ ++ Text.trailing text) := by
      rw [htext, htrim, skipLayout_append hleading, List.append_assoc, List.append_assoc,
        skipLayout_append hgap₁, hw.startsVisibly.skipLayout_append]
    have hrest : Text.skipLayout mid = c :: rest := by
      rw [hmid, htrailing, skipLayout_append hgap₂, skipLayout_append hgap, skipLayout_cons hc]
    refine .leftOver hvisible hstart.symm hword hrest.symm (List.cons_ne_nil c rest) ?_
    rw [htext, htrailing]
    simp

/-- A text that is read when it is trimmed is rejected exactly for the faults of its white space. -/
theorem DomainExpr.parse_eq_error_iff_paddingFault {text : String} {e : ParseError}
    {tree : DomainExpr} (hread : DomainExpr.parse (Text.trim text) = .ok tree) :
    DomainExpr.parse text = .error e ↔ PaddingFault text e := by
  refine ⟨fun h => ?_, fun h => parse_eq_error_iff.2 (h.rejection hread)⟩
  have hout : ¬ Text.LaidOut text := by
    intro hout
    rw [parse_eq_ok_iff_laidOut.2 ⟨hread, hout⟩] at h
    cases h
  -- there is a fault, and the text is rejected with one error only
  obtain ⟨e', hfault⟩ := Text.exists_paddingFault hout
  have h' := parse_eq_error_iff.2 (hfault.rejection hread)
  rw [h] at h'
  cases h'
  exact hfault

/-! ### Validation and resolvers -/

/-- Only a text that is not read is refused with an error of reading. -/
theorem Resolver.evaluate_eq_parse_error_iff {context : Context} {text : String} {e : ParseError} :
    evaluate context text = .error (.parse e) ↔ DomainExpr.parse text = .error e := by
  unfold evaluate
  cases DomainExpr.parse text with
  | error e' => simp
  | ok tree => cases h : Domain.evaluate context tree <;> simp [h]

namespace Model

variable {m : Model} {subject text : String}

/-- Validation finds that a domain text cannot be read exactly when it cannot be read as it stands.
-/
theorem parse_mem_domainFindings_iff {e : ParseError} :
    .parse subject e ∈ m.domainFindings subject text ↔ DomainExpr.parse text = .error e := by
  have hevaluation : ∀ tree, .parse subject e ∉ m.evaluationFindings subject tree := by
    intro tree
    unfold evaluationFindings
    split <;> simp
  unfold domainFindings
  split
  · next h => simp [h, eq_comm]
  · next h => split <;> simp [h]
  · next h => simp [h, hevaluation]

/-- What validation and a resolver make of a domain text. Validation reads it as it stands, and a
resolver trimmed, whatever it was called on before. Both read the same expression if the white space
around the text is layout, and otherwise validation reads none. So validation finds a text
unreadable exactly when the resolver does or when white space around it is not layout; where only
validation does, what it finds is the first character of that white space which is not layout. -/
theorem parse_iff_trim_laidOut (m : Model) (before : List String) (subject text : String) :
    (∀ tree, DomainExpr.parse text = .ok tree ↔
        DomainExpr.parse (Text.trim text) = .ok tree ∧ Text.LaidOut text) ∧
      ((∃ e, .parse subject e ∈ m.domainFindings subject text) ↔
        (∃ e, (((Resolver.new m.context).after before).call text).1 = .error (.parse e)) ∨
          ¬ Text.LaidOut text) ∧
      ∀ tree e, DomainExpr.parse (Text.trim text) = .ok tree →
        (.parse subject e ∈ m.domainFindings subject text ↔ PaddingFault text e) := by
  have hcall : (((Resolver.new m.context).after before).call text).1 =
      Resolver.evaluate m.context (Text.trim text) :=
    (((Resolver.remembers_new m.context).after before).call text).1
  simp only [hcall, Resolver.evaluate_eq_parse_error_iff, parse_mem_domainFindings_iff]
  refine ⟨fun tree => DomainExpr.parse_eq_ok_iff_laidOut, ?_, fun tree e =>
    DomainExpr.parse_eq_error_iff_paddingFault⟩
  -- a reading fails where it gives no expression, so the two readings are compared where they do
  rw [exists_eq_error_iff, exists_eq_error_iff, ← not_and_or, not_iff_not, ← exists_and_right]
  exact exists_congr fun tree => DomainExpr.parse_eq_ok_iff_laidOut

/-- A range with a line feed and an ideographic space after it is read trimmed, and validation finds
the space. -/
theorem parse_iff_trim_laidOut_wideSpace :
    DomainExpr.parse (Text.trim "1..3\n\u3000") = .ok (.range (.integer 1) (.integer 3)) ∧
      ¬ Text.LaidOut "1..3\n\u3000" ∧
      .parse "x" ⟨"syntax error near Eof", 5⟩ ∈
        (Model.new "m").domainFindings "x" "1..3\n\u3000" := by
  have htrim : DomainExpr.parse (Text.trim "1..3\n\u3000") =
      .ok (.range (.integer 1) (.integer 3)) := by
    decide +kernel
  obtain ⟨-, -, hfault⟩ := parse_iff_trim_laidOut (Model.new "m") [] "x" "1..3\n\u3000"
  have htrailing : Text.trailing "1..3\n\u3000" = ['\n'] ++ '\u3000' :: [] := by
    decide +kernel
  refine ⟨htrim, by decide +kernel, (hfault _ _ htrim).2 ?_⟩
  exact .trailing (by decide +kernel) (by decide) (by decide) htrailing

/-- A range with a no-break space in front is read trimmed, but not as it stands. -/
theorem parse_trim_noBreakSpace :
    DomainExpr.parse "\u00a01..3" = .error ⟨"syntax error: expected domain expression", 0⟩ ∧
      ¬ (DomainExpr.parse "\u00a01..3" = .ok (.range (.integer 1) (.integer 3)) ↔
        DomainExpr.parse (Text.trim "\u00a01..3") = .ok (.range (.integer 1) (.integer 3))) := by
  decide +kernel

end Model

end FiniteDomain
