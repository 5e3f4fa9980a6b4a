import FiniteDomain.Json.FindingForm
import FiniteDomain.Json.ModelForm
import FiniteDomain.Json.SnapshotForm

/-!
# JSON forms are read back

Whatever a model, a snapshot or a report holds, its JSON form is read as the same value: any texts,
any words, overrides that are there or not. Nothing is asked of the values, so this also covers
models that no edits make.

The proof goes by parts. Words, characters and optional texts are read back, lists are if their
items are, and then each record and each variant, once its parts are. A record is written as an
object with a member for each field, and no two fields share a name; so the fields that are read are
the values that were written, in the same order.

## Main definitions

* `Json.ReadsBack`: what is written for a value is read as the value.

## Main results

* `Json.fields?_object`: the fields of a record that was written.
* `Json.ReadsBack.list`: lists of values that are read back.
* `Variable.readsBack`, `ModelConstraint.readsBack`, `DomainError.readsBack`, `Finding.readsBack`:
  the variants that models and reports are made of.
* `Json.forms_read_back`: models, snapshots and reports.
-/

namespace FiniteDomain

namespace Json

/-- What is written for a value is read as the value. -/
def ReadsBack {α : Type} (encode : α → Json) (decode : Json → Option α) : Prop :=
  ∀ a, decode (encode a) = some a

/-! ### Parts of records -/

/-- A string is its text. -/
@[simp]
theorem string?_string (s : String) : (string s).string? = some s :=
  rfl

/-- A signed word is written as an integer, and that integer fits the word. -/
@[simp]
theorem int64?_ofInt64 (n : Int64) : (ofInt64 n).int64? = some n :=
  Word.ofInt?_eq_some_iff.2 rfl

/-- An unsigned word is written as a natural number, and that number fits the word. -/
@[simp]
theorem uint64?_ofUInt64 (n : UInt64) : (ofUInt64 n).uint64? = some n := by
  show Word.ofNat? n.toNat = some n
  rw [Word.ofNat?, if_pos n.toNat_lt, UInt64.ofNat_toNat]

/-- A character is written as the text of that one character. -/
@[simp]
theorem char?_ofChar (c : Char) : (ofChar c).char? = some c := by
  simp [ofChar, char?]

/-- A missing text is written as `null`, which no text is written as. -/
@[simp]
theorem optionalString?_ofString? (s : Option String) :
    optionalString? (ofString? s) = some s := by
  cases s <;> rfl

/-- A variant is told by the only member of its object. -/
@[simp]
theorem variant?_ofVariant (name : String) (payload : Json) :
    variant? (ofVariant name payload) = some (name, some payload) :=
  rfl

/-- A computation that succeeds on each item of a list succeeds on the list. -/
theorem mapM_eq_some {α β : Type} {f : α → Option β} {g : α → β} {as : List α}
    (h : ∀ a ∈ as, f a = some (g a)) : as.mapM f = some (as.map g) := by
  induction as with
  | nil => rfl
  | cons a as ih =>
    have has : ∀ b ∈ as, f b = some (g b) := fun b hb => h b (List.mem_cons_of_mem a hb)
    simp [h a List.mem_cons_self, ih has]

/-- Where no two members share a name, a member is the only one of its name. -/
theorem membersNamed_eq_singleton {members : List (String × Json)}
    (hnodup : (members.map Prod.fst).Nodup) {m : String × Json} (hm : m ∈ members) :
    membersNamed m.1 members = [m.2] := by
  induction members with
  | nil => cases hm
  | cons first members ih =>
    obtain ⟨hfirst, hnodup⟩ := List.nodup_cons.1 hnodup
    rcases List.mem_cons.1 hm with rfl | hm
    · -- the name is that of the first member, so no later one has it
      have hnone : ∀ later ∈ members, ¬ (later.1 == m.1) = true := by
        intro later hlater heq
        exact hfirst (List.mem_map.2 ⟨later, hlater, eq_of_beq heq⟩)
      simp [membersNamed, List.filter_eq_nil_iff.2 hnone]
    · have hne : ¬ (first.1 == m.1) = true := by
        intro heq
        exact hfirst (List.mem_map.2 ⟨m, hm, (eq_of_beq heq).symm⟩)
      have hskip : (first :: members).filter (fun later => later.1 == m.1) =
          members.filter (fun later => later.1 == m.1) :=
        List.filter_cons_of_neg hne
      rw [membersNamed, hskip]
      exact ih hnodup hm

/-- The fields of a record are read off its object if the members are named for the fields, in their
order, and no two fields share a name. -/
@[simp]
theorem fields?_object {names : List String} {members : List (String × Json)}
    (hnames : members.map Prod.fst = names) (hnodup : names.Nodup) :
    fields? names (object members) = some (members.map fun m => some m.2) := by
  subst hnames
  show (members.map Prod.fst).mapM (member? members) = _
  rw [List.mapM_map]
  refine mapM_eq_some fun m hm => ?_
  rw [Function.comp_apply, member?, membersNamed_eq_singleton hnodup hm]

/-- A list is read back if its items are. -/
theorem ReadsBack.list {α : Type} {encode : α → Json} {decode : Json → Option α}
    (h : ReadsBack encode decode) : ReadsBack (ofList encode) (list? decode) := by
  intro items
  show (items.map encode).mapM decode = some items
  rw [List.mapM_map]
  exact (mapM_eq_some fun a _ => h a).trans (congrArg some (List.map_id items))

/-- Texts in lists, such as the cells of a table, are read back. -/
theorem readsBack_string : ReadsBack string string? :=
  string?_string

end Json

open Json

/-! ### Models -/

/-- A singleton is read back from its name and its domain, whatever texts these are. -/
theorem Singleton.readsBack : ReadsBack Singleton.toJson Singleton.ofJson? := by
  intro s
  simp [toJson, ofJson?]

/-- An element is read back with its override. One without an override has a member for it all the
same, which is read as none. -/
theorem Element.readsBack : ReadsBack Element.toJson Element.ofJson? := by
  intro e
  simp [toJson, ofJson?]

/-- An aggregate is read back with all its elements, also if it has none. -/
theorem Aggregate.readsBack : ReadsBack Aggregate.toJson Aggregate.ofJson? := by
  intro a
  simp [toJson, ofJson?, Element.readsBack.list a.elements]

/-- A bucket is read back with any size that is a word, also 0. -/
theorem Bucket.readsBack : ReadsBack Bucket.toJson Bucket.ofJson? := by
  intro b
  simp [toJson, ofJson?]

/-- A variable is read back as one of its own kind. -/
theorem Variable.readsBack : ReadsBack Variable.toJson Variable.ofJson? := by
  intro v
  cases v with
  | singleton s => simp [toJson, ofJson?, Singleton.readsBack s]
  | aggregate a => simp [toJson, ofJson?, Aggregate.readsBack a]
  | bucket b => simp [toJson, ofJson?, Bucket.readsBack b]

/-- A shared domain is read back; its expression is a text like any other here. -/
theorem SharedDomain.readsBack : ReadsBack SharedDomain.toJson SharedDomain.ofJson? := by
  intro d
  simp [toJson, ofJson?]

/-- A bundle is read back with its fields in order, repeated names included. -/
theorem Bundle.readsBack : ReadsBack Bundle.toJson Bundle.ofJson? := by
  intro b
  simp [toJson, ofJson?, Singleton.readsBack.list b.singletons]

/-- A table is read back with rows of any lengths. -/
theorem Table.readsBack : ReadsBack Table.toJson Table.ofJson? := by
  intro t
  simp [toJson, ofJson?, readsBack_string.list.list t.rows]

/-- A constraint is read back as one of its own kind, with its name and its text. -/
theorem ModelConstraint.readsBack : ReadsBack ModelConstraint.toJson ModelConstraint.ofJson? := by
  intro c
  cases c <;> simp [toJson, ofJson?]

/-- The members of a model are all written, so that none is taken for empty. -/
theorem Model.readsBack : ReadsBack Model.toJson Model.ofJson? := by
  intro m
  have hmembers : members? m.toJson = some [some (string m.name),
      some (ofList Variable.toJson m.vars), some (ofList SharedDomain.toJson m.sharedDomains),
      some (ofList Bundle.toJson m.bundles), some (ofList Table.toJson m.tables),
      some (ofList ModelConstraint.toJson m.constraints)] := by
    simp [toJson, members?, memberNames]
  simp [ofJson?, hmembers, stringOrEmpty?, listOrEmpty?, Variable.readsBack.list m.vars,
    SharedDomain.readsBack.list m.sharedDomains, Bundle.readsBack.list m.bundles,
    Table.readsBack.list m.tables, ModelConstraint.readsBack.list m.constraints]

/-! ### Snapshots -/

/-- A value is read back with its kind, so that the number 1 and the item that is written `1` stay
different. -/
theorem Value.readsBack : ReadsBack Value.toJson Value.ofJson? := by
  intro v
  cases v <;> simp [toJson, ofJson?]

/-- The label of a singleton or a field is read back. -/
theorem Label.readsBack : ReadsBack Label.toJson Label.ofJson? := by
  intro l
  simp [toJson, ofJson?, Value.readsBack l.value]

/-- The label of an aggregate is read back with its values in order. -/
theorem CompoundLabel.readsBack : ReadsBack CompoundLabel.toJson CompoundLabel.ofJson? := by
  intro l
  simp [toJson, ofJson?, Value.readsBack.list l.values]

/-- The labels of a copy are read back with the number of the copy. -/
theorem BundleLabel.readsBack : ReadsBack BundleLabel.toJson BundleLabel.ofJson? := by
  intro l
  simp [toJson, ofJson?, Label.readsBack.list l.labels]

/-- The label of a bucket is read back with its copies in order. -/
theorem BucketLabel.readsBack : ReadsBack BucketLabel.toJson BucketLabel.ofJson? := by
  intro l
  simp [toJson, ofJson?, BundleLabel.readsBack.list l.bundles]

/-- A snapshot is read back, the empty one included. -/
theorem Snapshot.readsBack : ReadsBack Snapshot.toJson Snapshot.ofJson? := by
  intro s
  simp [toJson, ofJson?, Label.readsBack.list s.singletons,
    CompoundLabel.readsBack.list s.aggregates, BucketLabel.readsBack.list s.buckets]

/-! ### Reports -/

/-- A reading error is read back with any offset that is a word. -/
theorem ParseError.readsBack : ReadsBack ParseError.toJson ParseError.ofJson? := by
  intro e
  simp [toJson, ofJson?]

/-- Every domain error is read back, the one without payload included. -/
theorem DomainError.readsBack : ReadsBack DomainError.toJson DomainError.ofJson? := by
  intro e
  cases e with
  | sharedSyntax name error =>
    simp [toJson, ofJson?, ParseError.readsBack error]
  | tooLarge => simp [toJson, ofJson?]
  -- the other variants hold texts only, and reading them is a matter of computation
  | _ => rfl

/-- Every finding is read back, with the error that it may carry. -/
theorem Finding.readsBack : ReadsBack Finding.toJson Finding.ofJson? := by
  intro f
  cases f with
  | parse subject error =>
    simp [toJson, ofJson?, ParseError.readsBack error]
  | domain subject error =>
    simp [toJson, ofJson?, DomainError.readsBack error]
  | subscriptOutOfRange => simp [toJson, ofJson?]
  | _ => rfl

/-- A report is read back with its findings in order. -/
theorem Report.readsBack : ReadsBack Report.toJson Report.ofJson? := by
  intro r
  simp [toJson, ofJson?, Finding.readsBack.list r.findings]

/-- Models, snapshots and reports are read back from their values. A model need not be one that the
edits can build. -/
theorem Json.forms_read_back :
    ReadsBack Model.toJson Model.ofJson? ∧ ReadsBack Snapshot.toJson Snapshot.ofJson? ∧
      ReadsBack Report.toJson Report.ofJson? :=
  ⟨Model.readsBack, Snapshot.readsBack, Report.readsBack⟩

end FiniteDomain
