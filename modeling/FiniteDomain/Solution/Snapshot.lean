import FiniteDomain.Network.Basic
import FiniteDomain.Search.Assignment
import FiniteDomain.SolveError

/-!
# Snapshots

A snapshot gives the values of a solution in the terms of the model: a label for each singleton, the
values of each aggregate in order, and for each bucket the labels of its copies.

* `Snapshot.addToGroup`: values come group by group, and each joins the last group or opens one.
* `Snapshot.extract`: reads an assignment of a network back.
* `Snapshot.singleton?`, `Snapshot.aggregate?`, `Snapshot.bucket?`: labels by name.
-/

namespace FiniteDomain

/-- The value of a singleton, or of a field of a bundle. -/
structure Label where
  /-- The name of the singleton or field. -/
  name : String
  /-- Its value. -/
  value : Value
  deriving DecidableEq

/-- The values of an aggregate. -/
structure CompoundLabel where
  /-- The aggregate's name. -/
  name : String
  /-- The values in order of elements. -/
  values : List Value
  deriving DecidableEq

/-- The value at an index, counted from 1. -/
def CompoundLabel.valueAt (l : CompoundLabel) (index : Nat) : Option Value :=
  if index = 0 then none else l.values[index - 1]?

/-- The values of one copy of a bundle. -/
structure BundleLabel where
  /-- The number of the copy, counted from 1. -/
  copy : UInt64
  /-- The labels of the fields. -/
  labels : List Label
  deriving DecidableEq

/-- The value of a field. -/
def BundleLabel.get? (l : BundleLabel) (field : String) : Option Value :=
  (l.labels.find? fun label => label.name == field).map Label.value

/-- The values of a bucket. -/
structure BucketLabel where
  /-- The bucket's name. -/
  name : String
  /-- The labels of the copies. -/
  bundles : List BundleLabel
  deriving DecidableEq

/-- The labels of a copy. -/
def BucketLabel.copy? (l : BucketLabel) (copy : UInt64) : Option BundleLabel :=
  l.bundles.find? fun bundle => bundle.copy == copy

/-- The values of a solution. -/
structure Snapshot where
  /-- The labels of singletons. -/
  singletons : List Label
  /-- The labels of aggregates. -/
  aggregates : List CompoundLabel
  /-- The labels of buckets. -/
  buckets : List BucketLabel
  deriving DecidableEq

namespace Snapshot

/-- The snapshot without labels. -/
def empty : Snapshot :=
  ⟨[], [], []⟩

/-- The snapshot has no labels. -/
def isEmpty (s : Snapshot) : Bool :=
  s.singletons.isEmpty && s.aggregates.isEmpty && s.buckets.isEmpty

/-- The first label of a singleton of the given name. -/
def singleton? (s : Snapshot) (name : String) : Option Label :=
  s.singletons.find? fun l => l.name == name

/-- The first label of an aggregate of the given name. -/
def aggregate? (s : Snapshot) (name : String) : Option CompoundLabel :=
  s.aggregates.find? fun l => l.name == name

/-- The first label of a bucket of the given name. -/
def bucket? (s : Snapshot) (name : String) : Option BucketLabel :=
  s.buckets.find? fun l => l.name == name

/-- Adds to the last group of a list if that has the given key, else to a new group that was blank.
-/
def addToGroup {γ κ : Type} [DecidableEq κ] (key : γ → κ) (k : κ) (blank : γ) (add : γ → γ) :
    List γ → List γ
  | [] => [add blank]
  | [last] => if key last = k then [add last] else [last, add blank]
  | group :: groups => group :: addToGroup key k blank add groups

/-- A label with one more value. -/
def extendCompound (value : Value) (l : CompoundLabel) : CompoundLabel :=
  { l with values := l.values ++ [value] }

/-- A copy with one more label. -/
def extendBundle (label : Label) (l : BundleLabel) : BundleLabel :=
  { l with labels := l.labels ++ [label] }

/-- Adds an element's value to the label of its aggregate. -/
def addElement (name : String) (value : Value) : List CompoundLabel → List CompoundLabel :=
  addToGroup CompoundLabel.name name ⟨name, []⟩ (extendCompound value)

/-- Adds a field's label to its copy. -/
def addToCopies (copy : UInt64) (label : Label) : List BundleLabel → List BundleLabel :=
  addToGroup BundleLabel.copy copy ⟨copy, []⟩ (extendBundle label)

/-- A bucket with one more label in a copy. -/
def extendBucket (copy : UInt64) (label : Label) (l : BucketLabel) : BucketLabel :=
  { l with bundles := addToCopies copy label l.bundles }

/-- Adds a field's label to its bucket. -/
def addField (name : String) (copy : UInt64) (label : Label) :
    List BucketLabel → List BucketLabel :=
  addToGroup BucketLabel.name name ⟨name, []⟩ (extendBucket copy label)

/-- Adds the value of the unknown that a key addresses. -/
def add (s : Snapshot) (key : UnknownKey) (value : Value) : Snapshot :=
  match key with
  | .singleton name => { s with singletons := s.singletons ++ [⟨name, value⟩] }
  | .element name _ => { s with aggregates := addElement name value s.aggregates }
  | .field bucket copy name => { s with buckets := addField bucket copy ⟨name, value⟩ s.buckets }

/-- Adds the value that an assignment gives to an unknown. -/
def addUnknown (a : Assignment) (s : Snapshot) (unknown : Unknown × Nat) :
    Except SolveError Snapshot :=
  match a.get? unknown.2 with
  | none => .error (.unassigned unknown.1.name)
  | some position => do
    let value ← unknown.1.domain.valueAt position
    return s.add unknown.1.key value

/-- Reads an assignment of all unknowns of a network back. -/
def extract (net : Network) (a : Assignment) : Except SolveError Snapshot :=
  net.unknowns.toList.zipIdx.foldlM (addUnknown a) empty

end Snapshot

end FiniteDomain
