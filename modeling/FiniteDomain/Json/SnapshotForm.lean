import FiniteDomain.Json.Codec
import FiniteDomain.Solution.Snapshot

/-!
# The JSON form of snapshots

* `Snapshot.toJson` and `Snapshot.ofJson?`.
-/

namespace FiniteDomain

open Json

/-- The JSON form of a value. -/
def Value.toJson : Value → Json
  | int value => ofVariant "Int" (ofInt64 value)
  | char value => ofVariant "Char" (ofChar value)
  | item value => ofVariant "Item" (string value)

/-- Reads a value. -/
def Value.ofJson? (j : Json) : Option Value := do
  match ← variant? j with
  | ("Int", some payload) => payload.int64?.map int
  | ("Char", some payload) => payload.char?.map char
  | ("Item", some payload) => payload.string?.map item
  | _ => none

/-- The JSON form of a label. -/
def Label.toJson (l : Label) : Json :=
  object [("variable", string l.name), ("value", l.value.toJson)]

/-- Reads a label. -/
def Label.ofJson? (j : Json) : Option Label := do
  match ← fields? ["variable", "value"] j with
  | [some name, some value] => return ⟨← name.string?, ← Value.ofJson? value⟩
  | _ => none

/-- The JSON form of the label of an aggregate. -/
def CompoundLabel.toJson (l : CompoundLabel) : Json :=
  object [("variable", string l.name), ("values", ofList Value.toJson l.values)]

/-- Reads the label of an aggregate. -/
def CompoundLabel.ofJson? (j : Json) : Option CompoundLabel := do
  match ← fields? ["variable", "values"] j with
  | [some name, some values] => return ⟨← name.string?, ← list? Value.ofJson? values⟩
  | _ => none

/-- The JSON form of the labels of a copy. -/
def BundleLabel.toJson (l : BundleLabel) : Json :=
  object [("instance", ofUInt64 l.copy), ("labels", ofList Label.toJson l.labels)]

/-- Reads the labels of a copy. -/
def BundleLabel.ofJson? (j : Json) : Option BundleLabel := do
  match ← fields? ["instance", "labels"] j with
  | [some copy, some labels] => return ⟨← copy.uint64?, ← list? Label.ofJson? labels⟩
  | _ => none

/-- The JSON form of the label of a bucket. -/
def BucketLabel.toJson (l : BucketLabel) : Json :=
  object [("bucket", string l.name), ("bundles", ofList BundleLabel.toJson l.bundles)]

/-- Reads the label of a bucket. -/
def BucketLabel.ofJson? (j : Json) : Option BucketLabel := do
  match ← fields? ["bucket", "bundles"] j with
  | [some name, some bundles] => return ⟨← name.string?, ← list? BundleLabel.ofJson? bundles⟩
  | _ => none

/-- The JSON form of a snapshot. -/
def Snapshot.toJson (s : Snapshot) : Json :=
  object [("singletons", ofList Label.toJson s.singletons),
    ("aggregates", ofList CompoundLabel.toJson s.aggregates),
    ("buckets", ofList BucketLabel.toJson s.buckets)]

/-- Reads a snapshot. -/
def Snapshot.ofJson? (j : Json) : Option Snapshot := do
  match ← fields? ["singletons", "aggregates", "buckets"] j with
  | [some singletons, some aggregates, some buckets] =>
    return ⟨← list? Label.ofJson? singletons, ← list? CompoundLabel.ofJson? aggregates,
      ← list? BucketLabel.ofJson? buckets⟩
  | _ => none

end FiniteDomain
