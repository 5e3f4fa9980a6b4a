import FiniteDomain.Json.Codec
import FiniteDomain.Model.Basic

/-!
# The JSON form of models

Reading a model checks the form only: names may be repeated and sizes may be 0. Members of the model
itself that are missing are empty.

* `Model.toJson` and `Model.ofJson?`.
-/

namespace FiniteDomain

open Json

/-- The JSON form of a singleton. -/
def Singleton.toJson (s : Singleton) : Json :=
  object [("name", string s.name), ("domain", string s.domain)]

/-- Reads a singleton. -/
def Singleton.ofJson? (j : Json) : Option Singleton := do
  match ← fields? ["name", "domain"] j with
  | [some name, some domain] => return ⟨← name.string?, ← domain.string?⟩
  | _ => none

/-- The JSON form of an element of an aggregate. -/
def Element.toJson (e : Element) : Json :=
  object [("name", string e.name), ("domain_override", ofString? e.domainOverride)]

/-- Reads an element of an aggregate; a missing override is none. -/
def Element.ofJson? (j : Json) : Option Element := do
  match ← fields? ["name", "domain_override"] j with
  | [some name, override] => return ⟨← name.string?, ← optionalString? (override.getD null)⟩
  | _ => none

/-- The JSON form of an aggregate. -/
def Aggregate.toJson (a : Aggregate) : Json :=
  object [("name", string a.name), ("domain", string a.domain),
    ("elements", ofList Element.toJson a.elements)]

/-- Reads an aggregate. -/
def Aggregate.ofJson? (j : Json) : Option Aggregate := do
  match ← fields? ["name", "domain", "elements"] j with
  | [some name, some domain, some elements] =>
    return ⟨← name.string?, ← domain.string?, ← list? Element.ofJson? elements⟩
  | _ => none

/-- The JSON form of a bucket. -/
def Bucket.toJson (b : Bucket) : Json :=
  object [("name", string b.name), ("bundle", string b.bundle), ("size", ofUInt64 b.size)]

/-- Reads a bucket. -/
def Bucket.ofJson? (j : Json) : Option Bucket := do
  match ← fields? ["name", "bundle", "size"] j with
  | [some name, some bundle, some size] =>
    return ⟨← name.string?, ← bundle.string?, ← size.uint64?⟩
  | _ => none

/-- The JSON form of a variable. -/
def Variable.toJson : Variable → Json
  | singleton v => ofVariant "Singleton" v.toJson
  | aggregate v => ofVariant "Aggregate" v.toJson
  | bucket v => ofVariant "Bucket" v.toJson

/-- Reads a variable. -/
def Variable.ofJson? (j : Json) : Option Variable := do
  match ← variant? j with
  | ("Singleton", some payload) => (Singleton.ofJson? payload).map singleton
  | ("Aggregate", some payload) => (Aggregate.ofJson? payload).map aggregate
  | ("Bucket", some payload) => (Bucket.ofJson? payload).map bucket
  | _ => none

/-- The JSON form of a shared domain. -/
def SharedDomain.toJson (d : SharedDomain) : Json :=
  object [("name", string d.name), ("expression", string d.expression)]

/-- Reads a shared domain. -/
def SharedDomain.ofJson? (j : Json) : Option SharedDomain := do
  match ← fields? ["name", "expression"] j with
  | [some name, some expression] => return ⟨← name.string?, ← expression.string?⟩
  | _ => none

/-- The JSON form of a bundle. -/
def Bundle.toJson (b : Bundle) : Json :=
  object [("name", string b.name), ("singletons", ofList Singleton.toJson b.singletons)]

/-- Reads a bundle. -/
def Bundle.ofJson? (j : Json) : Option Bundle := do
  match ← fields? ["name", "singletons"] j with
  | [some name, some singletons] => return ⟨← name.string?, ← list? Singleton.ofJson? singletons⟩
  | _ => none

/-- The JSON form of a table. -/
def Table.toJson (t : Table) : Json :=
  object [("name", string t.name), ("rows", ofList (ofList string) t.rows)]

/-- Reads a table. -/
def Table.ofJson? (j : Json) : Option Table := do
  match ← fields? ["name", "rows"] j with
  | [some name, some rows] => return ⟨← name.string?, ← list? (list? string?) rows⟩
  | _ => none

/-- The JSON form of a constraint. -/
def ModelConstraint.toJson : ModelConstraint → Json
  | expression name text =>
    ofVariant "Expression" (object [("name", string name), ("expression", string text)])
  | allDifferent name text =>
    ofVariant "AllDifferent" (object [("name", string name), ("aggregate", string text)])

/-- Reads a constraint. -/
def ModelConstraint.ofJson? (j : Json) : Option ModelConstraint := do
  match ← variant? j with
  | ("Expression", some payload) =>
    match ← fields? ["name", "expression"] payload with
    | [some name, some text] => return expression (← name.string?) (← text.string?)
    | _ => none
  | ("AllDifferent", some payload) =>
    match ← fields? ["name", "aggregate"] payload with
    | [some name, some text] => return allDifferent (← name.string?) (← text.string?)
    | _ => none
  | _ => none

namespace Model

/-- The names of a model's members. -/
def memberNames : List String :=
  ["name", "variables", "shared_domains", "bundles", "tables", "constraints"]

/-- The JSON form of a model. -/
def toJson (m : Model) : Json :=
  object [("name", string m.name), ("variables", ofList Variable.toJson m.vars),
    ("shared_domains", ofList SharedDomain.toJson m.sharedDomains),
    ("bundles", ofList Bundle.toJson m.bundles), ("tables", ofList Table.toJson m.tables),
    ("constraints", ofList ModelConstraint.toJson m.constraints)]

/-- The members of a model; an array may leave out the last ones. -/
def members? : Json → Option (List (Option Json))
  | array items =>
    if items.length ≤ memberNames.length then
      some (items.map some ++ List.replicate (memberNames.length - items.length) none)
    else none
  | j => fields? memberNames j

/-- A list that is empty when it is missing. -/
def listOrEmpty? {α : Type} (decode : Json → Option α) : Option Json → Option (List α)
  | none => some []
  | some j => list? decode j

/-- A string that is empty when it is missing. -/
def stringOrEmpty? : Option Json → Option String
  | none => some ""
  | some j => j.string?

/-- Reads a model. -/
def ofJson? (j : Json) : Option Model := do
  match ← members? j with
  | [name, vars, sharedDomains, bundles, tables, constraints] =>
    return ⟨← stringOrEmpty? name, ← listOrEmpty? Variable.ofJson? vars,
      ← listOrEmpty? SharedDomain.ofJson? sharedDomains, ← listOrEmpty? Bundle.ofJson? bundles,
      ← listOrEmpty? Table.ofJson? tables, ← listOrEmpty? ModelConstraint.ofJson? constraints⟩
  | _ => none

end Model

end FiniteDomain
