import FiniteDomain.Model.Error

/-!
# Variables

The three kinds of variables of a model: singletons, aggregates and buckets. Domains are kept as
expression texts. An aggregate is an array counted from 1, with one domain expression and optional
overrides for single elements; a bucket is a number of copies of a bundle of singletons.

* `Aggregate.resize`: keeps the leading elements with their overrides.
* `Aggregate.domainAt`: the domain expression in force for an element.
-/

namespace FiniteDomain

/-- One unknown. -/
structure Singleton where
  /-- The variable's name. -/
  name : String
  /-- Its domain expression. -/
  domain : String
  deriving DecidableEq

/-- One element of an aggregate. -/
structure Element where
  /-- The element's name: that of the aggregate followed by the index. -/
  name : String
  /-- A domain expression for this element alone. -/
  domainOverride : Option String
  deriving DecidableEq

/-- An array of unknowns. -/
structure Aggregate where
  /-- The variable's name. -/
  name : String
  /-- The domain expression of elements without an override. -/
  domain : String
  /-- The elements in order. -/
  elements : List Element
  deriving DecidableEq

namespace Aggregate

/-- The name of the element at an index, counted from 1. -/
def elementName (base : String) (index : Nat) : String :=
  base ++ Decimal.ofNat index

/-- Elements without override for the indices after `count` up to `size`. -/
def freshElements (base : String) (count size : Nat) : List Element :=
  (List.range' (count + 1) (size - count)).map fun index => ⟨elementName base index, none⟩

/-- An aggregate of the given size, which must be positive. -/
def new (name : String) (size : Nat) (domain : String) : Except ModelError Aggregate :=
  if size = 0 then .error (.invalidSize size)
  else .ok ⟨name, domain, freshElements name 0 size⟩

/-- The number of elements. -/
def size (a : Aggregate) : Nat :=
  a.elements.length

/-- The element at an index, counted from 1. -/
def element? (a : Aggregate) (index : Nat) : Option Element :=
  if index = 0 then none else a.elements[index - 1]?

/-- The domain expression in force for the element at an index. -/
def domainAt (a : Aggregate) (index : Nat) : Option String :=
  (a.element? index).map fun e => e.domainOverride.getD a.domain

/-- Keeps the first `size` elements, overrides included, and adds fresh ones up to `size`. -/
def resize (a : Aggregate) (size : Nat) : Except ModelError Aggregate :=
  if size = 0 then .error (.invalidSize size)
  else
    .ok { a with elements := a.elements.take size ++ freshElements a.name a.elements.length size }

/-- Renames the aggregate and, after it, its elements. -/
def rename (a : Aggregate) (name : String) : Aggregate :=
  { a with
    name
    elements := a.elements.mapIdx fun i e => { e with name := elementName name (i + 1) } }

/-- Gives the element at an index, counted from 1, a domain expression of its own. -/
def overrideDomain (a : Aggregate) (index : Nat) (domain : String) :
    Except ModelError Aggregate :=
  if index = 0 ∨ a.size < index then .error (.indexOutOfRange index a.size)
  else
    .ok { a with
      elements := a.elements.modify (index - 1) fun e => { e with domainOverride := some domain } }

end Aggregate

/-- A named group of singletons that buckets are made of. -/
structure Bundle where
  /-- The bundle's name. -/
  name : String
  /-- The fields in order. -/
  singletons : List Singleton
  deriving DecidableEq

/-- The field of the given name. -/
def Bundle.field? (b : Bundle) (name : String) : Option Singleton :=
  b.singletons.find? fun s => s.name == name

/-- Independent copies of a bundle. -/
structure Bucket where
  /-- The variable's name. -/
  name : String
  /-- The name of the bundle. -/
  bundle : String
  /-- The number of copies. -/
  size : UInt64
  deriving DecidableEq

namespace Bucket

/-- A bucket of the given size, which must be positive. -/
def new (name bundle : String) (size : UInt64) : Except ModelError Bucket :=
  if size = 0 then .error (.invalidSize size.toNat) else .ok ⟨name, bundle, size⟩

/-- Changes the number of copies, which must stay positive. -/
def resize (b : Bucket) (size : UInt64) : Except ModelError Bucket :=
  if size = 0 then .error (.invalidSize size.toNat) else .ok { b with size }

end Bucket

/-- A variable of a model. -/
inductive Variable where
  /-- One unknown. -/
  | singleton (v : Singleton)
  /-- An array of unknowns. -/
  | aggregate (v : Aggregate)
  /-- Copies of a bundle. -/
  | bucket (v : Bucket)
  deriving DecidableEq

namespace Variable

/-- The variable's name. -/
def name : Variable → String
  | singleton v => v.name
  | aggregate v => v.name
  | bucket v => v.name

/-- The variable's kind. -/
def kind : Variable → Kind
  | singleton _ => .singleton
  | aggregate _ => .aggregate
  | bucket _ => .bucket

/-- The variable as an aggregate. -/
def aggregate? : Variable → Option Aggregate
  | aggregate v => some v
  | _ => none

/-- The variable as a bucket. -/
def bucket? : Variable → Option Bucket
  | bucket v => some v
  | _ => none

/-- Renames the variable. -/
def rename (name : String) : Variable → Variable
  | singleton v => singleton { v with name }
  | aggregate v => aggregate (v.rename name)
  | bucket v => bucket { v with name }

end Variable

end FiniteDomain
