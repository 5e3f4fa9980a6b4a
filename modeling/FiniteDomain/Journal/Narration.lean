import FiniteDomain.Journal.Event
import FiniteDomain.Solution.Solve

/-!
# Narrating runs

The events of validating, building, searching and solving. A narration follows the same steps as the
run that it tells of and stops where the run stops with an error; what was told before stays.

* `Journal.validation`, `Journal.construction`, `Journal.searching`, `Journal.solving`.
* `Journal.expansion`, `Journal.resolution`: the events of single operations.
-/

namespace FiniteDomain.Journal

/-- The events of taking steps one after the other up to the first error: `events` tells what
happens when a step is taken. -/
def narrate {σ α : Type} (step : σ → α → Except SolveError σ) (events : σ → α → List Event) :
    σ → List α → List Event
  | _, [] => []
  | s, a :: as =>
    events s a ++
      match step s a with
      | .ok s => narrate step events s as
      | .error _ => []

/-- The events of expanding a tree that was read from a text: one, if it is a template that expands.
-/
def expansion (text : String) (tree : ConstraintExpr) : List Event :=
  if tree.isTemplate then
    match Template.expand text tree with
    | .ok trees =>
      [⟨.debug, "Expanded repeater",
        [("template", .text (String.ofList (Template.strip text.toList))),
          ("count", .number trees.length)]⟩]
    | .error _ => []
  else []

/-- The events of expanding a text. -/
def textExpansion (text : String) : List Event :=
  match ConstraintExpr.parse text with
  | .ok tree => expansion text tree
  | .error _ => []

/-- The events of expanding a constraint of a model. -/
def constraintExpansion : ModelConstraint → List Event
  | .expression _ text => textExpansion text
  | .allDifferent _ _ => []

/-- The events of validating a model. -/
def validation (m : Model) : List Event :=
  m.constraints.flatMap constraintExpansion ++
    [⟨.debug, "Validated model",
      [("model", .text m.name), ("errors", .number m.validate.findings.length)]⟩]

/-- The events of resolving a domain text: one, if it is resolved for the first time. -/
def resolution (r : Resolver) (text : String) : List Event :=
  match r.resolve text with
  | .ok (d, after) =>
    if after.cached = r.cached then []
    else
      [⟨.trace, "Resolved domain",
        [("expression", .text (Text.trim text)), ("size", .number d.size)]⟩]
  | .error _ => []

/-- The domain texts of a bucket's unknowns, or `none` if its bundle is missing. One copy stands for
all, since the others bring no new text. -/
def bucketTexts (m : Model) (b : Bucket) : List (Option String) :=
  match m.bundle? b.bundle with
  | none => [none]
  | some bundle => if b.size = 0 then [] else bundle.singletons.map fun s => some s.domain

/-- The domain texts of a model's unknowns in order, with `none` where a bundle is missing. -/
def domainTexts (m : Model) : List (Option String) :=
  (m.singletons.map fun s => some s.domain) ++
    (m.aggregates.flatMap fun a => a.declarations.map fun d => some d.domain) ++
    m.buckets.flatMap (bucketTexts m)

/-- The events of resolving domain texts up to the first that fails or is missing. -/
def resolutions : Resolver → List (Option String) → List Event
  | r, some text :: texts =>
    resolution r text ++
      match r.resolve text with
      | .ok (_, r) => resolutions r texts
      | .error _ => []
  | _, _ => []

/-- The events of adding a relation to a network. -/
def relation (name : String) (net : Network) (e : ConstraintExpr) : List Event :=
  match net.effectOf name e with
  | .ok (.prune unknown keep) =>
    match net.unknowns[unknown]? with
    | some u =>
      [⟨.trace, "Pruned candidates",
        [("variable", .text u.name), ("before", .number u.candidates.length),
          ("after", .number ((net.prune unknown keep).candidatesOf unknown).length)]⟩]
    | none => []
  | .ok .contradiction => [⟨.debug, "Constant relation is false", [("constraint", .text e.render)]⟩]
  | _ => []

/-- The events of adding a constraint of a model to a network. -/
def constraint (net : Network) : ModelConstraint → List Event
  | .expression name text =>
    textExpansion text ++
      match Network.relationsOf text with
      | .ok relations => narrate (Network.addRelation name) (relation name) net relations
      | .error _ => []
  | .allDifferent _ _ => []

/-- The event that ends the construction of a network. -/
def built (net : Network) (texts : Nat) : Event :=
  ⟨.debug, "Built constraint network",
    [("variables", .number net.unknowns.size), ("constraints", .number net.constraints.size),
      ("domains", .number texts), ("infeasible", .flag net.isInfeasible)]⟩

/-- The events of building the network of a model. -/
def construction (m : Model) : List Event :=
  resolutions (.new m.context) (domainTexts m) ++
    match Builder.declareAll m with
    | .error _ => []
    | .ok b =>
      narrate (Network.addModelConstraint m) constraint b.network m.constraints ++
        match Network.build m with
        | .ok net => [built net b.resolver.cached]
        | .error _ => []

/-- The event of the choice that the next step of a search makes, if it makes one. -/
def choice (net : Network) (s : Search.State) : List Event :=
  match s.stack with
  | [] => []
  | frame :: _ =>
    match Search.nextChoice net frame.unknown frame.assignment frame.remaining s.statistics,
      net.unknowns[frame.unknown]? with
    | (some (position, _), _), some u =>
      [⟨.trace, "Assigning",
        [("variable", .text u.name), ("value", .number position.toInt)]⟩]
    | _, _ => []

/-- The events of the steps of a search. -/
def choices (net : Network) (limit : Option Nat) : Search.Progress → List Event
  | .running s => choice net s ++ choices net limit (Search.step net limit s)
  | _ => []
termination_by p => p.weight net
decreasing_by exact Search.weight_step_lt net limit s

/-- The events of searching a network. -/
def searching (net : Network) (limit : Option Nat) : List Event :=
  if net.isInfeasible then [⟨.debug, "Network is infeasible before search", []⟩]
  else
    (if net.unknowns.isEmpty then []
      else choices net limit (Search.enter net limit 0 .empty [] .zero)) ++
      match Search.search net limit with
      | .ok (found, statistics) =>
        [⟨.debug, "Search finished",
          [("found", .flag found.isSome), ("nodes", .number statistics.nodes),
            ("backtracks", .number statistics.backtracks)]⟩]
      | .error _ => []

/-- The events of solving a model that is valid and has variables. -/
def solvingValid (m : Model) (limit : Option Nat) : List Event :=
  construction m ++
    (match Network.build m with
      | .ok net => searching net limit
      | .error _ => []) ++
    match m.solve limit with
    | .ok result =>
      [⟨.info, "Solve finished",
        [("model", .text m.name), ("status", .text result.status.text),
          ("nodes", .number result.statistics.nodes)]⟩]
    | .error _ => []

/-- The events of solving a model. -/
def solving (m : Model) (limit : Option Nat) : List Event :=
  ⟨.info, "Solving", [("model", .text m.name)]⟩ :: validation m ++
    if !m.validate.isValid then
      [⟨.warn, "Model is invalid",
        [("model", .text m.name), ("errors", .number m.validate.findings.length)]⟩]
    else if m.isEmpty then [⟨.debug, "Model has no variables", []⟩]
    else solvingValid m limit

end FiniteDomain.Journal
