/-!
# The verbs

A verb is what a run does to every dependency.  `Verb.direction` says in
which order a run walks the graph for it.
-/

namespace Cascade

/-- The order in which a run walks the dependency graph. -/
inductive Direction where
  /-- Dependencies before their dependents. -/
  | forward
  /-- Dependents before their dependencies. -/
  | reverse
deriving Repr, DecidableEq, Inhabited

/-- What a run does to every dependency. -/
inductive Verb where
  | build
  | deploy
  | render
  | resolve
  | update
  | purge
  | command
deriving Repr, DecidableEq, Inhabited

namespace Verb

/-- Only purging starts with the dependents. -/
def direction : Verb → Direction
  | .purge => .reverse
  | _ => .forward

/-- The name in progress messages, with a capital letter. -/
def title : Verb → String
  | .build => "Build"
  | .deploy => "Deploy"
  | .render => "Render"
  | .resolve => "Resolve"
  | .update => "Update"
  | .purge => "Purge"
  | .command => "Command"

/-- The name in event names, in lower case. -/
def key : Verb → String
  | .build => "build"
  | .deploy => "deploy"
  | .render => "render"
  | .resolve => "resolve"
  | .update => "update"
  | .purge => "purge"
  | .command => "command"

end Verb

end Cascade
