import Cascade.Run.World

/-!
# What acts on dependencies

A run never acts on a dependency by itself.  It asks a backend to build,
deploy, render or purge it or to run one of its commands, and tells the
hooks which events fire.
-/

namespace Cascade

/-- How to deploy. -/
structure DeployRequest where
  /-- Deploy even what the backend takes to be deployed. -/
  force : Bool
  /-- The images that were built for the dependency in this run. -/
  images : Dictionary

/-- What acts on a dependency. -/
structure Backend (φ β : Type) where
  /-- Build the dependency; the answer is the images that this made. -/
  build : Dependency → Task φ β Dictionary
  deploy : Dependency → DeployRequest → Task φ β Unit
  /-- Render the dependency, which was built with these images. -/
  render : Dependency → Dictionary → Task φ β String
  purge : Dependency → Task φ β Unit
  /-- Run a command of the dependency with arguments. -/
  command : Dependency → String → List String → Task φ β Unit

/-- What happens when events fire.  The events come with the name of the
dependency they are about, if there is one, and some context. -/
abbrev Hooks (φ β : Type) := List String → Option String → Dictionary → Effect φ β Unit

/-- No hooks. -/
def Hooks.none {φ β : Type} : Hooks φ β := fun _ _ _ => pure ()

end Cascade
