import Cascade.Store.Mode
import Std.Data.TreeMap

/-!
# Configurations

The same kind of configuration describes the project at the root and each
dependency: the dependencies it declares by name, what it does when it is
acted upon, and the hooks that fire around a run.
-/

namespace Cascade

/-- Texts by name, in the order of the names. -/
abbrev Dictionary := Std.TreeMap String String

/-- A declared dependency: where its directory lies, whether its images are
ever built, and the patterns of the files that do not count as content. -/
structure Declaration where
  path : String
  skipBuild : Bool
  hashExclude : List String
deriving Repr, DecidableEq, Inhabited

/-- The scripts that act on a project.  A missing script does nothing. -/
structure Actions where
  build : Option String
  deploy : Option String
  render : Option String
  purge : Option String
deriving Repr, DecidableEq, Inhabited

/-- A command that runs when one of some events fires. -/
structure HookEntry where
  events : List String
  command : String
deriving Repr, DecidableEq, Inhabited

/-- How a run works.  Zero workers stand for one worker per processor. -/
structure Settings where
  maxConcurrency : Nat
  storage : Store.Mode
deriving Repr, DecidableEq, Inhabited

/-- A configuration. -/
structure Config where
  settings : Settings
  dependencies : Std.TreeMap String Declaration
  actions : Actions
  /-- The tags of the images that a build makes. -/
  images : Dictionary
  commands : Dictionary
  hooks : List HookEntry

namespace Config

/-- The name of a configuration file. -/
def fileName : String := "Depdag.toml"

/-- The configuration that says nothing. -/
def empty : Config := ⟨⟨0, .file⟩, ∅, ⟨none, none, none, none⟩, ∅, ∅, []⟩

instance : Inhabited Config := ⟨empty⟩

/-- Whether any dependency is declared. -/
def hasDependencies (c : Config) : Bool := !c.dependencies.isEmpty

end Config

end Cascade
