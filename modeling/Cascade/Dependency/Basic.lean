import Cascade.Config.Load
import Cascade.Digest.Directory
import Cascade.Store.Basic

/-!
# Resolved dependencies

A dependency is a directory that some configuration declares.  It has its
own configuration, and the declaration through which it was first reached.

`Dependency.prepare` decides whether there is anything to do: there is
nothing to do when the digest of the directory is the one that was
recorded after the last action that succeeded.
-/

namespace Cascade

/-- A resolved dependency.  Its children are named by their IDs. -/
structure Dependency where
  id : String
  name : String
  path : Path
  config : Config
  declaration : Declaration
  exclusion : Exclusion
  /-- Whether the root project declares it. -/
  isRoot : Bool
  children : List String

namespace Dependency

variable {φ : Type} [FileSystem φ]

/-- A dependency without children. -/
def new (id name : String) (path : Path) (config : Config) (declaration : Declaration)
    (isRoot : Bool) : Except Error Dependency := do
  let exclusion ← Config.exclusionOf name declaration
  return ⟨id, name, path, config, declaration, exclusion, isRoot, []⟩

/-- Add a child, once. -/
def addChild (d : Dependency) (child : String) : Dependency :=
  if child ∈ d.children then d else { d with children := d.children ++ [child] }

/-- The digest of the dependency's directory. -/
def directoryHash (d : Dependency) (files : φ) : Except Error String :=
  (Digest.directoryHash files d.path d.exclusion true).mapError .other

/-- The digest to record once an action has succeeded, or `none` if there is
nothing to do. -/
def prepare (d : Dependency) (s : Stored φ) (force : Bool) : Except Error (Option String) := do
  let hash ← d.directoryHash s.files
  if force then return some hash
  let recorded ← (s.store.load s.files d.id).mapError .other
  return if recorded = some hash then none else some hash

/-- Record the digest after which an action succeeded. -/
def recordHash (d : Dependency) (hash : String) (s : Stored φ) : Except Error Unit × Stored φ :=
  let (result, s) := s.save d.id hash
  (result.mapError .other, s)

/-- Forget what was recorded. -/
def forgetHash (d : Dependency) (s : Stored φ) : Except Error Unit × Stored φ :=
  let (result, s) := s.remove d.id
  (result.mapError .other, s)

/-- A short description. -/
def summary (d : Dependency) : String :=
  "Dependency \x7b id: " ++ Text.quoted d.id ++ ", name: " ++ Text.quoted d.name ++
    ", local_path: " ++ Text.quoted d.path.text ++ ", root: " ++ toString d.isRoot ++ ", .. \x7d"

end Dependency

end Cascade
