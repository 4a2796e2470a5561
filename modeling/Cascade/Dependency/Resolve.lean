import Cascade.Dependency.Basic
import Cascade.Graph.Basic

/-!
# Resolving dependencies

Resolving follows the declarations of the root project into the directory
of each dependency, whose own configuration declares further ones.  A
directory is one node however often it is reached, and its configuration
is read when it is reached first.

A declaration that would close a cycle is an error, or is passed over if
cycles are allowed.
-/

namespace Cascade

/-- A graph of dependencies. -/
abbrev DependencyGraph := Graph Dependency

namespace DependencyGraph

/-- The ID of the root, which is no spelling of a directory. -/
def rootId : String := "__root__"

end DependencyGraph

/-- What resolving starts from. -/
structure Resolver where
  root : Path
  config : Config
  allowCyclic : Bool

namespace Resolver

variable {φ : Type} [FileSystem φ]

/-- What has been resolved so far, and what there is to log about it. -/
structure Draft where
  graph : DependencyGraph
  log : List Log.Entry

/-- The draft of a project without dependencies. -/
def Draft.empty : Draft := ⟨Graph.new DependencyGraph.rootId, []⟩

/-- A change of a draft that may fail.  A failure keeps what was logged. -/
abbrev Drafting (α : Type) := ExceptT Error (StateM Draft) α

/-- The directory that a declaration means. -/
def locate (files : φ) (directory : Path) (name : String) (d : Declaration) :
    Except Error Path :=
  let declared := directory.join d.path
  (FileSystem.canonical files declared).mapError fun failure =>
    .config ("dependency '" ++ name ++ "': cannot resolve path " ++ declared.text ++ ": " ++
      failure.message)

/-- The dependency in a directory, and whether it is new. -/
def dependencyAt (files : φ) (g : DependencyGraph) (isRoot : Bool) (name : String)
    (d : Declaration) (path : Path) : Except Error (Dependency × Bool) :=
  match (g.find? path.text).bind (·.payload) with
  | some dependency => .ok (dependency, false)
  | none => do
    let config ← Config.loadDirectory files path
    return (← Dependency.new path.text name path config d isRoot, true)

/-- Note in the payloads that `parentId` declares `childId`. -/
def adopt (g : DependencyGraph) (parentId childId : String) : DependencyGraph :=
  if parentId = DependencyGraph.rootId then
    g.modifyPayload childId fun d => { d with isRoot := true }
  else g.modifyPayload parentId (·.addChild childId)

/-- What is logged about a declaration that is passed over. -/
def skippedEntry (name : String) (cycle : List String) : Log.Entry :=
  .warn .resolver "skipping cyclic dependency edge"
    [.shown "dependency" name, .shown "cycle" (" -> ".intercalate cycle)]

/-- What is wrong when dependencies are declared too many levels deep. -/
def tooDeep : Error := .other (.ofText "dependencies are declared too many levels deep")

/-- Resolve the declarations of one configuration, and then those of each
new dependency, at most `depth` configurations deep. -/
def resolveConfig (r : Resolver) (files : φ) :
    Nat → String → Path → Config → Drafting Unit
  | 0, _, _, _ => throw tooDeep
  | depth + 1, parentId, directory, config =>
    config.dependencies.toList.forM fun (name, declaration) => do
      let path ← locate files directory name declaration
      let isRoot := decide (parentId = DependencyGraph.rootId)
      let (dependency, isNew) ←
        dependencyAt files (← get).graph isRoot name declaration path
      match (← get).graph.insert parentId path.text dependency with
      | .error (.cyclic cycle) =>
        if r.allowCyclic then
          modify fun draft => { draft with log := draft.log ++ [skippedEntry name cycle] }
        else throw (.cyclic cycle)
      | .error e => throw e
      | .ok (_, graph) =>
        modify fun draft => { draft with graph := adopt graph parentId path.text }
        if isNew then resolveConfig r files depth path.text path dependency.config

/-- How many configurations deep a project is resolved.  Each directory is
entered once, so that the entries of the file system bound the depth; a
directory of several spellings may be entered once for each of them. -/
def levels (files : φ) : Nat := FileSystem.levels + FileSystem.size files

/-- Resolve all dependencies of the project. -/
def resolveAll (r : Resolver) (files : φ) : Drafting Unit := do
  let root ← (FileSystem.canonical files r.root).mapError Error.other
  r.resolveConfig files (levels files) DependencyGraph.rootId root r.config

/-- Drop the hashes of all dependencies but those of a graph. -/
def refresh (g : DependencyGraph) (s : Stored φ) :
    Except Error (List Log.Entry) × Stored φ :=
  let (result, s) := s.prune g.ids
  let updated : Log.Entry :=
    .info .resolver "updated dependency cache" [.count "dependencies" g.ids.length]
  ((result.map (· ++ [updated])).mapError .other, s)

/-- Resolve the dependencies of the project, and drop the hashes of all
others if `update` holds.  What there is to log is answered in any case. -/
def resolve (r : Resolver) (update : Bool) (s : Stored φ) :
    Except Error DependencyGraph × List Log.Entry × Stored φ :=
  match (r.resolveAll s.files).run.run .empty with
  | (.error e, draft) => (.error e, draft.log, s)
  | (.ok (), draft) =>
    if update then
      match refresh draft.graph s with
      | (.error e, s) => (.error e, draft.log, s)
      | (.ok log, s) => (.ok draft.graph, draft.log ++ log, s)
    else (.ok draft.graph, draft.log, s)

end Resolver

end Cascade
