import Cascade.Run.Backend

/-!
# Acting on one dependency

Building and deploying are passed over when nothing has changed since the
digest of the dependency was recorded.  The digest that is recorded after
an action is the one that was taken before it.
-/

namespace Cascade.Action

variable {φ β : Type} [FileSystem φ]

/-- The digest to record once the action has succeeded, if there is
anything to do. -/
def prepare (d : Dependency) (force : Bool) : Task φ β (Option String) :=
  .atomic fun w => (d.prepare w.stored force, w)

/-- Record a digest. -/
def recordHash (d : Dependency) (hash : String) : Task φ β Unit :=
  .atomic fun w =>
    let (result, stored) := d.recordHash hash w.stored
    (result, { w with stored })

/-- Forget what was recorded. -/
def forgetHash (d : Dependency) : Task φ β Unit :=
  .atomic fun w =>
    let (result, stored) := d.forgetHash w.stored
    (result, { w with stored })

/-- Build the images of a dependency, unless that is not wanted. -/
def buildImages (b : Backend φ β) (d : Dependency) (skip : Bool) : Task φ β Dictionary := do
  if skip || d.declaration.skipBuild then
    .remark (.info "skip building images")
    return ∅
  let images ← b.build d
  .atomic fun w => (.ok (), { w with images := w.images.insert d.id images })
  return images

/-- Build a dependency. -/
def build (b : Backend φ β) (force : Bool) (d : Dependency) : Task φ β Unit := do
  match ← prepare d force with
  | none => .remark (.info "dependency unchanged since last build")
  | some hash =>
    discard (buildImages b d false)
    recordHash d hash

/-- How much of a deployment is wanted. -/
structure DeployFlags where
  /-- Deploy even if nothing has changed. -/
  force : Bool
  skipBuild : Bool
  skipDeploy : Bool
  /-- Passed on to the backend. -/
  forceDeploy : Bool
deriving Repr, DecidableEq

/-- Build and deploy a dependency. -/
def deploy (b : Backend φ β) (flags : DeployFlags) (d : Dependency) : Task φ β Unit := do
  match ← prepare d flags.force with
  | none => .remark (.info "dependency unchanged since last deploy")
  | some hash =>
    let images ← buildImages b d flags.skipBuild
    if !flags.skipDeploy then b.deploy d ⟨flags.forceDeploy, images⟩
    recordHash d hash

/-- Build and render a dependency, and pass on what was rendered. -/
def render (b : Backend φ β) (sink : String → Effect φ β Unit) (skipBuild : Bool)
    (d : Dependency) : Task φ β Unit := do
  discard (buildImages b d skipBuild)
  let images ← .inspect fun w => w.imagesOf d.id
  let text ← b.render d images
  .ofEffect (sink text)

/-- Purge a dependency.  A failure is noted but does not count, and what was
recorded is forgotten either way. -/
def purge (b : Backend φ β) (d : Dependency) : Task φ β Unit := do
  match ← (b.purge d).attempt with
  | .ok () => pure ()
  | .error e =>
    .log ⟨.error, .manager, "error purging dependency",
      [.shown "dependency" d.name, .shown "error" e.message]⟩
    .remark (.warn ("Error purging dependency " ++ d.id ++ ": " ++ e.message))
  match ← (forgetHash d).attempt with
  | .ok () => pure ()
  | .error e => .remark (.warn ("Error removing cached hash: " ++ e.message))

end Cascade.Action
