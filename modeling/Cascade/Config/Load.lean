import Cascade.Config.Check
import Cascade.Files.Basic

/-!
# Loading configurations from files
-/

namespace Cascade.Config

variable {φ : Type} [FileSystem φ]

/-- Load the configuration of a directory.  A directory without a
configuration file has the empty one. -/
def loadDirectory (files : φ) (directory : Path) : Except Error Config :=
  let path := directory.join fileName
  if FileSystem.isFile files path then
    match FileSystem.readText files path with
    | .ok text => parse text
    | .error failure => .error (.other failure)
  else .ok empty

/-- Load the configuration of the project from its file.  A file that cannot
be read is reported by the cause alone. -/
def load (files : φ) (path : Path) : Except Error Config :=
  match FileSystem.readText files path with
  | .ok text => parse text
  | .error failure => .error (.io failure.text)

end Cascade.Config
