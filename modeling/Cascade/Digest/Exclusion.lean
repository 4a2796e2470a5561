import Cascade.Error
import Cascade.Glob.Match

/-!
# What does not count as content

Directories of certain names never count, and neither do entries whose
relative path matches one of some patterns.
-/

namespace Cascade

/-- The patterns of the entries that do not count. -/
structure Exclusion where
  patterns : List (List Glob.Token)

namespace Exclusion

/-- The directories that never count, at any depth: version control and the
tool's own state. -/
def directoryNames : List String := [".git", ".depdag"]

/-- Nothing is excluded but those directories. -/
def standard : Exclusion := ⟨[]⟩

/-- Exclude by patterns as well. -/
def ofPatterns (patterns : List String) : Except Failure Exclusion :=
  (Exclusion.mk ·) <$> patterns.mapM fun p =>
    match Glob.parse p with
    | .ok tokens => .ok tokens
    | .error fault =>
      .error <| Failure.within ("invalid hash exclude pattern '" ++ p ++ "'") <|
        .ofText ("error parsing glob '" ++ p ++ "': " ++ fault.message)

/-- Whether a relative path matches a pattern. -/
def isMatch (e : Exclusion) (relative : String) : Bool :=
  e.patterns.any (Glob.isMatch · relative)

/-- Whether an entry does not count. -/
def excludes (e : Exclusion) (relative name : String) (isDirectory : Bool) : Bool :=
  (isDirectory && directoryNames.contains name) || e.isMatch relative

end Exclusion

end Cascade
