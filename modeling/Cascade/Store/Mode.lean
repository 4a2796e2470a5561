import Cascade.Text.Blank
import Cascade.Text.LowerCase

/-!
# Where hashes are kept
-/

namespace Cascade.Store

/-- Hashes are kept in a file of the project, or only as long as the
process lives. -/
inductive Mode where
  | file
  | memory
deriving Repr, DecidableEq, Inhabited

namespace Mode

/-- The mode with a name, in any case and between blanks; otherwise what is
wrong. -/
def parse (s : String) : Except String Mode :=
  match Text.lowerCase (Text.trimmed s) with
  | "file" => .ok .file
  | "memory" => .ok .memory
  | other =>
    .error ("invalid hash_storage_mode: " ++ other ++ " (expected \"file\" or \"memory\")")

end Mode

end Cascade.Store
