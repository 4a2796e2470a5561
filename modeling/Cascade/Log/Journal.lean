import Cascade.Log
import Cascade.Text.Quoted

/-!
# The journal of a dependency

All that is said about the action on one dependency is collected in its
journal, to be shown if the action fails.  A verbose journal forwards each
line to the log as well.
-/

namespace Cascade.Log

/-- The lines that were said about a dependency. -/
structure Journal where
  dependency : String
  verbose : Bool
  content : String
deriving Repr, DecidableEq

/-- A line for a journal. -/
inductive Remark where
  | info (text : String)
  | warn (text : String)
  /-- A line that a command wrote to one of its output streams. -/
  | output (stream text : String)
deriving Repr, DecidableEq

namespace Remark

/-- Where a line comes from. -/
def label : Remark → String
  | .info _ => "info"
  | .warn _ => "warn"
  | .output stream _ => stream

/-- The line itself. -/
def text : Remark → String
  | .info text | .warn text | .output _ text => text

/-- The log entry of a line about a dependency. -/
def entry (dependency : String) : Remark → Entry
  | .info text => .info .output text [.shown "dependency" dependency]
  | .warn text => .warn .output text [.shown "dependency" dependency]
  | .output stream text =>
    .info .output text [.shown "dependency" dependency, .text "stream" stream]

end Remark

namespace Journal

/-- An empty journal. -/
def new (dependency : String) (verbose : Bool) : Journal := ⟨dependency, verbose, ""⟩

/-- Add a line. -/
def add (j : Journal) (r : Remark) : Journal :=
  { j with content := j.content ++ "[" ++ r.label ++ "] " ++ r.text ++ "\n" }

/-- What a line adds to the log. -/
def forwarded (j : Journal) (r : Remark) : List Entry :=
  if j.verbose then [r.entry j.dependency] else []

/-- A short description, which leaves out the content. -/
def summary (j : Journal) : String :=
  "DependencyLogger \x7b dependency: " ++ Text.quoted j.dependency ++ ", verbose: " ++
    toString j.verbose ++ ", .. \x7d"

end Journal

end Cascade.Log
