import Cascade.Config.Basic
import Cascade.Text.Blank

/-!
# The text of stored hashes

A hash is kept on a line of its own behind the ID it belongs to, with a
blank between them.  An ID may hold blanks: the hash is what stands behind
the last blank of a line.  Lines without a blank say nothing, and of
several lines for one ID the last one counts.
-/

namespace Cascade.Store

/-- What stands before and behind the last blank. -/
def splitAtLastBlank (cs : List Char) : Option (List Char × List Char) :=
  match cs.reverse.dropWhile (!Text.isBlank ·) with
  | [] => none
  | _ :: before => some (before.reverse, (cs.reverse.takeWhile (!Text.isBlank ·)).reverse)

/-- The ID and the hash on a line. -/
def entryOfLine (line : List Char) : Option (String × String) :=
  (splitAtLastBlank (Text.trim line)).map fun (id, hash) =>
    (String.ofList (Text.trimEnd id), String.ofList hash)

/-- The hashes that a text holds. -/
def parse (text : String) : Dictionary :=
  ((Text.lines text.toList).filterMap entryOfLine).foldl (fun m (id, hash) => m.insert id hash)
    (∅ : Dictionary)

/-- The text of some hashes, in the order of the IDs. -/
def render (hashes : Dictionary) : String :=
  String.join (hashes.toList.map fun (id, hash) => id ++ " " ++ hash ++ "\n")

end Cascade.Store
