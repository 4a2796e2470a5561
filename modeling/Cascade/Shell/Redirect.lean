import Cascade.Shell.Expand

/-!
# Redirections

A redirection lets a descriptor lead to a file, to a text or to where another
descriptor leads.
-/

namespace Cascade.Shell

/-- The text of a fault that was met opening a file. -/
def openingFault (toRead : Bool) (fault : FileFault) : String :=
  match fault with
  | .notFound | .notADirectory => if toRead then "No such file" else "Directory nonexistent"
  | fault => fault.text

/-- The stream of a file to read. -/
def openToRead (path : String) : Act (Option Stream) := do
  if path = "/dev/null" then return some .null
  match (← get).files.read ⟨path⟩ with
  | .ok bytes => return some (.source (← Act.openSource bytes.data.toList))
  | .error fault =>
    Act.complainAs ("cannot open " ++ path ++ ": " ++ openingFault true fault)
    return none

/-- The stream of a file to write, which is emptied unless it should be kept. -/
def openToWrite (path : String) (keep : Bool) : Act (Option Stream) := do
  match path with
  | "/dev/null" => return some .null
  | "/dev/stdout" => Act.stream? 1
  | "/dev/stderr" => Act.stream? 2
  | _ =>
    let old := (← get).files
    let opened : Except FileFault (TreeFiles × List String) := do
      let files ← old.overwrite ⟨path⟩ fun content => if keep then content else .empty
      let (place, _) ← files.find ⟨path⟩ true
      return (files, place)
    match opened with
    | .ok (files, place) =>
      modify fun m => { m with files }
      return some (.file place)
    | .error fault =>
      Act.complainAs ("cannot create " ++ path ++ ": " ++ openingFault false fault)
      return none

/-- Redirect a descriptor, given the text of the redirection's word.  The
answer tells whether that was possible. -/
def redirect (r : Redirection) (text : String) : Act Bool := do
  let opened (stream? : Option Stream) : Act Bool := do
    if stream?.isSome then Act.point r.descriptor stream?
    return stream?.isSome
  match r.direction with
  | .read => opened (← openToRead text)
  | .write => opened (← openToWrite text false)
  | .append => opened (← openToWrite text true)
  | .here => opened (some (.source (← Act.openSource text.toUTF8.data.toList)))
  | .share =>
    if text = "-" then
      Act.point r.descriptor none
      return true
    match text.toNat? with
    | some n => opened (← Act.stream? n)
    | none =>
      Act.complainAs "Bad fd number"
      return false

/-- Apply redirections one after another; tells whether all were possible. -/
def redirectAll (substitute : String → Act String) : List Redirection → Act Bool
  | [] => return true
  | r :: rs => do
    let text ← valueOf substitute r.word
    if ← redirect r text then redirectAll substitute rs else return false

end Cascade.Shell
