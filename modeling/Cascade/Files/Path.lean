import Cascade.Text.Blank

/-!
# Paths

A path is kept as it was spelled.  Two spellings name the same entry when
their components agree: repeated and final slashes and inner dots do not
count, but a leading dot and double dots do.
-/

namespace Cascade

/-- A path as it was spelled. -/
structure Path where
  text : String
deriving Repr, DecidableEq, Inhabited

namespace Path

/-- The pieces between the slashes. -/
def segments (p : Path) : List String := (Text.splitAt '/' p.text.toList).map String.ofList

/-- Whether a path starts at the root. -/
def isAbsolute (p : Path) : Bool := p.text.toList.head? = some '/'

/-- Whether a piece between slashes counts as a component. -/
def isSignificant (segment : String) : Bool := segment ≠ "" && segment ≠ "."

/-- The components of a path.  The root is the component `/`. -/
def components (p : Path) : List String :=
  if p.isAbsolute then "/" :: p.segments.filter isSignificant
  else
    match p.segments with
    | "." :: rest => "." :: rest.filter isSignificant
    | segments => segments.filter isSignificant

/-- Put a path behind another one.  An absolute path replaces it. -/
def join (p : Path) (tail : String) : Path :=
  if (Path.mk tail).isAbsolute then ⟨tail⟩
  else if p.text.isEmpty || p.text.toList.getLast? = some '/' then ⟨p.text ++ tail⟩
  else ⟨p.text ++ "/" ++ tail⟩

/-- The name of a path's last component, unless that is a dot, two dots or
the root. -/
def fileName? (p : Path) : Option String :=
  match p.components.getLast? with
  | some name => if name = "/" || name = "." || name = ".." then none else some name
  | none => none

/-- The path without its last component, as it was spelled.  The root and
the empty path have no parent. -/
def parent? (p : Path) : Option Path :=
  let trimmed := p.segments.reverse.dropWhile (!isSignificant ·)
  match trimmed with
  | [] => if p.isAbsolute || p.components.isEmpty then none else some ⟨""⟩
  | _ :: rest =>
    let kept := rest.dropWhile (!isSignificant ·)
    match kept with
    | [] =>
      if p.isAbsolute then some ⟨"/"⟩
      else if p.components.head? = some "." then some ⟨"."⟩
      else some ⟨""⟩
    | kept => some ⟨"/".intercalate kept.reverse⟩

/-- What is left of a path below a base, if it lies there. -/
def below? (p base : Path) : Option String :=
  let rec strip : List String → List String → Option (List String)
    | [], rest => some rest
    | a :: base, b :: rest => if a = b then strip base rest else none
    | _ :: _, [] => none
  (strip base.components p.components).map ("/".intercalate ·)

end Path

end Cascade
