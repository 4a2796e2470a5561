/-!
# Shell commands

The commands of the shell language, and the words that they are made of.  A
word is a list of pieces.  The pieces of a word remember whether they were
quoted, because only the value of an unquoted piece is split into fields and
matched against the names of files.

The script of a substitution is kept as text, and is read when its value is
asked for.
-/

namespace Cascade.Shell

/-- What is asked of a parameter.  `orEmpty` tells whether an empty value
counts as no value. -/
inductive Query where
  | value
  | length
  /-- Another word in place of no value. -/
  | orWord (orEmpty : Bool)
  /-- Another word in place of no value, which becomes the value. -/
  | orAssign (orEmpty : Bool)
  /-- It is a fault to have no value. -/
  | orFault (orEmpty : Bool)
  /-- Another word in place of any value. -/
  | andWord (orEmpty : Bool)
  /-- The value without its shortest or longest start of some pattern. -/
  | withoutStart (longest : Bool)
  /-- The value without its shortest or longest end of some pattern. -/
  | withoutEnd (longest : Bool)
deriving Repr, DecidableEq, Inhabited

/-- Whether the word of a query is a pattern, so that quotes around the
parameter say nothing about it. -/
def Query.takesPattern : Query → Bool
  | .withoutStart _ | .withoutEnd _ => true
  | _ => false

/-- A piece of a word. -/
inductive Piece where
  | text (text : String) (quoted : Bool)
  | parameter (name : String) (query : Query) (word : List Piece) (quoted : Bool)
  | substitution (script : String) (quoted : Bool)
  | arithmetic (expression : List Piece) (quoted : Bool)
deriving Inhabited

/-- A word. -/
abbrev Word := List Piece

/-- What a redirection does. -/
inductive Direction where
  | read
  | write
  | append
  /-- Share another descriptor, named by the word, or close this one. -/
  | share
  /-- The word itself is the input. -/
  | here
deriving Repr, DecidableEq, Inhabited

/-- A redirection of a descriptor. -/
structure Redirection where
  descriptor : Nat
  direction : Direction
  word : Word
deriving Inhabited

/-- A command. -/
inductive Command where
  /-- Assignments and words, on a line of the script. -/
  | simple (line : Nat) (assignments : List (String × Word)) (words : List Word)
  | redirected (line : Nat) (command : Command) (redirections : List Redirection)
  | sequence (commands : List Command)
  | conjunction (first second : Command)
  | disjunction (first second : Command)
  | negation (command : Command)
  | pipe (first second : Command)
  | subshell (command : Command)
  | background (command : Command)
  | branch (condition yes no : Command)
  /-- Repeat the body as long as the condition succeeds, or fails. -/
  | loop (whileSuccess : Bool) (condition body : Command)
  /-- Repeat the body for each word, or for each argument. -/
  | each (name : String) (words : Option (List Word)) (body : Command)
  | choice (word : Word) (cases : List (List Word × Command))
  | function (name : String) (body : Command)
deriving Inhabited

end Cascade.Shell
