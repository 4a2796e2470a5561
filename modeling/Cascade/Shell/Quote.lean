/-!
# Quoting words for the shell

A word that holds only characters without a meaning of their own is written
as it is.  Any other word is written between single quotes, between which
every character but the quote stands for itself; a quote is written as the
end of one quoted part, a quote behind a backslash, and the start of the
next part.
-/

namespace Cascade.Shell

/-- Whether a character stands for itself anywhere in a word. -/
def isPlain (c : Char) : Bool :=
  c.isAlphanum || ['-', '_', '.', '/', '=', ':', ',', '@', '%', '+'].contains c

/-- The spelling of a character between single quotes. -/
def quotedChar (c : Char) : List Char :=
  if c = '\'' then ['\'', '\\', '\'', '\''] else [c]

/-- The spelling of a word. -/
def quoteChars (word : List Char) : List Char :=
  if !word.isEmpty && word.all isPlain then word
  else ['\''] ++ word.flatMap quotedChar ++ ['\'']

/-- A word as the shell reads it back. -/
def quote (word : String) : String := String.ofList (quoteChars word.toList)

/-- The words behind a script, each behind a space. -/
def appendedWords (words : List String) : String :=
  String.join (words.map fun word => " " ++ quote word)

/-- A script with words behind it. -/
def withArguments (script : String) (words : List String) : String :=
  script ++ appendedWords words

end Cascade.Shell
