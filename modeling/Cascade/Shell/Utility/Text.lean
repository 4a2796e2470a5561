import Cascade.Shell.Format
import Cascade.Shell.Machine
import Cascade.Shell.Pattern

/-!
# Utilities for text

Programs that print, and programs that pass on lines of their input.  Each
answers its exit status.
-/

namespace Cascade.Shell.Utility

/-- The letters of the options at the front, and the operands behind them. -/
def splitOptions : List String → List Char × List String
  | [] => ([], [])
  | word :: words =>
    if word = "--" then ([], words)
    else
      match word.toList with
      | '-' :: c :: letters =>
        let (more, operands) := splitOptions words
        (c :: letters ++ more, operands)
      | _ => ([], word :: words)

/-- The text of some bytes.  Bytes that are no text stand for characters one
by one. -/
def textOfBytes (bytes : List UInt8) : String :=
  match Text.decode ⟨bytes.toArray⟩ with
  | .ok s => s
  | .error _ => String.ofList (bytes.map fun b => Char.ofNat b.toNat)

/-- The lines of some bytes, without their newlines. -/
def linesOf (bytes : List UInt8) : List (List UInt8) :=
  let pieces := Text.splitAt 0x0A bytes
  if pieces.getLast? = some [] then pieces.dropLast else pieces

/-- Lines with their newlines. -/
def ofLines (lines : List (List UInt8)) : List UInt8 := lines.flatMap (· ++ [0x0A])

/-- Write bytes to the output. -/
def put (bytes : List UInt8) : Act Unit := Act.write 1 ⟨bytes.toArray⟩

/-- Print words.  Escapes have their meaning in them. -/
def echo (words : List String) : Act Nat := do
  let (newline, words) := match words with
    | "-n" :: words => (false, words)
    | words => (true, words)
  let (bytes, ended) := unescaped (" ".intercalate words)
  put (bytes ++ if newline && !ended then [0x0A] else [])
  return 0

/-- Print words with a format. -/
def printf (words : List String) : Act Nat := do
  match if words.head? = some "--" then words.tail else words with
  | [] =>
    Act.complainAs "printf: usage: printf format [arg ...]"
    return 2
  | format :: arguments =>
    let p := printFormat format arguments
    put p.bytes
    for argument in p.faulty do
      Act.complainAs ("printf: " ++ argument ++ ": expected numeric value")
    return if p.faulty.isEmpty then 0 else 1

/-- The bytes of a file, or of the input for a dash.  A fault is reported in
the name of a program. -/
def contentOf (program file : String) : Act (Option (List UInt8)) := do
  if file = "-" then return some (← Act.readAll 0)
  match (← get).files.read ⟨file⟩ with
  | .ok bytes => return some bytes.data.toList
  | .error fault =>
    Act.complain (program ++ ": " ++ file ++ ": " ++ fault.text)
    return none

/-- The bytes of all files together, or of the input if there are none, and
whether all could be read. -/
def contentOfAll (program : String) (files : List String) : Act (List UInt8 × Bool) := do
  let contents ← (if files.isEmpty then ["-"] else files).mapM (contentOf program)
  return (contents.flatMap (·.getD []), contents.all (·.isSome))

/-- Join files. -/
def cat (words : List String) : Act Nat := do
  let (_, files) := splitOptions words
  let (bytes, isWhole) ← contentOfAll "cat" files
  put bytes
  return if isWhole then 0 else 1

/-- Pass on the lines that an expression describes. -/
def grep (words : List String) : Act Nat := do
  let (options, operands) := splitOptions words
  match operands with
  | [] =>
    Act.complain "Usage: grep [OPTION]... PATTERNS [FILE]..."
    return 2
  | pattern :: files =>
    let fold (s : String) : String :=
      if options.contains 'i' then String.ofList (s.toList.map Char.toLower) else s
    let fits (line : String) : Bool :=
      if options.contains 'F' then
        (endsOf (fold line).toList).any (fold pattern).toList.isPrefixOf
      else (Expression.of (fold pattern)).fits (fold line).toList
    let files := if files.isEmpty then ["-"] else files
    let found ← files.mapM fun file => do
      let content? ← contentOf "grep" file
      let chosen := ((linesOf (content?.getD [])).zipIdx 1).filter fun (line, _) =>
        fits (textOfBytes line) != options.contains 'v'
      let isAlone := files.length < 2 || options.contains 'h'
      let label := if isAlone then [] else (file ++ ":").toUTF8.toList
      if options.contains 'q' then pure ()
      else if options.contains 'l' then
        if !chosen.isEmpty then Act.print (file ++ "\n")
      else if options.contains 'c' then
        put (label ++ (toString chosen.length ++ "\n").toUTF8.toList)
      else
        put (ofLines (chosen.map fun (line, n) =>
          let number := if options.contains 'n' then (toString n ++ ":").toUTF8.toList else []
          label ++ number ++ line))
      return (content?.isSome, !chosen.isEmpty)
    return if !found.all (·.1) then 2 else if found.any (·.2) then 0 else 1

/-- Whether one line of bytes comes before or with another. -/
def notAfter : List UInt8 → List UInt8 → Bool
  | [], _ => true
  | _ :: _, [] => false
  | a :: as, b :: bs => a < b || (a = b && notAfter as bs)

/-- The number at the start of a line. -/
def numberAt (line : List UInt8) : Int :=
  match (textOfBytes line).toList.dropWhile isSpace with
  | '-' :: digits => -(Text.decimal (digits.takeWhile Char.isDigit) : Int)
  | digits => (Text.decimal (digits.takeWhile Char.isDigit) : Int)

/-- Keep the first of equal lines that follow each other. -/
def dropRepeated : List (List UInt8) → List (List UInt8)
  | a :: b :: rest =>
    if a = b then dropRepeated (b :: rest) else a :: dropRepeated (b :: rest)
  | lines => lines

/-- Put lines in order. -/
def sort (words : List String) : Act Nat := do
  let (options, files) := splitOptions words
  let (bytes, isWhole) ← contentOfAll "sort" files
  let comesFirst (a b : List UInt8) : Bool :=
    if options.contains 'n' && numberAt a ≠ numberAt b then numberAt a < numberAt b
    else notAfter a b
  let lines := (linesOf bytes).mergeSort comesFirst
  let lines := if options.contains 'r' then lines.reverse else lines
  put (ofLines (if options.contains 'u' then dropRepeated lines else lines))
  return if isWhole then 0 else 2

/-- The number of words in some bytes; `inWord` tells whether one has begun. -/
def wordCount (inWord : Bool) : List UInt8 → Nat
  | [] => 0
  | b :: rest =>
    if b = 0x20 || (0x09 ≤ b && b ≤ 0x0D) then wordCount false rest
    else (if inWord then 0 else 1) + wordCount true rest

/-- Count lines, words and bytes. -/
def wc (words : List String) : Act Nat := do
  let (options, files) := splitOptions words
  let (bytes, isWhole) ← contentOfAll "wc" files
  let counts := [('l', bytes.count 0x0A), ('w', wordCount false bytes), ('c', bytes.length)]
  let shown := counts.filter fun (letter, _) => options.isEmpty || options.contains letter
  let fields := shown.map fun (_, n) => toString n
  let width := if shown.length = 1 then 1
    else if files.isEmpty then 7
    else (toString bytes.length).length
  let padded := fields.map fun s => "".pushn ' ' (width - s.length) ++ s
  Act.print (" ".intercalate (padded ++ files.take 1) ++ "\n")
  return if isWhole then 0 else 1

/-- How many lines are asked for, and the operands. -/
def lineCount (words : List String) : Nat × List String :=
  match words with
  | "-n" :: n :: files => ((Text.count? n).getD 10, files)
  | word :: files =>
    match word.toList with
    | '-' :: 'n' :: digits => ((Text.count? (String.ofList digits)).getD 10, files)
    | '-' :: digits =>
      match Text.count? (String.ofList digits) with
      | some n => (n, files)
      | none => (10, words)
    | _ => (10, words)
  | [] => (10, [])

/-- Pass on the first lines. -/
def head (words : List String) : Act Nat := do
  let (n, files) := lineCount words
  let (bytes, isWhole) ← contentOfAll "head" files
  put (ofLines ((linesOf bytes).take n))
  return if isWhole then 0 else 1

/-- Pass on the last lines. -/
def tail (words : List String) : Act Nat := do
  let (n, files) := lineCount words
  let (bytes, isWhole) ← contentOfAll "tail" files
  let lines := linesOf bytes
  put (ofLines (lines.drop (lines.length - n)))
  return if isWhole then 0 else 1

/-- Count from one number to another. -/
def seq (words : List String) : Act Nat := do
  let (first, last) := match words.map Text.count? with
    | [some last] => (1, last)
    | some first :: some last :: _ => (first, last)
    | _ => (1, 0)
  let lines := (List.range (last + 1 - first)).map fun n => toString (first + n) ++ "\n"
  Act.print (String.join lines)
  return 0

/-- Print the last name of a path. -/
def basename (words : List String) : Act Nat := do
  let names := (Path.mk (words.headD "")).segments.filter (· ≠ "")
  let name := names.getLastD (words.headD "")
  let ending := words.tail.headD ""
  let name := if ending ≠ "" && ending ≠ name && name.endsWith ending then
      String.ofList (name.toList.take (name.length - ending.length))
    else name
  Act.print (name ++ "\n")
  return 0

/-- Print what comes before the last name of a path. -/
def dirname (words : List String) : Act Nat := do
  let path : Path := ⟨words.headD ""⟩
  let above := match path.parent? with
    | some p => if p.text.isEmpty then "." else p.text
    | none => if path.isAbsolute then "/" else "."
  Act.print (above ++ "\n")
  return 0

end Cascade.Shell.Utility
