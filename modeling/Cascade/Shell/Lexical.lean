import Cascade.Shell.Syntax
import Cascade.Text.Blank

/-!
# Reading shell words

`Token.read` reads one token off the front of a script: a word, an operator
or the end of a line.  The rules within a word depend on the quotes around
it.  Between single quotes nothing has a meaning; between double quotes and
inside braces expansions are read, but blanks do not end the word.
-/

namespace Cascade.Shell

/-- Why a script cannot be read. -/
inductive SyntaxFault where
  | unterminatedQuote
  | unterminatedBackquote
  | missingBrace
  | badSubstitution
  | badLoopVariable
  | badFunctionName
  /-- Something else than what the grammar asks for. -/
  | unexpected (found : String) (expected : Option String)
deriving Repr, DecidableEq, Inhabited

/-- The text of a fault. -/
def SyntaxFault.text : SyntaxFault → String
  | .unterminatedQuote => "Syntax error: Unterminated quoted string"
  | .unterminatedBackquote => "Syntax error: EOF in backquote substitution"
  | .missingBrace => "Syntax error: Missing '\x7d'"
  | .badSubstitution => "Bad substitution"
  | .badLoopVariable => "Syntax error: Bad for loop variable"
  | .badFunctionName => "Syntax error: Bad function name"
  | .unexpected found expected =>
    let hint := match expected with
      | some what => " (expecting " ++ what ++ ")"
      | none => ""
    "Syntax error: " ++ found ++ " unexpected" ++ hint

/-! ## Characters -/

/-- The character that opens braces. -/
def openBrace : Char := Char.ofNat 0x7B

/-- The character that closes braces. -/
def closeBrace : Char := Char.ofNat 0x7D

/-- Whether a character separates words within a line. -/
def isSpace (c : Char) : Bool := c = ' ' || c = '\t'

/-- Whether a character ends an unquoted word. -/
def isMeta (c : Char) : Bool := isSpace c || ['\n', ';', '&', '|', '<', '>', '(', ')'].contains c

/-- Whether a character can start a name. -/
def isNameStart (c : Char) : Bool := c.isAlpha || c = '_'

/-- Whether a character can stand within a name. -/
def isNameChar (c : Char) : Bool := c.isAlphanum || c = '_'

/-- Whether a text is a name. -/
def isName (s : String) : Bool :=
  match s.toList with
  | c :: rest => isNameStart c && rest.all isNameChar
  | [] => false

/-- Whether a character is the name of a special parameter. -/
def isSpecial (c : Char) : Bool := ['@', '*', '#', '?', '-', '$', '!', '0'].contains c

/-! ## Parts with an end of their own -/

/-- Put a character before a result. -/
def before (c : Char) (r : Option (List Char × List Char)) : Option (List Char × List Char) :=
  r.map fun (taken, rest) => (c :: taken, rest)

/-- What comes before a parenthesis that closes more than `depth` others
have been opened before it, and what comes behind.  Quoted parentheses do not
count; `quote` is the quote that is open. -/
def untilClosing (depth : Nat) (quote : Option Char) : List Char → Option (List Char × List Char)
  | [] => none
  | c :: rest =>
    match quote, c, rest with
    | some q, c, rest =>
      if c = q then before c (untilClosing depth none rest)
      else if c = '\\' && q = '"' then
        match rest with
        | d :: rest => before c (before d (untilClosing depth quote rest))
        | [] => none
      else before c (untilClosing depth quote rest)
    | none, '\\', d :: rest => before '\\' (before d (untilClosing depth none rest))
    | none, c, rest =>
      if c = '\'' || c = '"' then before c (untilClosing depth (some c) rest)
      else if c = '(' then before c (untilClosing (depth + 1) none rest)
      else if c = ')' then
        if depth = 0 then some ([], rest) else before c (untilClosing (depth - 1) none rest)
      else before c (untilClosing depth none rest)

/-- What comes before a closing backquote, without the backslashes that
protect it, and what comes behind. -/
def untilBackquote : List Char → Option (List Char × List Char)
  | [] => none
  | '`' :: rest => some ([], rest)
  | '\\' :: c :: rest =>
    if c = '`' || c = '\\' || c = '$' then before c (untilBackquote rest)
    else before '\\' (before c (untilBackquote rest))
  | c :: rest => before c (untilBackquote rest)

/-- What comes before a quote, and what comes behind. -/
def untilQuote : List Char → Option (List Char × List Char)
  | [] => none
  | '\'' :: rest => some ([], rest)
  | c :: rest => before c (untilQuote rest)

/-- The expression of an arithmetic expansion, given what stands between its
outer parentheses. -/
def arithmeticOf? (inner : List Char) : Option (List Char) :=
  match inner with
  | '(' :: rest =>
    match untilClosing 0 none rest with
    | some (expression, []) => some expression
    | _ => none
  | _ => none

/-! ## Words -/

/-- Put text before the pieces of a word. -/
def addText (s : List Char) (quoted : Bool) (w : Word) : Word :=
  match w with
  | .text t q :: rest =>
    if q = quoted then .text (String.ofList s ++ t) quoted :: rest
    else .text (String.ofList s) quoted :: w
  | w => .text (String.ofList s) quoted :: w

/-- Where a run of pieces ends. -/
inductive Ending where
  /-- At a character that ends an unquoted word. -/
  | word
  | quote
  | brace
  /-- At the end of the input. -/
  | input
deriving Repr, DecidableEq

/-- Whether a character ends a run of pieces. -/
def Ending.isAt (e : Ending) (c : Char) : Bool :=
  match e with
  | .word => isMeta c
  | .quote => c = '"'
  | .brace => c = closeBrace
  | .input => false

/-- What is asked of a parameter, by the characters behind its name. -/
def queryOf? : List Char → Option (Query × List Char)
  | ':' :: '-' :: rest => some (.orWord true, rest)
  | '-' :: rest => some (.orWord false, rest)
  | ':' :: '=' :: rest => some (.orAssign true, rest)
  | '=' :: rest => some (.orAssign false, rest)
  | ':' :: '?' :: rest => some (.orFault true, rest)
  | '?' :: rest => some (.orFault false, rest)
  | ':' :: '+' :: rest => some (.andWord true, rest)
  | '+' :: rest => some (.andWord false, rest)
  | '#' :: '#' :: rest => some (.withoutStart true, rest)
  | '#' :: rest => some (.withoutStart false, rest)
  | '%' :: '%' :: rest => some (.withoutEnd true, rest)
  | '%' :: rest => some (.withoutEnd false, rest)
  | _ => none

/-- The name of a parameter at the front, and what is behind it. -/
def parameterName? (cs : List Char) : Option (String × List Char) :=
  match cs with
  | [] => none
  | c :: rest =>
    if isNameStart c then
      some (String.ofList (cs.takeWhile isNameChar), cs.dropWhile isNameChar)
    else if isSpecial c || c.isDigit then some (c.toString, rest)
    else none

mutual

/-- Read pieces until they end.  The character at the end is left. -/
def readPieces (fuel : Nat) (quoted : Bool) (ending : Ending) (cs : List Char) :
    Except SyntaxFault (Word × List Char) :=
  match fuel with
  | 0 => .error .unterminatedQuote
  | fuel + 1 =>
    let more (piece : Word → Word) (cs : List Char) : Except SyntaxFault (Word × List Char) :=
      (readPieces fuel quoted ending cs).map fun (w, rest) => (piece w, rest)
    match cs with
    | [] =>
      match ending with
      | .word | .input => .ok ([], [])
      | .quote => .error .unterminatedQuote
      | .brace => .error .missingBrace
    | c :: rest =>
      if ending.isAt c then .ok ([], cs)
      else
        match c, rest with
        | '\\', '\n' :: rest => more id rest
        | '\\', d :: rest =>
          let keepsMeaning := ['$', '`', '\\'].contains d || (d = '"' && ending ≠ .input) ||
            (d = closeBrace && ending = .brace)
          if quoted && !keepsMeaning then more (addText ['\\', d] true) rest
          else more (addText [d] true) rest
        | '\'', rest =>
          if quoted then more (addText ['\''] true) rest
          else
            match untilQuote rest with
            | some (text, rest) => more (addText text true) rest
            | none => .error .unterminatedQuote
        | '"', rest =>
          if ending = .input then more (addText ['"'] quoted) rest
          else do
            let (inner, rest) ← readPieces fuel true .quote rest
            more (addText [] true inner ++ ·) rest.tail
        | '`', rest =>
          match untilBackquote rest with
          | some (script, rest) =>
            more (.substitution (String.ofList script) quoted :: ·) rest
          | none => .error .unterminatedBackquote
        | '$', rest => do
          let (piece?, rest) ← readDollar fuel quoted rest
          match piece? with
          | some piece => more (piece :: ·) rest
          | none => more (addText ['$'] quoted) rest
        | c, rest => more (addText [c] quoted) rest

/-- Read what follows a dollar.  Without a meaning it is a dollar. -/
def readDollar (fuel : Nat) (quoted : Bool) (cs : List Char) :
    Except SyntaxFault (Option Piece × List Char) :=
  match fuel with
  | 0 => .error .unterminatedQuote
  | fuel + 1 =>
    match cs with
    | '(' :: rest =>
      match untilClosing 0 none rest with
      | none => .error (.unexpected "end of file" (some "\")\""))
      | some (inner, rest) =>
        match arithmeticOf? inner with
        | some expression => do
          let (w, _) ← readPieces fuel true .input expression
          .ok (some (.arithmetic w quoted), rest)
        | none => .ok (some (.substitution (String.ofList inner) quoted), rest)
    | c :: rest =>
      if c = openBrace then readBraces fuel quoted rest
      else
        match parameterName? cs with
        | some (name, rest) => .ok (some (.parameter name .value [] quoted), rest)
        | none => .ok (none, cs)
    | [] => .ok (none, [])

/-- Read a parameter inside braces. -/
def readBraces (fuel : Nat) (quoted : Bool) (cs : List Char) :
    Except SyntaxFault (Option Piece × List Char) :=
  match fuel with
  | 0 => .error .missingBrace
  | fuel + 1 =>
    let length? := match cs with
      | '#' :: rest =>
        (parameterName? rest).bind fun (name, rest) =>
          if rest.head? = some closeBrace then some (name, rest.tail) else none
      | _ => none
    let name? := match cs with
      | c :: _ =>
        if c.isDigit then
          some (String.ofList (cs.takeWhile Char.isDigit), cs.dropWhile Char.isDigit)
        else parameterName? cs
      | [] => none
    match length?, name? with
    | some (name, rest), _ => .ok (some (.parameter name .length [] quoted), rest)
    | none, none => .error .badSubstitution
    | none, some (name, rest) =>
      if rest.head? = some closeBrace then
        .ok (some (.parameter name .value [] quoted), rest.tail)
      else
        match queryOf? rest with
        | none => .error (if rest.isEmpty then .missingBrace else .badSubstitution)
        | some (query, rest) => do
          let (word, rest) ← readPieces fuel (quoted && !query.takesPattern) .brace rest
          .ok (some (.parameter name query word quoted), rest.tail)

end

/-- Read an unquoted word. -/
def readWord (cs : List Char) : Except SyntaxFault (Word × List Char) :=
  readPieces (2 * cs.length + 2) false .word cs

/-! ## Tokens -/

/-- A token of a script. -/
inductive Token where
  | word (word : Word)
  /-- The number of a descriptor, right before a redirection. -/
  | number (n : Nat)
  | operator (text : String)
  /-- A redirection of input to a text within the script. -/
  | here (word : Word)
  | newline
  /-- The end of the script, or of what can be read of it. -/
  | finish (fault : Option SyntaxFault)
deriving Inhabited

/-- The operators, longer ones before those that they start with. -/
def operators : List String :=
  ["<<-", "&&", "||", ";;", ">>", "<<", ">&", "<&", ">|", "<>", ";", "&", "|", "<", ">", "(", ")"]

/-- The text of a word without quotes, up to a newline. -/
def plainText (w : Word) : String :=
  String.join (w.map fun
    | .text s _ => s
    | _ => "")

/-- Whether a word holds a quoted piece. -/
def hasQuoted (w : Word) : Bool :=
  w.any fun
    | .text _ quoted => quoted
    | _ => false

/-- The lines before the one that is `delimiter`, and the lines behind it. -/
def untilLine (delimiter : List Char) (clean : List Char → List Char) :
    List (List Char) → List (List Char) × List (List Char)
  | [] => ([], [])
  | line :: lines =>
    if clean line = delimiter then ([], lines)
    else
      let (inner, rest) := untilLine delimiter clean lines
      (clean line :: inner, rest)

/-- Read a text within the script, which begins on the next line. -/
def readHere (dropTabs : Bool) (cs : List Char) : Except SyntaxFault (Token × List Char) := do
  let (delimiter, rest) ← readWord (cs.dropWhile isSpace)
  let clean (line : List Char) : List Char := if dropTabs then line.dropWhile (· = '\t') else line
  let line := rest.takeWhile (· ≠ '\n')
  let lines := Text.splitAt '\n' (rest.dropWhile (· ≠ '\n')).tail
  let (inner, behind) := untilLine (plainText delimiter).toList clean lines
  let text := inner.flatMap (· ++ ['\n'])
  let rest := line ++ '\n' :: List.intercalate ['\n'] behind
  if hasQuoted delimiter then .ok (.here [.text (String.ofList text) true], rest)
  else
    let (w, _) ← readPieces (2 * text.length + 2) true .input text
    .ok (.here w, rest)

/-- What is left behind blanks, comments and continued lines. -/
def skipBlanks : List Char → List Char
  | '\\' :: '\n' :: rest => skipBlanks rest
  | c :: rest =>
    if isSpace c then skipBlanks rest
    else if c = '#' then rest.dropWhile (· ≠ '\n')
    else c :: rest
  | [] => []

/-- Read the next token. -/
def Token.read (cs : List Char) : Except SyntaxFault (Option Token × List Char) :=
  let cs := skipBlanks cs
  let digits := cs.takeWhile Char.isDigit
  let behind := cs.dropWhile Char.isDigit
  match cs with
  | [] => .ok (none, [])
  | '\n' :: rest => .ok (some .newline, rest)
  | _ =>
    if digits.length = 1 && (behind.head? = some '<' || behind.head? = some '>') then
      .ok (some (.number ((digits.headD '0').toNat - '0'.toNat)), behind)
    else
      match operators.find? fun o => o.toList.isPrefixOf cs with
      | some "<<" => (readHere false (cs.drop 2)).map fun (t, rest) => (some t, rest)
      | some "<<-" => (readHere true (cs.drop 3)).map fun (t, rest) => (some t, rest)
      | some o => .ok (some (.operator o), cs.drop o.length)
      | none => (readWord cs).map fun (w, rest) => (some (.word w), rest)

/-- A token and the number of its line. -/
structure Placed where
  token : Token
  line : Nat
deriving Inhabited

/-- The tokens of a script whose first character is on line `line`. -/
def tokensFrom (fuel : Nat) (line : Nat) (cs : List Char) : List Placed :=
  match fuel with
  | 0 => []
  | fuel + 1 =>
    match Token.read cs with
    | .error fault => [⟨.finish (some fault), line⟩]
    | .ok (none, _) => [⟨.finish none, line⟩]
    | .ok (some token, rest) =>
      let next := line + (cs.count '\n' - rest.count '\n')
      let start := match token with
        | .newline => next - 1
        | _ => line
      ⟨token, start⟩ :: tokensFrom fuel next rest

/-- The tokens of a script. -/
def tokens (script : String) : List Placed :=
  tokensFrom (script.toList.length + 1) 1 script.toList

end Cascade.Shell
