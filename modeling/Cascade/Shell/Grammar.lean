import Cascade.Shell.Lexical

/-!
# Reading shell commands

A script is read one complete command after another, so that a fault keeps
nothing from running that comes on the lines before it.

Commands nest, and each level of them takes a token of its own, so a bound
on the depth is computed from the number of tokens (`depthOf`).
-/

namespace Cascade.Shell

/-- A fault and the line it is on. -/
structure PlacedFault where
  fault : SyntaxFault
  line : Nat
deriving Repr, DecidableEq, Inhabited

/-- What is left to read of a script. -/
abbrev Tokens := List Placed

/-- A computation that reads tokens. -/
abbrev Reader (α : Type) := StateT Tokens (Except PlacedFault) α

/-! ## Tokens -/

/-- The words with a meaning of their own at the start of a command. -/
def reservedWords : List String :=
  ["!", "case", "do", "done", "elif", "else", "esac", "fi", "for", "if", "in", "then", "until",
    "while", "\x7b", "\x7d"]

/-- The reserved word that a token is. -/
def Token.reserved? : Token → Option String
  | .word [.text s false] => if reservedWords.contains s then some s else none
  | _ => none

/-- The direction of a redirection and the descriptor it is about if none is
named. -/
def directionOf? : String → Option (Direction × Nat)
  | "<" => some (.read, 0)
  | "<>" => some (.read, 0)
  | "<&" => some (.share, 0)
  | ">" => some (.write, 1)
  | ">|" => some (.write, 1)
  | ">>" => some (.append, 1)
  | ">&" => some (.share, 1)
  | _ => none

/-- How a fault names a token. -/
def Token.description (t : Token) : String :=
  match t with
  | .word _ =>
    match t.reserved? with
    | some s => "\"" ++ s ++ "\""
    | none => "word"
  | .number _ | .here _ => "redirection"
  | .operator s => if (directionOf? s).isSome then "redirection" else "\"" ++ s ++ "\""
  | .newline => "newline"
  | .finish _ => "end of file"

/-- Whether a list of commands ends before a token. -/
def Token.endsList (t : Token) : Bool :=
  match t with
  | .finish none => true
  | .operator s => s = ")" || s = ";;"
  | t =>
    match t.reserved? with
    | some s => ["do", "done", "elif", "else", "esac", "fi", "then", "\x7d"].contains s
    | none => false

/-! ## Parts of commands -/

/-- The assignment that a word is. -/
def assignment? : Word → Option (String × Word)
  | .text s false :: rest =>
    let name := String.ofList (s.toList.takeWhile (· ≠ '='))
    match s.toList.dropWhile (· ≠ '=') with
    | '=' :: value =>
      if isName name then
        some (name, if value.isEmpty then rest else .text (String.ofList value) false :: rest)
      else none
    | _ => none
  | _ => none

/-- The parts of a simple command. -/
structure Parts where
  assignments : List (String × Word)
  words : List Word
  redirections : List Redirection

/-- A command with redirections. -/
def withRedirections (line : Nat) (c : Command) (rs : List Redirection) : Command :=
  if rs.isEmpty then c else .redirected line c rs

/-- A list of commands as one. -/
def inSequence : List Command → Command
  | [c] => c
  | cs => .sequence cs

/-- More than the depth to which the commands of some tokens can nest. -/
def depthOf (ts : Tokens) : Nat := 8 * (ts.length + 1)

namespace Reader

/-! ## Reading single tokens -/

/-- The fault of the next token, which does not fit. -/
def refuse {α : Type} (expected : Option String) : Reader α := do
  match ← get with
  | [] => throw ⟨.unexpected "end of file" expected, 1⟩
  | ⟨.finish (some fault), line⟩ :: _ => throw ⟨fault, line⟩
  | ⟨t, line⟩ :: _ => throw ⟨.unexpected t.description expected, line⟩

/-- The fault of a loop over words without a name. -/
def refuseVariable {α : Type} : Reader α := do
  throw ⟨.badLoopVariable, ((← get).head?.map (·.line)).getD 1⟩

/-- The next token. -/
def peek : Reader (Option Token) := return (← get).head?.map (·.token)

/-- Pass over a token. -/
def skip : Reader Unit := modify List.tail

/-- Pass over the next token if it is some operator. -/
def skipOperator (operator : String) : Reader Bool := do
  match ← peek with
  | some (.operator s) =>
    if s = operator then
      skip
      return true
    return false
  | _ => return false

/-- The reserved word that comes next. -/
def reserved? : Reader (Option String) := return (← peek).bind (·.reserved?)

/-- Pass over the next token if it is some reserved word. -/
def skipReserved (word : String) : Reader Bool := do
  if (← reserved?) = some word then
    skip
    return true
  return false

/-- Pass over newlines. -/
def skipNewlines : Reader Unit :=
  modify (·.dropWhile fun p => match p.token with
    | .newline => true
    | _ => false)

/-- Pass over an operator that has to come. -/
def expectOperator (operator : String) : Reader Unit := do
  if !(← skipOperator operator) then refuse (some ("\"" ++ operator ++ "\""))

/-- Pass over a reserved word that has to come. -/
def expectReserved (word : String) : Reader Unit := do
  if !(← skipReserved word) then refuse (some ("\"" ++ word ++ "\""))

/-! ## Reading simple commands -/

/-- Read a redirection, if there is one. -/
def redirection? : Reader (Option Redirection) := do
  let number? ← match ← peek with
    | some (.number n) => do
      skip
      pure (some n)
    | _ => pure none
  match ← peek with
  | some (.here w) =>
    skip
    return some ⟨number?.getD 0, .here, w⟩
  | some (.operator s) =>
    match directionOf? s with
    | none => return none
    | some (direction, usual) =>
      skip
      match ← peek with
      | some (.word w) =>
        skip
        return some ⟨number?.getD usual, direction, w⟩
      | _ => refuse none
  | _ => return none

/-- Read at most `limit` redirections. -/
def redirections : Nat → Reader (List Redirection)
  | 0 => return []
  | limit + 1 => do
    match ← redirection? with
    | none => return []
    | some r => return r :: (← redirections limit)

/-- Read at most `limit` more parts of a simple command. -/
def parts : Nat → Parts → Reader Parts
  | 0, p => return p
  | limit + 1, p => do
    match ← redirection? with
    | some r => parts limit { p with redirections := p.redirections ++ [r] }
    | none =>
      match ← peek with
      | some (.word w) =>
        skip
        match p.words, assignment? w with
        | [], some a => parts limit { p with assignments := p.assignments ++ [a] }
        | _, _ => parts limit { p with words := p.words ++ [w] }
      | _ => return p

/-- The line of the next token. -/
def currentLine : Reader Nat := return ((← get).head?.map (·.line)).getD 1

/-- Read a simple command. -/
def simpleCommand : Reader Command := do
  let line ← currentLine
  let p ← parts (← get).length ⟨[], [], []⟩
  if p.assignments.isEmpty && p.words.isEmpty && p.redirections.isEmpty then refuse none
  return withRedirections line (.simple line p.assignments p.words) p.redirections

/-- Read at most `limit` words. -/
def wordsOfLine : Nat → Reader (List Word)
  | 0 => return []
  | limit + 1 => do
    match ← peek with
    | some (.word w) =>
      skip
      return w :: (← wordsOfLine limit)
    | _ => return []

/-- Read at most `limit` patterns of a case and the parenthesis behind
them. -/
def patterns : Nat → Reader (List Word)
  | 0 => refuse none
  | limit + 1 => do
    match ← peek with
    | some (.word w) =>
      skip
      if ← skipOperator "|" then return w :: (← patterns limit)
      expectOperator ")"
      return [w]
    | _ => refuse (some "\")\"")

/-- Pass over the start of a function, and answer its name. -/
def functionName? : Reader (Option String) := do
  match ← get with
  | ⟨.word [.text name false], _⟩ :: ⟨.operator "(", _⟩ :: rest =>
    set rest
    let line ← currentLine
    expectOperator ")"
    if !isName name then throw ⟨.badFunctionName, line⟩
    return some name
  | _ => return none

/-! ## Reading commands -/

mutual

/-- Read commands up to a token that ends the list, or up to the end of the
line if `oneLine` holds. -/
def commandList (oneLine : Bool) : Nat → Reader (List Command)
  | 0 => refuse none
  | depth + 1 => do
    if !oneLine then skipNewlines
    match ← peek with
    | none | some .newline => return []
    | some t => if t.endsList then return []
    let c ← conjunctions depth
    match ← peek with
    | some (.operator ";") =>
      skip
      return c :: (← commandList oneLine depth)
    | some (.operator "&") =>
      skip
      return .background c :: (← commandList oneLine depth)
    | some .newline => if oneLine then return [c] else return c :: (← commandList oneLine depth)
    | _ => return [c]

/-- Read pipelines that depend on each other's success. -/
def conjunctions : Nat → Reader Command
  | 0 => refuse none
  | depth + 1 => do moreConjunctions (← pipeline depth) depth

/-- Read what follows a pipeline. -/
def moreConjunctions (c : Command) : Nat → Reader Command
  | 0 => refuse none
  | depth + 1 => do
    if ← skipOperator "&&" then
      skipNewlines
      moreConjunctions (.conjunction c (← pipeline depth)) depth
    else if ← skipOperator "||" then
      skipNewlines
      moreConjunctions (.disjunction c (← pipeline depth)) depth
    else return c

/-- Read a pipeline. -/
def pipeline : Nat → Reader Command
  | 0 => refuse none
  | depth + 1 => do
    if ← skipReserved "!" then return .negation (← pipeline depth)
    let c ← command depth
    if ← skipOperator "|" then
      skipNewlines
      return .pipe c (← pipeline depth)
    return c

/-- Read a list of commands that must not be empty.  At the end of the
script the fault is what is missing behind the list. -/
def body : Nat → Reader Command
  | 0 => refuse none
  | depth + 1 => do
    let cs ← commandList false depth
    match cs, ← peek with
    | [], some (.finish none) => return .sequence []
    | [], _ => refuse none
    | cs, _ => return inSequence cs

/-- Read the commands of a loop. -/
def loopBody : Nat → Reader Command
  | 0 => refuse none
  | depth + 1 => do
    expectReserved "do"
    let c ← body depth
    expectReserved "done"
    return c

/-- Read what follows the word that starts a branch. -/
def branches : Nat → Reader Command
  | 0 => refuse none
  | depth + 1 => do
    let condition ← body depth
    expectReserved "then"
    let yes ← body depth
    if ← skipReserved "elif" then return .branch condition yes (← branches depth)
    let no ← if ← skipReserved "else" then body depth else pure (.sequence [])
    expectReserved "fi"
    return .branch condition yes no

/-- Read the cases of a choice and the word that ends it. -/
def cases : Nat → Reader (List (List Word × Command))
  | 0 => refuse none
  | depth + 1 => do
    skipNewlines
    if ← skipReserved "esac" then return []
    discard (skipOperator "(")
    let ws ← patterns (← get).length
    let c := inSequence (← commandList false depth)
    if ← skipOperator ";;" then return (ws, c) :: (← cases depth)
    if ← skipReserved "esac" then return [(ws, c)]
    refuse (some "\";;\"")

/-- Read a loop over words. -/
def wordLoop : Nat → Reader Command
  | 0 => refuse none
  | depth + 1 => do
    match ← peek with
    | some (.word [.text name false]) =>
      if !isName name then refuseVariable
      skip
      skipNewlines
      let isGiven ← skipReserved "in"
      let words ← if isGiven then some <$> wordsOfLine (← get).length else pure none
      let isEnded ← skipOperator ";"
      match ← peek with
      | some .newline => skipNewlines
      | _ => if isGiven && !isEnded then refuse none
      return .each name words (← loopBody depth)
    | _ => refuseVariable

/-- Read a command that is not simple, if the next token starts one. -/
def compound? : Nat → Reader (Option Command)
  | 0 => refuse none
  | depth + 1 => do
    if ← skipOperator "(" then
      let c ← body depth
      expectOperator ")"
      return some (.subshell c)
    match ← reserved? with
    | none | some "in" => return none
    | some "\x7b" =>
      skip
      let c ← body depth
      expectReserved "\x7d"
      return some c
    | some "if" =>
      skip
      return some (← branches depth)
    | some "while" =>
      skip
      let condition ← body depth
      return some (.loop true condition (← loopBody depth))
    | some "until" =>
      skip
      let condition ← body depth
      return some (.loop false condition (← loopBody depth))
    | some "for" =>
      skip
      return some (← wordLoop depth)
    | some "case" =>
      skip
      match ← peek with
      | some (.word w) =>
        skip
        skipNewlines
        expectReserved "in"
        return some (.choice w (← cases depth))
      | _ => refuse (some "word")
    | some _ => refuse none

/-- Read a command. -/
def command : Nat → Reader Command
  | 0 => refuse none
  | depth + 1 => do
    if let some name := ← functionName? then
      skipNewlines
      return .function name (← command depth)
    let line ← currentLine
    match ← compound? depth with
    | some c => return withRedirections line c (← redirections (← get).length)
    | none => simpleCommand

end

/-- Read the commands of one line.  At the end of the script there are
none. -/
def nextCommand? : Reader (Option Command) := do
  skipNewlines
  match ← get with
  | [] | [⟨.finish none, _⟩] => return none
  | ts =>
    let cs ← commandList true (depthOf ts)
    match ← peek with
    | none | some (.finish none) | some .newline => return some (inSequence cs)
    | some _ => refuse none

end Reader

end Cascade.Shell
