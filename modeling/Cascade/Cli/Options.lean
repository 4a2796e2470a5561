import Cascade.Text.Count

/-!
# Options on a command line

A command line is read from left to right at one level: that of the
program, or that of a verb.  An option has a long name, and may want a
value, which follows behind `=` or as the next word.

A value is checked as late as possible: when the next option or plain word
comes, or at the end of the level.  So a word that is not understood is
reported even if a value before it is bad.
-/

namespace Cascade.Cli

/-- Why a command line is not run. -/
inductive Refusal where
  | help
  | version
  /-- Nothing was asked for. -/
  | nothingAsked
  | noVerb
  | unknownVerb
  | unknownWord
  /-- The value of an option is missing or none of those it may have. -/
  | badChoice
  /-- The value of an option cannot be read. -/
  | badValue
  /-- An option was given twice. -/
  | repeated
  /-- A plain word that is needed is missing. -/
  | missingWord
  /-- A value for an option that takes none. -/
  | needlessValue
deriving Repr, DecidableEq

/-- What an option asks for. -/
inductive Kind where
  | help
  | version
  | switch
  /-- A text, given once. -/
  | text
  /-- Texts, one each time the option is given. -/
  | texts
  /-- One of some words. -/
  | choice (words : List String)
  | count
deriving Repr, DecidableEq

namespace Kind

/-- Whether an option wants a value. -/
def takesValue : Kind → Bool
  | .help | .version | .switch => false
  | _ => true

end Kind

/-- An option: its long name, its letter if it has one, and its kind. -/
structure Opt where
  name : String
  letter : Option Char
  kind : Kind
deriving Repr, DecidableEq

/-- What may stand at a level. -/
structure Level where
  options : List Opt
  /-- The verbs that lead to the next level. -/
  verbs : List String
  /-- The number of plain words that have a place of their own.  If there
  are any, all that follows them belongs together. -/
  words : Nat
deriving Repr, DecidableEq

/-- What has been read at a level. -/
structure Reading where
  /-- The options that were given, with their values. -/
  given : List (String × String)
  /-- An option that is not settled yet, and its value. -/
  pending : Option (Opt × Option String)
  /-- Whether the next word is the value of that option. -/
  awaiting : Bool
  /-- The plain words. -/
  words : List String
  /-- Whether only plain words may follow. -/
  onlyWords : Bool
deriving Repr, DecidableEq

namespace Reading

/-- Nothing has been read. -/
def empty : Reading := ⟨[], none, false, [], false⟩

/-- Whether an option was given. -/
def has (r : Reading) (name : String) : Bool := r.given.any (·.1 = name)

/-- The value of an option, if it was given. -/
def value? (r : Reading) (name : String) : Option String := r.given.lookup name

/-- All values of an option. -/
def values (r : Reading) (name : String) : List String :=
  (r.given.filter (·.1 = name)).map (·.2)

end Reading

/-- Check the value of an option. -/
def checkValue (kind : Kind) (value : String) : Except Refusal Unit :=
  match kind with
  | .choice words => if words.contains value then .ok () else .error .badChoice
  | .count => if (Text.count? value).isSome then .ok () else .error .badValue
  | _ => .ok ()

namespace Reading

/-- Note an option with its value. -/
def note (r : Reading) (o : Opt) (value : String) : Except Refusal Reading := do
  match o.kind with
  | .help => throw .help
  | .version => throw .version
  | .texts => return { r with given := r.given ++ [(o.name, value)] }
  | kind =>
    if r.has o.name then throw .repeated
    checkValue kind value
    return { r with given := r.given ++ [(o.name, value)] }

/-- Settle the option that is pending. -/
def settle (r : Reading) : Except Refusal Reading :=
  match r.pending with
  | none => .ok r
  | some (_, none) => .error .badChoice
  | some (o, some value) => { r with pending := none, awaiting := false }.note o value

end Reading

/-- The form of a word. -/
inductive Shape where
  /-- Two dashes, behind which only plain words follow. -/
  | divider
  | long (name : String) (value : Option String)
  | short (letters : List Char)
  | plain
deriving Repr, DecidableEq

/-- A long option at its first equality sign. -/
def splitValue : List Char → List Char × Option (List Char)
  | [] => ([], none)
  | '=' :: rest => ([], some rest)
  | c :: rest =>
    let (name, value) := splitValue rest
    (c :: name, value)

/-- The form of a word.  A single dash is plain. -/
def shapeOf (word : String) : Shape :=
  match word.toList with
  | ['-', '-'] => .divider
  | '-' :: '-' :: rest =>
    let (name, value) := splitValue rest
    .long (String.ofList name) (value.map String.ofList)
  | '-' :: c :: rest => .short (c :: rest)
  | _ => .plain

namespace Level

/-- Whether any word, dashes or not, may stand next. -/
def isOpen (l : Level) (r : Reading) : Bool := 0 < l.words && l.words ≤ r.words.length

/-- Take a plain word at its place. -/
def place (l : Level) (r : Reading) (word : String) : Except Refusal Reading :=
  if 0 < l.words then do
    let opened := l.isOpen r
    let r ← r.settle
    return { r with words := r.words ++ [word], onlyWords := r.onlyWords || opened }
  else if l.verbs.isEmpty || (r.onlyWords && l.verbs.contains word) then .error .unknownWord
  else .error .unknownVerb

/-- Take a word as the value that is awaited, or at its place. -/
def take (l : Level) (r : Reading) (word : String) : Except Refusal Reading :=
  match r.awaiting, r.pending with
  | true, some (o, _) => .ok { r with pending := some (o, some word), awaiting := false }
  | _, _ => l.place r word

/-- Read a word that is no verb. -/
def read (l : Level) (r : Reading) (word : String) : Except Refusal Reading :=
  if r.onlyWords then l.place r word
  else
    match shapeOf word with
    | .divider => .ok { r with onlyWords := true }
    | .long name value =>
      match l.options.find? (·.name = name) with
      | some o =>
        match o.kind.takesValue, value with
        | true, some value => do (← r.settle).note o value
        | true, none => do return { ← r.settle with pending := some (o, none), awaiting := true }
        | false, some _ => .error .needlessValue
        | false, none => do (← r.settle).note o ""
      | none => if l.isOpen r then l.take r word else .error .unknownWord
    | .short letters =>
      let known (c : Char) : Option Opt := l.options.find? (·.letter = some c)
      if l.isOpen r && letters.any fun c => (known c).isNone then l.take r word
      else
        match letters.head?.bind known with
        | some o => do (← r.settle).note o ""
        | none => .error .unknownWord
    | .plain => l.take r word

/-- Read up to the first verb.  The answer has the verb and the words behind
it. -/
def readAll (l : Level) :
    Reading → List String → Except Refusal (Reading × Option (String × List String))
  | r, [] => .ok (r, none)
  | r, word :: rest =>
    if !r.onlyWords && !r.awaiting && l.verbs.contains word then .ok (r, some (word, rest))
    else do readAll l (← l.read r word) rest

end Level

end Cascade.Cli
