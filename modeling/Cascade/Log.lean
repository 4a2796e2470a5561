import Cascade.Text.Quoted

/-!
# Log entries

The tool reports what it does as log entries: a level, the part of the
tool that speaks (`Topic`), a message and named fields.  Only entries of
level `info` and above are kept.

`Entry.line` is the plain text of an entry.  On the console
(`Entry.consoleLine`) fields that hold plain text are quoted, and control
characters that could drive a terminal are spelled out in the message.
-/

namespace Cascade.Log

/-- How grave an entry is. -/
inductive Level where
  | error
  | warn
  | info
  | debug
  | trace
deriving Repr, DecidableEq, Inhabited

namespace Level

/-- The name of a level as it is printed. -/
def name : Level → String
  | .error => "ERROR"
  | .warn => "WARN"
  | .info => "INFO"
  | .debug => "DEBUG"
  | .trace => "TRACE"

/-- Graver levels have lower numbers. -/
def rank : Level → Nat
  | .error => 1
  | .warn => 2
  | .info => 3
  | .debug => 4
  | .trace => 5

end Level

/-- The parts of the tool that write log entries. -/
inductive Topic where
  | scheduler
  | traversal
  | manager
  | hooks
  | shell
  | output
  | resolver
  | store
deriving Repr, DecidableEq, Inhabited

namespace Topic

/-- The name of a topic in a log filter. -/
def target : Topic → String
  | .scheduler => "depdag::dag::scheduler"
  | .traversal => "depdag::engine::traversal"
  | .manager => "depdag::engine::manager"
  | .hooks => "depdag::engine::hooks"
  | .shell => "depdag::exec::shell"
  | .output => "depdag::dependency::logger"
  | .resolver => "depdag::dependency::resolver"
  | .store => "depdag::cache::store"

end Topic

/-- A named value of an entry.  Plain text is quoted on the console. -/
structure Field where
  name : String
  value : String
  quoted : Bool
deriving Repr, DecidableEq

/-- A field that is printed as it is. -/
def Field.shown (name value : String) : Field := ⟨name, value, false⟩

/-- A field of plain text. -/
def Field.text (name value : String) : Field := ⟨name, value, true⟩

/-- A field that counts. -/
def Field.count (name : String) (n : Nat) : Field := ⟨name, toString n, false⟩

/-- One log entry. -/
structure Entry where
  level : Level
  topic : Topic
  message : String
  fields : List Field
deriving Repr, DecidableEq

namespace Entry

/-- An entry of level `info`. -/
def info (topic : Topic) (message : String) (fields : List Field) : Entry :=
  ⟨.info, topic, message, fields⟩

/-- An entry of level `warn`. -/
def warn (topic : Topic) (message : String) (fields : List Field) : Entry :=
  ⟨.warn, topic, message, fields⟩

/-- The plain text of an entry. -/
def line (e : Entry) : String :=
  e.level.name ++ " " ++ e.message ++
    String.join (e.fields.map fun f => " " ++ f.name ++ "=" ++ f.value)

/-- Spell out a character that could drive a terminal. -/
def tameChar (c : Char) : List Char :=
  let hex (width : Nat) : List Char :=
    let digits := Nat.toDigits 16 c.toNat
    List.replicate (width - digits.length) '0' ++ digits
  if c = '\x1b' || c = '\x07' || c = '\x08' || c = '\x0c' || c = '\x7f' then
    ['\\', 'x'] ++ hex 2
  else if 0x80 ≤ c.toNat && c.toNat ≤ 0x9F then
    ['\\', 'u', Char.ofNat 0x7B] ++ hex 0 ++ [Char.ofNat 0x7D]
  else [c]

/-- The text of an entry on the console. -/
def consoleLine (e : Entry) : String :=
  let field (f : Field) : String :=
    " " ++ f.name ++ "=" ++ (if f.quoted then Text.quoted f.value else f.value)
  e.level.name ++ " " ++ String.ofList (e.message.toList.flatMap tameChar) ++
    String.join (e.fields.map field)

end Entry

end Cascade.Log
