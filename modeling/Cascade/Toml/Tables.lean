import Cascade.Toml.Value

/-!
# How the tables of a document grow

A document is read line by line into a tree of items.  Each table
remembers how it came to be, because a table may be defined only once:

* a header `[a.b]` defines `b`, and creates `a` implicitly;
* a key `a.b = 1` below a header creates `a` by dots;
* `[[a]]` adds a table to an array of tables, and later headers that go
  through `a` mean its last table.
-/

namespace Cascade.Toml

/-- How a table came to be. -/
inductive Origin where
  | header
  | implicit
  | dotted
deriving Repr, DecidableEq

/-- A part of a document that is being read. -/
inductive Item where
  /-- A value, which is never extended. -/
  | value (v : Value)
  | table (origin : Origin) (entries : List (String × Item))
  /-- An array of tables, the last table apart. -/
  | tables (earlier : List (List (String × Item))) (origin : Origin)
      (last : List (String × Item))

/-- The entries of a table. -/
abbrev Entries := List (String × Item)

namespace Entries

/-- Change the item of a key, or add it at the end. -/
def put (k : String) (item : Item) : Entries → Entries
  | [] => [(k, item)]
  | (l, other) :: rest => if k = l then (l, item) :: rest else (l, other) :: put k item rest

/-- Change the table at the end of a path.  Tables that are missing on the
way are created.  A path of a dotted key does not go through tables that a
header has defined. -/
def update (dotted : Bool) (f : Origin → Entries → Option (Origin × Entries)) :
    List String → Origin → Entries → Option (Origin × Entries)
  | [], origin, entries => f origin entries
  | k :: path, origin, entries =>
    match entries.lookup k with
    | none => do
      let (o, es) ← update dotted f path (if dotted then .dotted else .implicit) []
      return (origin, entries.put k (.table o es))
    | some (.table o es) =>
      if dotted && o == .header then none
      else do
        let (o, es) ← update dotted f path o es
        return (origin, entries.put k (.table o es))
    | some (.tables earlier o es) => do
      let (o, es) ← update dotted f path o es
      return (origin, entries.put k (.tables earlier o es))
    | some (.value _) => none

/-- Add a key to a table.  The table must be the one below the header when
the key has no dots, and one created by dots otherwise. -/
def addKey (path : List String) (k : String) (v : Value) (origin : Origin) (entries : Entries) :
    Option (Origin × Entries) :=
  update true (fun o es =>
    if (o == .dotted) == path.isEmpty then none
    else if (es.lookup k).isSome then none
    else some (o, es ++ [(k, .value v)])) path origin entries

/-- Define a table by a header. -/
def defineTable (path : List String) (k : String) (origin : Origin) (entries : Entries) :
    Option (Origin × Entries) :=
  update false (fun o es =>
    match es.lookup k with
    | none => some (o, es ++ [(k, .table .header [])])
    | some (.table .implicit inner) => some (o, es.put k (.table .header inner))
    | some _ => none) path origin entries

/-- Add a table to an array of tables. -/
def appendTable (path : List String) (k : String) (origin : Origin) (entries : Entries) :
    Option (Origin × Entries) :=
  update false (fun o es =>
    match es.lookup k with
    | none => some (o, es ++ [(k, .tables [] .header [])])
    | some (.tables earlier _ last) => some (o, es.put k (.tables (earlier ++ [last]) .header []))
    | some _ => none) path origin entries

end Entries

mutual

/-- The value of an item. -/
def Item.toValue : Item → Value
  | .value v => v
  | .table _ entries => .table (toEntries entries)
  | .tables earlier _ last => .array (toTables earlier ++ [.table (toEntries last)])

/-- The values of the entries of a table. -/
def toEntries : List (String × Item) → List (String × Value)
  | [] => []
  | (k, item) :: rest => (k, item.toValue) :: toEntries rest

/-- The values of some tables. -/
def toTables : List (List (String × Item)) → List Value
  | [] => []
  | entries :: rest => .table (toEntries entries) :: toTables rest

end

end Cascade.Toml
