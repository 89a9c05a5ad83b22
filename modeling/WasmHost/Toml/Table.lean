import WasmHost.Document

/-!
# Tables under construction

A TOML text builds one table out of assignments and headers, and forbids that a table is defined
twice. Whether a table may still be extended depends on how it came about, so each table remembers
that while the text is read. `Node.document` forgets it.
-/

namespace WasmHost.Toml

/-- How a table came about. -/
inductive Origin where
  /-- By its own header. -/
  | header
  /-- As the parent of a table that has a header. -/
  | implied
  /-- As the parent in a dotted key. -/
  | dotted
  deriving DecidableEq, Repr

/-- A value, a table that is still open, or a list of such tables. -/
inductive Node where
  | value (value : Document)
  | table (origin : Origin) (entries : List (String × Node))
  /-- The tables of a repeated header, last one first. -/
  | tables (items : List (List (String × Node)))
  deriving Inhabited

/-- The entries of a table, in the order in which they were made. -/
abbrev Entries := List (String × Node)

namespace Entries

/-- Replaces the node under a name, or adds it at the end. -/
def put (entries : Entries) (name : String) (node : Node) : Entries :=
  match entries with
  | [] => [(name, node)]
  | (n, old) :: rest =>
    if n = name then (n, node) :: rest else (n, old) :: put rest name node

/-- Changes the table at the end of a path, making the tables on the way that are missing: as
parents of a dotted key, or of a header. The change is told whether the table it is given was made
by dotted keys. -/
def descend (dotted : Bool) (path : List String) (isDotted : Bool) (entries : Entries)
    (change : Bool → Entries → Option Entries) : Option Entries :=
  match path with
  | [] => change isDotted entries
  | name :: path =>
    match entries.lookup name with
    | none => do
      let inner ← descend dotted path dotted [] change
      return put entries name (.table (if dotted then .dotted else .implied) inner)
    | some (.value _) => none
    | some (.table origin inner) => do
      guard (!dotted || origin ≠ .header)
      let inner ← descend dotted path (origin = .dotted) inner change
      return put entries name (.table origin inner)
    | some (.tables (last :: items)) => do
      let inner ← descend dotted path false last change
      return put entries name (.tables (inner :: items))
    | some (.tables []) => none

/-- Assigns a value under a dotted key. The table it goes to must be the current one, or one made by
dotted keys; the name must be new. -/
def assign (entries : Entries) (path : List String) (name : String) (value : Document) :
    Option Entries :=
  descend true path false entries fun isDotted inner => do
    guard (isDotted ≠ path.isEmpty)
    guard (inner.lookup name).isNone
    return inner ++ [(name, .value value)]

/-- Opens the table of a header. A table that only was a parent of other headers so far is opened
now; any other must be new. -/
def openTable (entries : Entries) (path : List String) (name : String) : Option Entries :=
  descend false path false entries fun _ inner =>
    match inner.lookup name with
    | none => some (inner ++ [(name, .table .header [])])
    | some (.table .implied children) => some (put inner name (.table .header children))
    | some _ => none

/-- Opens one more table of a repeated header. -/
def openRepeated (entries : Entries) (path : List String) (name : String) : Option Entries :=
  descend false path false entries fun _ inner =>
    match inner.lookup name with
    | none => some (inner ++ [(name, .tables [[]])])
    | some (.tables items) => some (put inner name (.tables ([] :: items)))
    | some _ => none

end Entries

mutual

/-- The data of a node. -/
def Node.document : Node → Document
  | .value d => d
  | .table _ entries => .record (documents entries)
  | .tables items => .list (records items)

/-- The data of entries. -/
def documents : List (String × Node) → List (String × Document)
  | [] => []
  | (name, node) :: rest => (name, node.document) :: documents rest

/-- The data of repeated tables, first one first. -/
def records : List (List (String × Node)) → List Document
  | [] => []
  | entries :: rest => records rest ++ [.record (documents entries)]

end

end WasmHost.Toml
