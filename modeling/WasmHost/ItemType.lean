import WasmHost.Kind

/-!
# Types of importable and exportable items

A module imports and exports functions, globals, memories and tables; an item is any of these. The
types here are plain data. `Signature.text` is the form in which a function type is shown to a
user; `Signature.guestText` is the form the engine uses when two function types disagree.
-/

namespace WasmHost

/-- The kinds a function takes and returns, in order. -/
structure Signature where
  params : List Kind
  results : List Kind
  deriving DecidableEq, Repr, Inhabited

namespace Signature

/-- A parenthesised, comma separated list of kinds. -/
def listText (kinds : List Kind) : String :=
  "(" ++ String.intercalate ", " (kinds.map Kind.text) ++ ")"

/-- Parameters, an arrow, results. -/
def text (s : Signature) : String := listText s.params ++ " -> " ++ listText s.results

/-- One clause of the engine's form of a function type; an empty clause is left out. -/
def clause (word : String) (kinds : List Kind) : String :=
  if kinds.isEmpty then ""
  else " (" ++ word ++ String.join (kinds.map fun k => " " ++ k.text) ++ ")"

/-- The engine's form of a function type. -/
def guestText (s : Signature) : String :=
  "(func" ++ clause "param" s.params ++ clause "result" s.results ++ ")"

end Signature

/-- A global holds a value of the content kind, and may or may not be written. -/
structure GlobalType where
  content : Kind
  writable : Bool
  deriving DecidableEq, Repr, Inhabited

/-- The least size, and the greatest if there is one. -/
structure Limits where
  min : UInt64
  max : Option UInt64
  deriving DecidableEq, Repr, Inhabited

namespace Limits

/-- A size is within the limits. -/
def contains (l : Limits) (size : UInt64) : Bool :=
  l.min ≤ size && l.max.all (size ≤ ·)

/-- How the engine writes limits when two of them disagree. -/
def text (l : Limits) : String :=
  "min: " ++ toString l.min.toNat ++ ", max: " ++
    (match l.max with | some m => toString m.toNat | none => "none")

end Limits

/-- The size of a linear memory in pages; a wide memory is indexed by 64-bit integers, and a shared
one may be used by several threads at once. -/
structure MemoryType where
  limits : Limits
  wide : Bool
  shared : Bool
  deriving DecidableEq, Repr, Inhabited

/-- The size of a table in elements, and the kind of reference it holds. -/
structure TableType where
  element : Kind
  limits : Limits
  deriving DecidableEq, Repr, Inhabited

/-- The four sorts of item. -/
inductive ItemKind where
  | func
  | global
  | memory
  | table
  deriving DecidableEq, Repr, Inhabited

/-- The word for a sort of item. -/
def ItemKind.text : ItemKind → String
  | func => "func"
  | global => "global"
  | memory => "memory"
  | table => "table"

/-- The type of an item. -/
inductive ItemType where
  | func (type : Signature)
  | global (type : GlobalType)
  | memory (type : MemoryType)
  | table (type : TableType)
  deriving DecidableEq, Repr, Inhabited

/-- The sort of item a type describes. -/
def ItemType.kind : ItemType → ItemKind
  | func _ => .func
  | global _ => .global
  | memory _ => .memory
  | table _ => .table

/-- The text that a listing of a module shows for an item. -/
def ItemType.describe : ItemType → String
  | func s => "func " ++ s.text
  | global g => "global " ++ (if g.writable then "Var" else "Const") ++ " " ++ g.content.text
  | memory m => "memory " ++ range m.limits
  | table t => "table " ++ t.element.text ++ " " ++ range t.limits
where
  range (l : Limits) : String :=
    toString l.min.toNat ++ ".." ++
      (match l.max with | some m => "Some(" ++ toString m.toNat ++ ")" | none => "None")

/-- What a module asks for, under a pair of names. -/
structure ImportType where
  module : String
  name : String
  type : ItemType
  deriving DecidableEq, Repr, Inhabited

/-- What a module offers, under a name. -/
structure ExportType where
  name : String
  type : ItemType
  deriving DecidableEq, Repr, Inhabited

end WasmHost
