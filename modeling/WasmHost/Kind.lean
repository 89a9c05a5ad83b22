/-!
# Value kinds

Every value that crosses the boundary between the host and a guest has one of seven kinds. Four
are numbers, one is a vector, and two are references. The text of a kind is the word that every
message and every signature uses for it.
-/

namespace WasmHost

/-- The kind of a single value. -/
inductive Kind where
  | i32
  | i64
  | f32
  | f64
  | v128
  | funcref
  | externref
  deriving DecidableEq, Repr, Inhabited

namespace Kind

/-- Every kind, numbers first. -/
def all : List Kind := [i32, i64, f32, f64, v128, funcref, externref]

/-- The word for a kind. -/
def text : Kind → String
  | i32 => "i32"
  | i64 => "i64"
  | f32 => "f32"
  | f64 => "f64"
  | v128 => "v128"
  | funcref => "funcref"
  | externref => "externref"

/-- The kind a word stands for. -/
def ofText? (word : String) : Option Kind := all.find? fun k => k.text == word

/-- The integers and the floats. -/
def isNumber : Kind → Bool
  | i32 | i64 | f32 | f64 => true
  | _ => false

/-- Function references and references to host objects. -/
def isReference : Kind → Bool
  | funcref | externref => true
  | _ => false

theorem mem_all (k : Kind) : k ∈ all := by cases k <;> decide

theorem ofText?_text (k : Kind) : ofText? k.text = some k := by cases k <;> decide

end Kind

end WasmHost
