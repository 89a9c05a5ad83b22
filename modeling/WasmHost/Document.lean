/-!
# Documents

The data that configuration text stands for, whichever format it is written in: a tree of records,
lists and plain values. The order of a record's members is kept, and so are repetitions, since it
depends on the reader of a record whether they are errors.
-/

namespace WasmHost

/-- A tree of records and lists. -/
inductive Document where
  | null
  | bool (value : Bool)
  | integer (value : Int)
  | text (value : String)
  | list (items : List Document)
  | record (members : List (String × Document))
  /-- A value of a sort that no setting takes, such as a fraction. -/
  | other
  deriving Repr, Inhabited

namespace Document

/-- A truth value. -/
def bool? : Document → Option Bool
  | bool b => some b
  | _ => none

/-- A text. -/
def text? : Document → Option String
  | text s => some s
  | _ => none

/-- An integer from zero to the greatest of 64 bits. -/
def word? : Document → Option UInt64
  | integer n => if 0 ≤ n ∧ n < (Nat.pow 2 64 : Nat) then some (UInt64.ofNat n.toNat) else none
  | _ => none

/-- Absent values are written as null; anything else must be readable. -/
def optional? {α : Type} (read : Document → Option α) : Document → Option (Option α)
  | null => some none
  | d => (read d).map some

/-- How a format differs from others in the way records and alternatives are read. -/
structure Dialect where
  /-- A list that stands for a record may have more items than the record has members. -/
  surplus : Bool
  /-- What may stand beside the name of an alternative that carries no data. -/
  blank : Document → Bool

/-- The members of a record with the given names: those of a record, in any order, or the items of
a list, in the order of the names. Other members of a record are passed over, but none of the named
ones may be repeated. -/
def named? (dialect : Dialect) (names : List String) : Document →
    Option (List (String × Document))
  | record members =>
    let known := members.filter fun m => names.contains m.1
    if (known.map (·.1)).Nodup then some known else none
  | list items =>
    if dialect.surplus || items.length ≤ names.length then some (names.zip items) else none
  | _ => none

/-- The value of a member, or a default where it is missing. -/
def member {α : Type} (members : List (String × Document)) (name : String) (default : α)
    (read : Document → Option α) : Option α :=
  match members.lookup name with
  | none => some default
  | some d => read d

/-- The name of an alternative: a text, or a record whose only member is blank. -/
def alternative? (dialect : Dialect) : Document → Option String
  | text name => some name
  | record [(name, d)] => if dialect.blank d then some name else none
  | _ => none

end Document

end WasmHost
