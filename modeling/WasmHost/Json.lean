import WasmHost.Document
import WasmHost.Text.Integer

/-!
# Documents as JSON text

`Json.read?` takes exactly one document with blanks around it. Numbers without fraction and exponent
are integers, except for `-0`; all others are read and not kept. `Json.write` is the compact form.
-/

namespace WasmHost.Json

/-- Blanks between tokens. -/
def isBlank (c : Char) : Bool := c = ' ' || c = '\n' || c = '\t' || c = '\r'

/-- The text from its first character that is no blank. -/
def skipBlanks (cs : List Char) : List Char := cs.dropWhile isBlank

/-! ## Strings -/

/-- The character a backslash makes of another one. -/
def escaped? : Char → Option Char
  | '"' => some '"'
  | '\\' => some '\\'
  | '/' => some '/'
  | 'b' => some '\x08'
  | 'f' => some '\x0c'
  | 'n' => some '\n'
  | 'r' => some '\r'
  | 't' => some '\t'
  | _ => none

/-- The numbers of the characters up to the closing quote, and the text behind it. Escapes may give
halves of pairs. -/
def stringCodes : List Char → Option (List Nat × List Char)
  | [] => none
  | '"' :: rest => some ([], rest)
  | '\\' :: 'u' :: a :: b :: c :: d :: rest => do
    let code := ((← Text.hexDigit? a) * 16 + (← Text.hexDigit? b)) * 256 +
      ((← Text.hexDigit? c) * 16 + (← Text.hexDigit? d))
    let (codes, rest) ← stringCodes rest
    return (code :: codes, rest)
  | '\\' :: c :: rest => do
    let e ← escaped? c
    let (codes, rest) ← stringCodes rest
    return (e.toNat :: codes, rest)
  | c :: rest => do
    guard (' ' ≤ c ∧ c ≠ '\\')
    let (codes, rest) ← stringCodes rest
    return (c.toNat :: codes, rest)

/-- The first half of a pair. -/
def isLeading (code : Nat) : Bool := 0xd800 ≤ code && code < 0xdc00

/-- The second half of a pair. -/
def isTrailing (code : Nat) : Bool := 0xdc00 ≤ code && code < 0xe000

/-- Joins pairs; `none` if a half stands alone. -/
def joinPairs : List Nat → Option (List Char)
  | [] => some []
  | a :: rest =>
    if isLeading a then
      match rest with
      | b :: rest =>
        if isTrailing b then
          (joinPairs rest).map (Char.ofNat (0x10000 + (a - 0xd800) * 0x400 + (b - 0xdc00)) :: ·)
        else none
      | [] => none
    else if isTrailing a then none
    else (joinPairs rest).map (Char.ofNat a :: ·)

/-- The content of a string whose opening quote has been read: `none` inside if it is no text. -/
def string? (cs : List Char) : Option (Option String × List Char) := do
  let (codes, rest) ← stringCodes cs
  return ((joinPairs codes).map String.ofList, rest)

/-! ## Numbers -/

/-- A decimal digit. -/
def isDigit (c : Char) : Bool := '0' ≤ c && c ≤ '9'

/-- The value of a run of digits. -/
def digitsValue (cs : List Char) : Nat :=
  cs.foldl (fun acc c => 10 * acc + (c.toNat - '0'.toNat)) 0

/-- A run of digits that does not start with a zero unless it is one. -/
def whole? (cs : List Char) : Option (List Char × List Char) :=
  match cs with
  | '0' :: rest => some (['0'], rest)
  | _ =>
    let digits := cs.takeWhile isDigit
    if digits.isEmpty then none else some (digits, cs.dropWhile isDigit)

/-- Passes over a non-empty run of digits. -/
def digits? (cs : List Char) : Option (List Char) :=
  if (cs.takeWhile isDigit).isEmpty then none else some (cs.dropWhile isDigit)

/-- Passes over a fraction, if there is one; says whether there was. -/
def fraction? : List Char → Option (Bool × List Char)
  | '.' :: rest => (digits? rest).map fun rest => (true, rest)
  | cs => some (false, cs)

/-- Passes over an exponent, if there is one; says whether there was. -/
def exponent? (cs : List Char) : Option (Bool × List Char) :=
  let afterSign : List Char → List Char
    | '+' :: rest => rest
    | '-' :: rest => rest
    | cs => cs
  match cs with
  | 'e' :: rest => (digits? (afterSign rest)).map fun rest => (true, rest)
  | 'E' :: rest => (digits? (afterSign rest)).map fun rest => (true, rest)
  | cs => some (false, cs)

/-- The document a number stands for. -/
def numberOf (negative : Bool) (digits : List Char) (inexact : Bool) : Document :=
  let value := digitsValue digits
  if inexact || (negative && value = 0) then .other
  else .integer (if negative then -value else value)

/-- A number, behind its sign. -/
def number? (negative : Bool) (cs : List Char) : Option (Document × List Char) := do
  let (digits, rest) ← whole? cs
  let (hasFraction, rest) ← fraction? rest
  let (hasExponent, rest) ← exponent? rest
  return (numberOf negative digits (hasFraction || hasExponent), rest)

/-! ## Documents -/

/-- A record, unless one of its names is no text. -/
def recordOf (members : List (Option String × Document)) : Document :=
  match members.mapM fun m => m.1.map fun name => (name, m.2) with
  | some members => .record members
  | none => .other

mutual

/-- One document and the text behind it. `fuel` bounds the number of nested and listed documents. -/
def document? (fuel : Nat) (cs : List Char) : Option (Document × List Char) :=
  match fuel with
  | 0 => none
  | fuel + 1 =>
    match skipBlanks cs with
    | 'n' :: 'u' :: 'l' :: 'l' :: rest => some (.null, rest)
    | 't' :: 'r' :: 'u' :: 'e' :: rest => some (.bool true, rest)
    | 'f' :: 'a' :: 'l' :: 's' :: 'e' :: rest => some (.bool false, rest)
    | '"' :: rest => (string? rest).map fun (s, rest) =>
        (match s with | some s => .text s | none => .other, rest)
    | '[' :: rest =>
      match skipBlanks rest with
      | ']' :: rest => some (.list [], rest)
      | rest => (items? fuel rest).map fun (ds, rest) => (.list ds, rest)
    | '\x7b' :: rest =>
      match skipBlanks rest with
      | '\x7d' :: rest => some (.record [], rest)
      | rest => (members? fuel rest).map fun (ms, rest) => (recordOf ms, rest)
    | '-' :: rest => number? true rest
    | rest => number? false rest

/-- The items of a list up to its closing bracket. -/
def items? (fuel : Nat) (cs : List Char) : Option (List Document × List Char) :=
  match fuel with
  | 0 => none
  | fuel + 1 =>
    match document? fuel cs with
    | none => none
    | some (d, rest) =>
      match skipBlanks rest with
      | ',' :: rest => (items? fuel rest).map fun (ds, rest) => (d :: ds, rest)
      | ']' :: rest => some ([d], rest)
      | _ => none

/-- The members of a record up to its closing brace. -/
def members? (fuel : Nat) (cs : List Char) :
    Option (List (Option String × Document) × List Char) :=
  match fuel with
  | 0 => none
  | fuel + 1 =>
    match skipBlanks cs with
    | '"' :: rest =>
      match string? rest with
      | some (name, rest) =>
        match skipBlanks rest with
        | ':' :: rest =>
          match document? fuel rest with
          | none => none
          | some (d, rest) =>
            match skipBlanks rest with
            | ',' :: rest =>
              (members? fuel rest).map fun (ms, rest) => ((name, d) :: ms, rest)
            | '\x7d' :: rest => some ([(name, d)], rest)
            | _ => none
        | _ => none
      | _ => none
    | _ => none

end

/-- The document a text holds, and nothing else. -/
def readChars? (cs : List Char) : Option Document :=
  match document? (2 * cs.length + 2) cs with
  | some (d, rest) => if (skipBlanks rest).isEmpty then some d else none
  | none => none

/-- Reads a text. -/
def read? (text : String) : Option Document := readChars? text.toList

/-! ## Writing -/

/-- One character inside quotes. -/
def writeChar (c : Char) : List Char :=
  if c = '"' then ['\\', '"']
  else if c = '\\' then ['\\', '\\']
  else if c = '\n' then ['\\', 'n']
  else if c = '\r' then ['\\', 'r']
  else if c = '\t' then ['\\', 't']
  else if c = '\x08' then ['\\', 'b']
  else if c = '\x0c' then ['\\', 'f']
  else if c < ' ' then
    ['\\', 'u', '0', '0', Nat.digitChar (c.toNat / 16), Nat.digitChar (c.toNat % 16)]
  else [c]

/-- A string with its quotes. -/
def writeString (s : String) : List Char := '"' :: s.toList.flatMap writeChar ++ ['"']

/-- An integer. -/
def writeInteger (n : Int) : List Char :=
  if n < 0 then '-' :: Nat.toDigits 10 n.natAbs else Nat.toDigits 10 n.natAbs

mutual

/-- A document without blanks. -/
def writeChars : Document → List Char
  | .null => ['n', 'u', 'l', 'l']
  | .bool true => ['t', 'r', 'u', 'e']
  | .bool false => ['f', 'a', 'l', 's', 'e']
  | .integer n => writeInteger n
  | .text s => writeString s
  | .list items => '[' :: writeItems items ++ [']']
  | .record members => '\x7b' :: writeMembers members ++ ['\x7d']
  | .other => ['-', '0']

/-- The items of a list. -/
def writeItems : List Document → List Char
  | [] => []
  | [d] => writeChars d
  | d :: ds => writeChars d ++ ',' :: writeItems ds

/-- The members of a record. -/
def writeMembers : List (String × Document) → List Char
  | [] => []
  | [(name, d)] => writeString name ++ ':' :: writeChars d
  | (name, d) :: ms => writeString name ++ ':' :: writeChars d ++ ',' :: writeMembers ms

end

/-- The compact text of a document. -/
def write (d : Document) : String := String.ofList (writeChars d)

/-- Lists that stand for records are no longer than the record, and a name without data has null
beside it. -/
def dialect : Document.Dialect where
  surplus := false
  blank
    | .null => true
    | _ => false

end WasmHost.Json
