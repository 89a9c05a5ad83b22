import WasmHost.Toml.Scalar
import WasmHost.Toml.Table

/-!
# Documents as TOML text

A text is a sequence of lines: assignments, headers, comments and blank lines. `Toml.read?` gives
the record that they build, or nothing if a line is malformed or defines something twice.
-/

namespace WasmHost.Toml

/-- The text behind a comment, which begins with its mark. -/
def comment (cs : List Char) : List Char := cs.dropWhile isPrintable

/-- The text behind the rest of a line that holds nothing but blanks and a comment. The last line
needs no end. -/
def lineEnd? (cs : List Char) : Option (List Char) :=
  let cs := skipBlanks cs
  let cs := match cs with
    | '#' :: _ => comment cs
    | _ => cs
  match cs with
  | [] => some []
  | _ => newline? cs

/-- Passes over blanks, comments and ends of lines. -/
def skipLines : Nat → List Char → Option (List Char)
  | 0, cs => some cs
  | fuel + 1, cs =>
    match skipBlanks cs with
    | [] => some []
    | '#' :: rest =>
      match comment rest with
      | [] => some []
      | rest => (newline? rest).bind (skipLines fuel)
    | cs =>
      match newline? cs with
      | some rest => skipLines fuel rest
      | none => some cs

/-! ## Keys -/

/-- Characters of names without quotes. -/
def isNameChar (c : Char) : Bool :=
  isDigit c || ('a' ≤ c && c ≤ 'z') || ('A' ≤ c && c ≤ 'Z') || c = '_' || c = '-'

/-- One name, with or without quotes. -/
def name? : List Char → Option (List Char × List Char)
  | '"' :: rest => basicString? (rest.length + 1) rest
  | '\'' :: rest => literalString? rest
  | cs =>
    let text := cs.takeWhile isNameChar
    if text.isEmpty then none else some (text, cs.drop text.length)

/-- The longest key, in names. -/
def maxDepth : Nat := 80

/-- Names with points between them, as the ones before the last and the last. -/
def key? : Nat → List Char → Option ((List String × String) × List Char)
  | 0, _ => none
  | fuel + 1, cs => do
    let (text, rest) ← name? (skipBlanks cs)
    let text := String.ofList text
    match skipBlanks rest with
    | '.' :: rest =>
      let ((path, last), rest) ← key? fuel rest
      return ((text :: path, last), rest)
    | rest => return (([], text), rest)

/-- A key of fewer names than the limit. -/
def boundedKey? (cs : List Char) : Option ((List String × String) × List Char) := do
  let ((path, last), rest) ← key? (cs.length + 1) cs
  guard (path.length + 1 < maxDepth)
  return ((path, last), rest)

/-! ## Values -/

mutual

/-- A value. `depth` counts the lists and inline tables around it, `fuel` bounds the work. -/
def value? (fuel depth : Nat) (cs : List Char) : Option (Document × List Char) :=
  match fuel with
  | 0 => none
  | fuel + 1 =>
    match cs with
    | '[' :: rest =>
      if depth + 1 < maxDepth then
        (items? fuel (depth + 1) rest).map fun (ds, rest) => (.list ds, rest)
      else none
    | '\x7b' :: rest =>
      if depth + 1 < maxDepth then
        match skipBlanks rest with
        | '\x7d' :: rest => some (.record [], rest)
        | rest => (pairs? fuel (depth + 1) [] rest).map fun (entries, rest) =>
            (.record (documents entries), rest)
      else none
    | _ => scalar? cs

/-- The items of a list up to its closing bracket; a comma may stand behind the last. -/
def items? (fuel depth : Nat) (cs : List Char) : Option (List Document × List Char) :=
  match fuel with
  | 0 => none
  | fuel + 1 => do
    match ← skipLines cs.length cs with
    | ']' :: rest => return ([], rest)
    | cs =>
      let (d, rest) ← value? fuel depth cs
      match ← skipLines rest.length rest with
      | ',' :: rest =>
        let (ds, rest) ← items? fuel depth rest
        return (d :: ds, rest)
      | ']' :: rest => return ([d], rest)
      | _ => none

/-- The assignments of an inline table up to its closing brace, all on one line. -/
def pairs? (fuel depth : Nat) (entries : Entries) (cs : List Char) :
    Option (Entries × List Char) :=
  match fuel with
  | 0 => none
  | fuel + 1 => do
    let ((path, last), rest) ← boundedKey? cs
    let rest ← mark? '=' rest
    let (d, rest) ← value? fuel depth (skipBlanks rest)
    let entries ← entries.assign path last d
    match skipBlanks rest with
    | ',' :: rest => pairs? fuel depth entries rest
    | '\x7d' :: rest => return (entries, rest)
    | _ => none

end

/-! ## Lines -/

/-- What has been read so far: all entries, and the path to the table that assignments go to. -/
structure Progress where
  entries : Entries
  current : List String

/-- Takes in an assignment. -/
def Progress.assign (p : Progress) (path : List String) (name : String) (d : Document) :
    Option Progress := do
  let entries ← p.entries.descend false p.current false fun _ inner => inner.assign path name d
  return { p with entries }

/-- Reads a header behind its first bracket. -/
def header? (p : Progress) : List Char → Option (Progress × List Char)
  | '[' :: rest => do
    let ((path, last), rest) ← boundedKey? rest
    let rest ← mark? ']' (← mark? ']' rest)
    return (⟨← p.entries.openRepeated path last, path ++ [last]⟩, rest)
  | cs => do
    let ((path, last), rest) ← boundedKey? cs
    let rest ← mark? ']' rest
    return (⟨← p.entries.openTable path last, path ++ [last]⟩, rest)

/-- Reads an assignment. -/
def assignment? (p : Progress) (cs : List Char) : Option (Progress × List Char) := do
  let ((path, last), rest) ← boundedKey? cs
  let rest := skipBlanks (← mark? '=' rest)
  let (d, rest) ← value? (2 * rest.length + 2) 0 rest
  return (← p.assign path last d, rest)

/-- Reads all lines. `fuel` bounds their number. -/
def lines? : Nat → Progress → List Char → Option Progress
  | 0, _, _ => none
  | fuel + 1, p, cs =>
    match skipBlanks cs with
    | [] => some p
    | '#' :: rest => (lineEnd? ('#' :: rest)).bind (lines? fuel p)
    | '\n' :: rest => lines? fuel p rest
    | '\r' :: '\n' :: rest => lines? fuel p rest
    | '[' :: rest => do
      let (p, rest) ← header? p rest
      lines? fuel p (← lineEnd? rest)
    | cs => do
      let (p, rest) ← assignment? p cs
      lines? fuel p (← lineEnd? rest)

/-- A mark of byte order may stand at the very start. -/
def withoutMark : List Char → List Char
  | '\ufeff' :: rest => rest
  | cs => cs

/-- Reads a text. -/
def read? (text : String) : Option Document :=
  let cs := withoutMark text.toList
  (lines? (cs.length + 1) ⟨[], []⟩ cs).map fun p => .record (documents p.entries)

/-- Lists that stand for records may be longer than the record, and a name without data has an empty
list or record beside it. -/
def dialect : Document.Dialect where
  surplus := true
  blank
    | .list [] => true
    | .record [] => true
    | _ => false

end WasmHost.Toml
