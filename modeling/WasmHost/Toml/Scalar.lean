import WasmHost.Document
import WasmHost.FloatFormat.Literal
import WasmHost.Text.Integer

/-!
# Strings, numbers and dates of TOML

Readers of single values. Each takes the text from the value's first character on and gives the
value with the text behind it. Fractions and dates are checked but not kept, since no setting takes
one.
-/

namespace WasmHost.Toml

/-- Blanks within a line. -/
def isBlank (c : Char) : Bool := c = ' ' || c = '\t'

/-- The text from its first character that is no blank. -/
def skipBlanks (cs : List Char) : List Char := cs.dropWhile isBlank

/-- The text behind the end of a line. -/
def newline? : List Char → Option (List Char)
  | '\n' :: rest => some rest
  | '\r' :: '\n' :: rest => some rest
  | _ => none

/-- Characters that comments and literal strings may hold. -/
def isPrintable (c : Char) : Bool := c = '\t' || (' ' ≤ c && c ≠ '\x7f')

/-! ## Strings -/

/-- The character that a number of digits of base sixteen stands for. -/
def codePoint? (count : Nat) (cs : List Char) : Option (Char × List Char) := do
  let digits := cs.take count
  guard (digits.length = count)
  let code ← Text.unhexNat? digits
  guard (code < 0xd800 ∨ (0xdfff < code ∧ code < 0x110000))
  return (Char.ofNat code, cs.drop count)

/-- The character an escape stands for, without its backslash. -/
def escape? : List Char → Option (Char × List Char)
  | 'b' :: rest => some ('\x08', rest)
  | 't' :: rest => some ('\t', rest)
  | 'n' :: rest => some ('\n', rest)
  | 'f' :: rest => some ('\x0c', rest)
  | 'r' :: rest => some ('\r', rest)
  | '"' :: rest => some ('"', rest)
  | '\\' :: rest => some ('\\', rest)
  | 'u' :: rest => codePoint? 4 rest
  | 'U' :: rest => codePoint? 8 rest
  | _ => none

/-- A string between double quotes, up to the closing one. `fuel` bounds its length. -/
def basicString? (fuel : Nat) (cs : List Char) : Option (List Char × List Char) :=
  match fuel, cs with
  | 0, _ => none
  | _, [] => none
  | _ + 1, '"' :: rest => some ([], rest)
  | fuel + 1, '\\' :: rest => do
    let (c, rest) ← escape? rest
    let (text, rest) ← basicString? fuel rest
    return (c :: text, rest)
  | fuel + 1, c :: rest => do
    guard (isPrintable c)
    let (text, rest) ← basicString? fuel rest
    return (c :: text, rest)

/-- A string between single quotes, up to the closing one. -/
def literalString? (cs : List Char) : Option (List Char × List Char) :=
  let text := cs.takeWhile fun c => isPrintable c && c ≠ '\''
  match cs.drop text.length with
  | '\'' :: rest => some (text, rest)
  | _ => none

/-- What a run of quotes inside a text of several lines stands for: quotes, and the text behind the
end if the run also closes the text. Up to two quotes may stand before the closing three. -/
def quoteRun (quote : Char) (cs : List Char) : List Char × List Char × Bool :=
  let count := min 5 (cs.takeWhile (· = quote)).length
  if count < 3 then (List.replicate count quote, cs.drop count, false)
  else (List.replicate (count - 3) quote, cs.drop count, true)

/-- Passes over the end of a line and all blanks and ends of lines behind it, if nothing but blanks
stands before it. -/
def foldedLine? (fuel : Nat) (cs : List Char) : Option (List Char) :=
  (newline? (skipBlanks cs)).map (skip fuel)
where
  skip : Nat → List Char → List Char
    | 0, cs => cs
    | fuel + 1, cs =>
      match newline? (skipBlanks cs) with
      | some rest => skip fuel rest
      | none => skipBlanks cs

/-- A text of several lines, up to its closing quotes. Between double quotes, backslashes begin
escapes or hide the end of a line. -/
def longString? (quote : Char) (fuel : Nat) (cs : List Char) : Option (List Char × List Char) :=
  match fuel with
  | 0 => none
  | fuel + 1 =>
    match newline? cs with
    | some rest => do
      let (text, rest) ← longString? quote fuel rest
      return ('\n' :: text, rest)
    | none =>
      match cs with
      | [] => none
      | c :: rest =>
        if c = quote then
          match quoteRun quote cs with
          | (quotes, rest, true) => some (quotes, rest)
          | (quotes, rest, false) => do
            let (text, rest) ← longString? quote fuel rest
            return (quotes ++ text, rest)
        else if c = '\\' ∧ quote = '"' then
          match foldedLine? fuel rest with
          | some rest => longString? quote fuel rest
          | none => do
            let (e, rest) ← escape? rest
            let (text, rest) ← longString? quote fuel rest
            return (e :: text, rest)
        else do
          guard (isPrintable c)
          let (text, rest) ← longString? quote fuel rest
          return (c :: text, rest)

/-- A text of several lines from behind its opening quotes; an end of line right there is not part
of it. -/
def openedLongString? (quote : Char) (cs : List Char) : Option (List Char × List Char) :=
  longString? quote (cs.length + 1) ((newline? cs).getD cs)

/-- A string in any of the four forms. -/
def string? : List Char → Option (List Char × List Char)
  | '"' :: '"' :: '"' :: rest => openedLongString? '"' rest
  | '"' :: rest => basicString? (rest.length + 1) rest
  | '\'' :: '\'' :: '\'' :: rest => openedLongString? '\'' rest
  | '\'' :: rest => literalString? rest
  | _ => none

/-! ## Numbers -/

/-- A decimal digit. -/
def isDigit (c : Char) : Bool := '0' ≤ c && c ≤ '9'

/-- Digits, with single underscores between them, and the text behind. -/
def digitRun (isDigit : Char → Bool) : List Char → List Char × List Char
  | '_' :: c :: rest =>
    if isDigit c then
      let (ds, rest) := digitRun isDigit rest
      (c :: ds, rest)
    else ([], '_' :: c :: rest)
  | c :: rest =>
    if isDigit c then
      let (ds, rest) := digitRun isDigit rest
      (c :: ds, rest)
    else ([], c :: rest)
  | [] => ([], [])

/-- A run of digits that begins with one. -/
def digits? (isDigit : Char → Bool) (cs : List Char) : Option (List Char × List Char) :=
  match cs with
  | c :: _ => if isDigit c then some (digitRun isDigit cs) else none
  | [] => none

/-- An optional sign; says whether it is a minus. -/
def sign : List Char → Bool × List Char
  | '-' :: rest => (true, rest)
  | '+' :: rest => (false, rest)
  | cs => (false, cs)

/-- A sign and digits that start with a zero only for the number zero. -/
def wholePart? (cs : List Char) : Option (Bool × List Char × List Char) :=
  let (negative, cs) := sign cs
  match cs with
  | '0' :: rest => some (negative, ['0'], rest)
  | _ => (digits? isDigit cs).map fun (ds, rest) => (negative, ds, rest)

/-- An integer of 64 bits with a sign. -/
def bounded? (n : Int) : Option Document :=
  if -(Nat.pow 2 63 : Nat) ≤ n ∧ n < (Nat.pow 2 63 : Nat) then some (.integer n) else none

/-- The value of digits of a base. -/
def valueIn (base : Nat) (ds : List Char) : Nat :=
  ds.foldl (fun acc d => base * acc + (Text.hexDigit? d).getD 0) 0

/-- An integer in base two, eight, ten or sixteen; only decimal ones have a sign. -/
def integer? : List Char → Option (Document × List Char)
  | '0' :: 'x' :: rest => inBase 16 (fun c => (Text.hexDigit? c).isSome) rest
  | '0' :: 'o' :: rest => inBase 8 (fun c => '0' ≤ c && c ≤ '7') rest
  | '0' :: 'b' :: rest => inBase 2 (fun c => c = '0' || c = '1') rest
  | cs => do
    let (negative, ds, rest) ← wholePart? cs
    let value : Int := valueIn 10 ds
    let d ← bounded? (if negative then -value else value)
    return (d, rest)
where
  inBase (base : Nat) (isDigit : Char → Bool) (cs : List Char) :
      Option (Document × List Char) := do
    let (ds, rest) ← digits? isDigit cs
    let d ← bounded? (valueIn base ds)
    return (d, rest)

/-- The text of a fraction and of an exponent, either of which may be missing. -/
def fractionAndExponent? (cs : List Char) : Option (List Char × List Char) := do
  let (fraction, cs) ← match cs with
    | '.' :: rest => (digits? isDigit rest).map fun (ds, rest) => ('.' :: ds, rest)
    | _ => some ([], cs)
  let (exponent, cs) ← match cs with
    | 'e' :: rest => exponent rest
    | 'E' :: rest => exponent rest
    | _ => some ([], cs)
  return (fraction ++ exponent, cs)
where
  exponent (cs : List Char) : Option (List Char × List Char) :=
    let (negative, cs) := sign cs
    (digits? isDigit cs).map fun (ds, rest) =>
      ('e' :: (if negative then '-' :: ds else ds), rest)

/-- A number with a fraction or an exponent, or one of the words for infinities and no number. A
positive number must not be too great for 64 bits. -/
def float? (cs : List Char) : Option (List Char) :=
  let (_, unsigned) := sign cs
  match unsigned with
  | 'i' :: 'n' :: 'f' :: rest => some rest
  | 'n' :: 'a' :: 'n' :: rest => some rest
  | _ => do
    let (negative, whole, rest) ← wholePart? cs
    let (tail, rest) ← fractionAndExponent? rest
    guard (!tail.isEmpty)
    let bits ← (FloatFormat.double.parse (String.ofList (whole ++ tail))).toOption
    guard (negative || bits ≠ FloatFormat.double.infinityBits)
    return rest

/-! ## Dates and times -/

/-- A number of exactly so many digits, within a range. -/
def field? (count low high : Nat) (cs : List Char) : Option (Nat × List Char) := do
  let digits := cs.take count
  guard (digits.length = count)
  let n ← Text.natural? digits
  guard (low ≤ n ∧ n ≤ high)
  return (n, cs.drop count)

/-- Passes over one character. -/
def mark? (mark : Char) : List Char → Option (List Char)
  | c :: rest => if c = mark then some rest else none
  | [] => none

/-- The days of a month. -/
def daysIn (year month : Nat) : Nat :=
  if month = 2 then
    if year % 4 = 0 ∧ (year % 100 ≠ 0 ∨ year % 400 = 0) then 29 else 28
  else if month = 4 ∨ month = 6 ∨ month = 9 ∨ month = 11 then 30
  else 31

/-- A time of day. -/
def time? (cs : List Char) : Option (List Char) := do
  let (_, cs) ← field? 2 0 23 cs
  let (_, cs) ← field? 2 0 59 (← mark? ':' cs)
  let (_, cs) ← field? 2 0 60 (← mark? ':' cs)
  match cs with
  | '.' :: rest =>
    guard !(rest.takeWhile isDigit).isEmpty
    return rest.dropWhile isDigit
  | _ => return cs

/-- The distance from universal time, if it is given. -/
def offset (cs : List Char) : List Char :=
  let distance (rest : List Char) : Option (List Char) := do
    let (_, rest) ← field? 2 0 23 rest
    let (_, rest) ← field? 2 0 59 (← mark? ':' rest)
    return rest
  match cs with
  | 'Z' :: rest => rest
  | 'z' :: rest => rest
  | '+' :: rest => (distance rest).getD cs
  | '-' :: rest => (distance rest).getD cs
  | _ => cs

/-- A day, a day with a time, or a time. -/
def date? (cs : List Char) : Option (List Char) :=
  match day? cs with
  | some rest =>
    match rest with
    | c :: after =>
      if c = 'T' ∨ c = 't' ∨ c = ' ' then
        match time? after with
        | some rest => some (offset rest)
        | none => some rest
      else some rest
    | [] => some rest
  | none => time? cs
where
  day? (cs : List Char) : Option (List Char) := do
    let (year, cs) ← field? 4 0 9999 cs
    let (month, cs) ← field? 2 1 12 (← mark? '-' cs)
    let (_, cs) ← field? 2 1 (daysIn year month) (← mark? '-' cs)
    return cs

/-- What stands for a date: a record with a member that no setting has. -/
def dateDocument : Document := .record [("date", .other)]

/-- A plain value: a truth value, a string, a date or a number. -/
def scalar? : List Char → Option (Document × List Char)
  | 't' :: 'r' :: 'u' :: 'e' :: rest => some (.bool true, rest)
  | 'f' :: 'a' :: 'l' :: 's' :: 'e' :: rest => some (.bool false, rest)
  | cs =>
    match string? cs with
    | some (text, rest) => some (.text (String.ofList text), rest)
    | none =>
      match date? cs with
      | some rest => some (dateDocument, rest)
      | none =>
        match float? cs with
        | some rest => some (.other, rest)
        | none => integer? cs

end WasmHost.Toml
