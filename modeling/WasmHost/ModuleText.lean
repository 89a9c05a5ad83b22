/-!
# The text format

Text is translated to the binary format before it is used. The translation covers the empty module
with comments and blanks around and inside it; any other text is refused.
-/

namespace WasmHost.ModuleText

/-- The pieces of a text once blanks and comments are gone. -/
inductive Token where
  | leftParen
  | rightParen
  | word (text : String)
  deriving DecidableEq, Repr

/-- Characters that separate tokens. -/
def isBlank (c : Char) : Bool := c = ' ' || c = '\t' || c = '\n' || c = '\r'

/-- Characters of which words consist. -/
def isWordChar (c : Char) : Bool :=
  ('0' ≤ c && c ≤ '9') || ('A' ≤ c && c ≤ 'Z') || ('a' ≤ c && c ≤ 'z') ||
    "!#$%&'*+-./:<=>?@\\^_\x60|~".toList.contains c

/-- Characters that change the direction of text: with them a comment could be shown as if it were
not one, so comments must not contain any. -/
def isMisleading (c : Char) : Bool :=
  "\u202a\u202b\u202d\u202e\u2066\u2067\u2068\u2069\u206c".toList.contains c

/-- Characters that end a line comment. -/
def isLineEnd (c : Char) : Bool := c = '\n' || c = '\r'

/-- The text behind a block comment that is open `depth` times; block comments nest. -/
def skipBlockComment : Nat → List Char → Option (List Char)
  | 0, cs => some cs
  | _ + 1, [] => none
  | depth + 1, '(' :: ';' :: rest => skipBlockComment (depth + 2) rest
  | depth + 1, ';' :: ')' :: rest => skipBlockComment depth rest
  | depth + 1, c :: rest => if isMisleading c then none else skipBlockComment (depth + 1) rest
termination_by _ cs => cs.length

/-- The text behind a line comment. -/
def skipLineComment : List Char → Option (List Char)
  | [] => some []
  | c :: rest =>
    if isLineEnd c then some (c :: rest)
    else if isMisleading c then none
    else skipLineComment rest

/-- Splits a text into tokens; `none` if a comment is not closed or misleads, or a character belongs
nowhere. `fuel` bounds the number of tokens and comments. -/
def tokensFrom : Nat → List Char → Option (List Token)
  | 0, _ => none
  | _ + 1, [] => some []
  | fuel + 1, '(' :: ';' :: rest => (skipBlockComment 1 rest).bind (tokensFrom fuel)
  | fuel + 1, ';' :: ';' :: rest => (skipLineComment rest).bind (tokensFrom fuel)
  | fuel + 1, '(' :: rest => (tokensFrom fuel rest).map (Token.leftParen :: ·)
  | fuel + 1, ')' :: rest => (tokensFrom fuel rest).map (Token.rightParen :: ·)
  | fuel + 1, c :: rest =>
    if isBlank c then tokensFrom fuel rest
    else if isWordChar c then
      let text := String.ofList (c :: rest.takeWhile isWordChar)
      (tokensFrom fuel (rest.dropWhile isWordChar)).map (Token.word text :: ·)
    else none

/-- The tokens of a text. -/
def tokens? (text : String) : Option (List Token) :=
  let cs := text.toList
  tokensFrom (cs.length + 1) cs

/-- What is reported for a text that cannot be translated. -/
def failure : String := "expected a module"

/-- The binary form of the empty module. -/
def emptyModule : List UInt8 := [0x00, 0x61, 0x73, 0x6d, 0x01, 0x00, 0x00, 0x00]

/-- Bytes begin like a binary module. -/
def isBinary (bytes : ByteArray) : Bool := bytes.data.toList.take 4 = emptyModule.take 4

/-- Translates a text. -/
def translate? (text : String) : Option ByteArray :=
  match tokens? text with
  | some [.leftParen, .word "module", .rightParen] => some ⟨emptyModule.toArray⟩
  | _ => none

theorem isBinary_of_translate? {text : String} {bytes : ByteArray}
    (h : translate? text = some bytes) : isBinary bytes = true := by
  unfold translate? at h
  split at h
  · cases h
    decide
  · cases h

/-- The character zero starts no token. -/
theorem translate?_zero {text : String} (h : text.toList.head? = some '\x00') :
    translate? text = none := by
  obtain ⟨rest, hrest⟩ := List.head?_eq_some_iff.mp h
  have htokens : tokens? text = none := by
    simp only [tokens?, hrest]
    simp [tokensFrom, isBlank, isWordChar]
  rw [translate?, htokens]

end WasmHost.ModuleText

namespace WasmHost

/-- A translator of the text format to the binary format. What it gives begins like a binary module,
and no text begins with the character zero. -/
structure Translator where
  translate? : String → Option ByteArray
  binary : ∀ text bytes, translate? text = some bytes → ModuleText.isBinary bytes = true
  zero : ∀ text : String, text.toList.head? = some '\x00' → translate? text = none

/-- The translator of texts of the empty module. -/
def ModuleText.translator : Translator where
  translate? := translate?
  binary _ _ := isBinary_of_translate?
  zero _ := translate?_zero

instance : Inhabited Translator := ⟨ModuleText.translator⟩

/-- Bytes that begin like a binary module are left as they are, and all others are text. -/
def Translator.binaryOf? (t : Translator) (bytes : ByteArray) : Option ByteArray :=
  if ModuleText.isBinary bytes then some bytes
  else (String.fromUTF8? bytes).bind t.translate?

end WasmHost
