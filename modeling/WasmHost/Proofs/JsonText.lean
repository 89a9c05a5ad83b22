import WasmHost.Json
import WasmHost.Proofs.Numerals
import Mathlib.Data.List.TakeWhile

/-!
# Documents and their JSON texts

`Json.Spells` is the grammar of the text format, with the document that a text stands for. Every text of
the grammar is read as its document, whatever its blanks, escapes and the order of its members; and a
document is written as one of its texts.

A reader could be verified against a writer alone: what is written is read again. That would leave
open what the reader does with all the texts that this writer does not write, with other blanks,
other escapes, or members in another order, and people write such texts. So the format is given as a
grammar, from the format's own definition and not from the reader, and the reader is shown to follow
it. That the writer is right as well is then a statement about the writer and the grammar.

Two things about documents are odd, and are kept as they are. What is no integer is read as `other`,
as nobody asks for its value; and so is a string in which half of a pair of characters stands alone,
since there is no text that it could be. A record with such a name is `other` as a whole.

The reader goes by fuel. The grammar gives the bound: every rule spends characters, so twice the
length is enough.
-/

namespace WasmHost.Json

/-! ## The grammar

A text may be ambiguous as a list of characters, but not as what it stands for: the reader is a
function. -/

def IsBlanks (cs : List Char) : Prop := ∀ c ∈ cs, isBlank c = true

/-- What stands between quotes, and the numbers of its characters. -/
inductive Quoted : List Char → List Nat → Prop
  | nil : Quoted [] []
  | plain {c : Char} {cs : List Char} {codes : List Nat} (hc : ' ' ≤ c ∧ c ≠ '"' ∧ c ≠ '\\')
      (h : Quoted cs codes) : Quoted (c :: cs) (c.toNat :: codes)
  | escape {e c : Char} {cs : List Char} {codes : List Nat} (he : escaped? e = some c)
      (h : Quoted cs codes) : Quoted ('\\' :: e :: cs) (c.toNat :: codes)
  | unicode {a b c d : Char} {p q r s : Nat} {cs : List Char} {codes : List Nat}
      (ha : Text.hexDigit? a = some p) (hb : Text.hexDigit? b = some q)
      (hc : Text.hexDigit? c = some r) (hd : Text.hexDigit? d = some s) (h : Quoted cs codes) :
      Quoted ('\\' :: 'u' :: a :: b :: c :: d :: cs) ((((p * 16 + q) * 16 + r) * 16 + s) :: codes)

/-- The text of numbers of characters. A pair of halves is one character. -/
inductive Joined : List Nat → List Char → Prop
  | nil : Joined [] []
  | single {c : Char} {codes : List Nat} {cs : List Char} (h : Joined codes cs) :
      Joined (c.toNat :: codes) (c :: cs)
  | pair {a b : Nat} {c : Char} {codes : List Nat} {cs : List Char} (ha : 0xd800 ≤ a ∧ a < 0xdc00)
      (hb : 0xdc00 ≤ b ∧ b < 0xe000) (hc : c.toNat = 0x10000 + (a - 0xd800) * 0x400 + (b - 0xdc00))
      (h : Joined codes cs) : Joined (a :: b :: codes) (c :: cs)

/-- What stands between quotes denotes a text, unless there are halves that stand alone. -/
inductive Denotes : List Char → Option String → Prop
  | text {cs : List Char} {codes : List Nat} {s : String} (h : Quoted cs codes)
      (hs : Joined codes s.toList) : Denotes cs (some s)
  | none {cs : List Char} {codes : List Nat} (h : Quoted cs codes) (hs : ∀ t, ¬Joined codes t) :
      Denotes cs none

/-- Digits without a zero in front, unless they are zero. -/
inductive Whole : List Char → Prop
  | zero : Whole ['0']
  | digits {ds : List Char} (h : Text.IsDigits ds) (hzero : ds.head? ≠ some '0') : Whole ds

/-- A fraction, or nothing. -/
inductive Fraction : List Char → Bool → Prop
  | absent : Fraction [] false
  | present {ds : List Char} (h : Text.IsDigits ds) : Fraction ('.' :: ds) true

/-- An exponent, or nothing. -/
inductive Exponent : List Char → Bool → Prop
  | absent : Exponent [] false
  | present {e : Char} {sign ds : List Char} (he : e = 'e' ∨ e = 'E')
      (hsign : sign = [] ∨ sign = ['+'] ∨ sign = ['-']) (h : Text.IsDigits ds) :
      Exponent (e :: sign ++ ds) true

/-- Numbers. Minus zero is no integer, and neither is what has a fraction or an exponent. -/
inductive Number : List Char → Document → Prop
  | natural {ds : List Char} (h : Whole ds) : Number ds (.integer (Nat.ofDigitChars 10 ds 0))
  | negative {ds : List Char} (h : Whole ds) (hne : Nat.ofDigitChars 10 ds 0 ≠ 0) :
      Number ('-' :: ds) (.integer (-Nat.ofDigitChars 10 ds 0))
  | minusZero : Number ['-', '0'] .other
  | inexact {sign ds fraction exponent : List Char} {f e : Bool} (hsign : sign = [] ∨ sign = ['-'])
      (h : Whole ds) (hf : Fraction fraction f) (he : Exponent exponent e) (hany : f || e) :
      Number (sign ++ ds ++ fraction ++ exponent) .other

/-- What texts are made of. -/
inductive Phrase where
  | document (d : Document)
  | items (ds : List Document)
  | members (ms : List (Option String × Document))

/-- A text is spelled out for a document, or for the items of a list or the members of a record. There
are no blanks in front. -/
inductive Spells : List Char → Phrase → Prop
  | null : Spells ['n', 'u', 'l', 'l'] (.document .null)
  | yes : Spells ['t', 'r', 'u', 'e'] (.document (.bool true))
  | no : Spells ['f', 'a', 'l', 's', 'e'] (.document (.bool false))
  | number {cs : List Char} {d : Document} (h : Number cs d) : Spells cs (.document d)
  | text {cs : List Char} {s : String} (h : Denotes cs (some s)) :
      Spells ('"' :: cs ++ ['"']) (.document (.text s))
  | noText {cs : List Char} (h : Denotes cs none) : Spells ('"' :: cs ++ ['"']) (.document .other)
  | noItems {b : List Char} (hb : IsBlanks b) : Spells ('[' :: b ++ [']']) (.document (.list []))
  | list {b cs : List Char} {ds : List Document} (hb : IsBlanks b) (h : Spells cs (.items ds)) :
      Spells ('[' :: b ++ cs ++ [']']) (.document (.list ds))
  | noMembers {b : List Char} (hb : IsBlanks b) :
      Spells ('\x7b' :: b ++ ['\x7d']) (.document (.record []))
  | record {b cs : List Char} {ms : List (String × Document)} (hb : IsBlanks b)
      (h : Spells cs (.members (ms.map fun m => (some m.1, m.2)))) :
      Spells ('\x7b' :: b ++ cs ++ ['\x7d']) (.document (.record ms))
  | nameless {b cs : List Char} {ms : List (Option String × Document)} (hb : IsBlanks b)
      (h : Spells cs (.members ms)) (hname : ∃ d, (none, d) ∈ ms) :
      Spells ('\x7b' :: b ++ cs ++ ['\x7d']) (.document .other)
  | item {cs b : List Char} {d : Document} (h : Spells cs (.document d)) (hb : IsBlanks b) :
      Spells (cs ++ b) (.items [d])
  | items {cs b₁ b₂ cs' : List Char} {d : Document} {ds : List Document}
      (h : Spells cs (.document d)) (h₁ : IsBlanks b₁) (h₂ : IsBlanks b₂)
      (hrest : Spells cs' (.items ds)) : Spells (cs ++ b₁ ++ ',' :: b₂ ++ cs') (.items (d :: ds))
  | member {quoted b₁ b₂ cs b₃ : List Char} {name : Option String} {d : Document}
      (hname : Denotes quoted name) (h₁ : IsBlanks b₁) (h₂ : IsBlanks b₂)
      (h : Spells cs (.document d)) (h₃ : IsBlanks b₃) :
      Spells ('"' :: quoted ++ '"' :: b₁ ++ ':' :: b₂ ++ cs ++ b₃) (.members [(name, d)])
  | members {quoted b₁ b₂ cs b₃ b₄ cs' : List Char} {name : Option String} {d : Document}
      {ms : List (Option String × Document)} (hname : Denotes quoted name) (h₁ : IsBlanks b₁)
      (h₂ : IsBlanks b₂) (h : Spells cs (.document d)) (h₃ : IsBlanks b₃) (h₄ : IsBlanks b₄)
      (hrest : Spells cs' (.members ms)) :
      Spells ('"' :: quoted ++ '"' :: b₁ ++ ':' :: b₂ ++ cs ++ b₃ ++ ',' :: b₄ ++ cs')
        (.members ((name, d) :: ms))

/-! ## Reading strings

In two stages, as the format has it: first escapes are replaced by numbers, then pairs of numbers
are joined. The second stage must be analysed in both directions, since that nothing can be joined
is something that the grammar says, too. -/

variable {cs rest : List Char} {codes : List Nat}

theorem stringCodes_of_quoted (h : Quoted cs codes) (rest : List Char) :
    stringCodes (cs ++ '"' :: rest) = some (codes, rest) := by
  induction h with
  | nil => rfl
  | plain hc h ih =>
    obtain ⟨hle, hquote, hbackslash⟩ := hc
    rw [List.cons_append, stringCodes.eq_5 _ _ hquote (fun _ _ _ _ _ h => absurd h hbackslash)
      fun _ _ h => absurd h hbackslash, ih]
    simp [hle, hbackslash]
  | @escape e c cs codes he h ih =>
    -- An escape with numbers comes first, but its letter is none of the others.
    have hu : e ≠ 'u' := by
      rintro rfl
      cases he
    simp [stringCodes, he, ih, hu]
  | unicode ha hb hc hd h ih =>
    simp [stringCodes, ha, hb, hc, hd, ih]
    omega

theorem isLeading_iff {code : Nat} : isLeading code = true ↔ 0xd800 ≤ code ∧ code < 0xdc00 := by
  simp [isLeading]

theorem isTrailing_iff {code : Nat} : isTrailing code = true ↔ 0xdc00 ≤ code ∧ code < 0xe000 := by
  simp [isTrailing]

theorem toNat_ofNat {n : Nat} (h : n.isValidChar) : (Char.ofNat n).toNat = n := by
  rw [Char.ofNat, dif_pos h]
  rfl

theorem joinPairs_cons {a : Nat} (hleading : ¬isLeading a = true) (htrailing : ¬isTrailing a = true) :
    joinPairs (a :: codes) = (joinPairs codes).map (Char.ofNat a :: ·) := by
  rw [joinPairs.eq_def]
  simp only [if_neg hleading, if_neg htrailing]

theorem joinPairs_pair {a b : Nat} (ha : isLeading a = true) (hb : isTrailing b = true) :
    joinPairs (a :: b :: codes) =
      (joinPairs codes).map (Char.ofNat (0x10000 + (a - 0xd800) * 0x400 + (b - 0xdc00)) :: ·) := by
  rw [joinPairs, if_pos ha, if_pos hb]

theorem joinPairs_of_joined {t : List Char} (h : Joined codes t) : joinPairs codes = some t := by
  induction h with
  | nil => rfl
  | @single c codes t h ih =>
    have hc : c.toNat < 0xd800 ∨ 0xdfff < c.toNat ∧ c.toNat < 0x110000 := c.valid
    rw [joinPairs_cons (by rw [isLeading_iff]; omega) (by rw [isTrailing_iff]; omega), ih,
      Char.ofNat_toNat]
    rfl
  | pair ha hb hc h ih =>
    rw [joinPairs_pair (isLeading_iff.mpr ha) (isTrailing_iff.mpr hb), ih, ← hc, Char.ofNat_toNat]
    rfl

/-- Characters that have numbers at all are joined as they should be. -/
theorem joined_of_joinPairs (hcodes : ∀ code ∈ codes, code < 0x110000) {t : List Char}
    (h : joinPairs codes = some t) : Joined codes t := by
  -- One case for each way in which the first number can be joined: with the next one, alone, or not
  -- at all.
  induction codes using joinPairs.induct generalizing t with
  | case1 =>
    cases h
    exact .nil
  | case2 a ha b rest hb ih =>
    rw [joinPairs_pair ha hb] at h
    obtain ⟨t, ht, rfl⟩ := Option.map_eq_some_iff.mp h
    rw [isLeading_iff] at ha
    rw [isTrailing_iff] at hb
    refine .pair ha hb (toNat_ofNat (.inr (by omega))) (ih ?_ ht)
    exact fun code h => hcodes code (List.mem_cons_of_mem _ (List.mem_cons_of_mem _ h))
  | case3 a ha b rest hb => simp [joinPairs, ha, hb] at h
  | case4 a ha => simp [joinPairs, ha] at h
  | case5 a rest ha hb =>
    rw [joinPairs.eq_def] at h
    simp [ha, hb] at h
  | case6 a rest ha hb ih =>
    rw [joinPairs_cons ha hb] at h
    obtain ⟨t, ht, rfl⟩ := Option.map_eq_some_iff.mp h
    obtain ⟨hlt, hrest⟩ := List.forall_mem_cons.mp hcodes
    rw [isLeading_iff] at ha
    rw [isTrailing_iff] at hb
    have hsingle := Joined.single (c := Char.ofNat a) (ih hrest ht)
    rwa [toNat_ofNat (by unfold Nat.isValidChar; omega)] at hsingle

theorem hexDigit?_lt {c : Char} {n : Nat} (h : Text.hexDigit? c = some n) : n < 16 := by
  have hle : ∀ {a b : Char}, a ≤ b → a.toNat ≤ b.toNat := fun h => UInt32.le_iff_toNat_le.mp h
  have hfrom : ∀ d m k : Nat, c.toNat ≤ d → d - m + k < 16 → c.toNat - m + k < 16 := by omega
  unfold Text.hexDigit? at h
  split at h
  · rename_i hc
    cases h
    exact hfrom _ _ 0 (hle hc.2) (by decide)
  · split at h
    · rename_i hc
      cases h
      exact hfrom _ _ 10 (hle hc.2) (by decide)
    · split at h
      · rename_i hc
        cases h
        exact hfrom _ _ 10 (hle hc.2) (by decide)
      · cases h

theorem Quoted.lt (h : Quoted cs codes) : ∀ code ∈ codes, code < 0x110000 := by
  have hchar : ∀ c : Char, c.toNat < 0x110000 := fun c => by
    have hc : c.toNat < 0xd800 ∨ 0xdfff < c.toNat ∧ c.toNat < 0x110000 := c.valid
    omega
  induction h with
  | nil => exact fun _ h => absurd h List.not_mem_nil
  | plain _ _ ih => exact List.forall_mem_cons.mpr ⟨hchar _, ih⟩
  | escape _ _ ih => exact List.forall_mem_cons.mpr ⟨hchar _, ih⟩
  | unicode ha hb hc hd _ ih =>
    have := hexDigit?_lt ha
    have := hexDigit?_lt hb
    have := hexDigit?_lt hc
    have := hexDigit?_lt hd
    exact List.forall_mem_cons.mpr ⟨by omega, ih⟩

theorem string?_of_denotes {name : Option String} (h : Denotes cs name) (rest : List Char) :
    string? (cs ++ '"' :: rest) = some (name, rest) := by
  cases h with
  | text h hs =>
    rw [string?, stringCodes_of_quoted h]
    simp [joinPairs_of_joined hs]
  | @none codes h hs =>
    have hnone : joinPairs codes = none :=
      Option.eq_none_iff_forall_ne_some.mpr fun t ht => hs t (joined_of_joinPairs h.lt ht)
    rw [string?, stringCodes_of_quoted h]
    simp [hnone]

/-! ## Reading numbers

A number ends where something comes that cannot belong to it. This is why the statements are about
what is behind the number as well, and why a number is the only document for which that matters. -/

theorem isDigit_eq (c : Char) : isDigit c = c.isDigit := by
  simp [isDigit, Char.isDigit, Char.le_def]

/-- What comes next does not belong to a number. -/
def Stops (rest : List Char) : Prop :=
  ∀ c, rest.head? = some c → c.isDigit = false ∧ c ≠ '.' ∧ c ≠ 'e' ∧ c ≠ 'E'

/-- Digits end where something else begins. -/
theorem span_digits {ds rest : List Char} (hds : ∀ c ∈ ds, c.isDigit = true)
    (hrest : ∀ c, rest.head? = some c → c.isDigit = false) :
    (ds ++ rest).takeWhile isDigit = ds ∧ (ds ++ rest).dropWhile isDigit = rest := by
  have hds' : ∀ c ∈ ds, isDigit c = true := fun c hc => (isDigit_eq c).trans (hds c hc)
  rw [List.takeWhile_append_of_pos hds', List.dropWhile_append_of_pos hds']
  cases rest with
  | nil => simp
  | cons c rest =>
    have hc : isDigit c = false := (isDigit_eq c).trans (hrest c rfl)
    simp [hc]

theorem digits?_of_isDigits {ds rest : List Char} (hds : Text.IsDigits ds)
    (hrest : ∀ c, rest.head? = some c → c.isDigit = false) : digits? (ds ++ rest) = some rest := by
  obtain ⟨htake, hdrop⟩ := span_digits hds.2 hrest
  simp [digits?, htake, hdrop, hds.1]

theorem whole?_of_whole {ds rest : List Char} (h : Whole ds)
    (hrest : ∀ c, rest.head? = some c → c.isDigit = false) : whole? (ds ++ rest) = some (ds, rest) := by
  cases h with
  | zero => rfl
  | digits hds hzero =>
    obtain ⟨htake, hdrop⟩ := span_digits hds.2 hrest
    unfold whole?
    split
    · rename_i rest' heq
      cases ds with
      | nil => exact absurd rfl hds.1
      | cons d ds =>
        cases heq
        exact absurd rfl hzero
    · simp [htake, hdrop, hds.1]

theorem fraction?_of_fraction {cs rest : List Char} {f : Bool} (h : Fraction cs f)
    (hrest : ∀ c, rest.head? = some c → c.isDigit = false ∧ c ≠ '.') :
    fraction? (cs ++ rest) = some (f, rest) := by
  cases h with
  | absent =>
    unfold fraction?
    split
    · rename_i heq
      exact absurd rfl (hrest '.' (congrArg List.head? heq)).2
    · rfl
  | present hds => simp [fraction?, digits?_of_isDigits hds fun c hc => (hrest c hc).1]

theorem exponent?_of_exponent {cs rest : List Char} {e : Bool} (h : Exponent cs e)
    (hrest : Stops rest) : exponent? (cs ++ rest) = some (e, rest) := by
  cases h with
  | absent =>
    unfold exponent?
    dsimp only
    split
    · rename_i heq
      exact absurd rfl (hrest 'e' (congrArg List.head? heq)).2.2.1
    · rename_i heq
      exact absurd rfl (hrest 'E' (congrArg List.head? heq)).2.2.2
    · rfl
  | @present e sign ds he hsign hds =>
    have hread := digits?_of_isDigits hds fun c hc => (hrest c hc).1
    obtain ⟨d, ds, rfl⟩ := List.exists_cons_of_ne_nil hds.1
    have hplus : d ≠ '+' := by
      rintro rfl
      exact absurd hds.head (by decide)
    have hminus : d ≠ '-' := by
      rintro rfl
      exact absurd hds.head (by decide)
    rw [List.cons_append] at hread
    rcases he with rfl | rfl <;> rcases hsign with rfl | rfl | rfl <;>
      simp [exponent?, hread, hplus, hminus]

theorem number?_of_parts {negative : Bool} {ds fraction exponent rest : List Char} {f e : Bool}
    (hds : Whole ds) (hf : Fraction fraction f) (he : Exponent exponent e) (hrest : Stops rest) :
    number? negative (ds ++ fraction ++ exponent ++ rest) =
      some (numberOf negative ds (f || e), rest) := by
  have hexponent : ∀ c, (exponent ++ rest).head? = some c → c.isDigit = false ∧ c ≠ '.' := by
    cases he with
    | absent => exact fun c hc => ⟨(hrest c hc).1, (hrest c hc).2.1⟩
    | present he =>
      rintro c hc
      cases hc
      rcases he with rfl | rfl <;> decide
  have hfraction : ∀ c, (fraction ++ (exponent ++ rest)).head? = some c → c.isDigit = false := by
    cases hf with
    | absent => exact fun c hc => (hexponent c hc).1
    | present =>
      rintro c hc
      cases hc
      decide
  rw [List.append_assoc, List.append_assoc, number?, whole?_of_whole hds hfraction]
  simp [fraction?_of_fraction hf hexponent, exponent?_of_exponent he hrest]

theorem numberOf_exact (negative : Bool) {ds : List Char}
    (h : negative = true → Nat.ofDigitChars 10 ds 0 ≠ 0) : numberOf negative ds false =
      .integer (if negative then -Nat.ofDigitChars 10 ds 0 else Nat.ofDigitChars 10 ds 0) := by
  have hvalue : digitsValue ds = Nat.ofDigitChars 10 ds 0 := Nat.ofDigitChars_eq_foldl.symm
  -- Minus zero is excluded by the hypothesis.
  cases negative with
  | false => simp [numberOf, hvalue]
  | true => simp [numberOf, hvalue, h rfl]

/-- A number is read behind its sign, if it has one. -/
theorem number?_of_number {d : Document} (h : Number cs d) (hrest : Stops rest) :
    (∃ ds, cs = '-' :: ds ∧ number? true (ds ++ rest) = some (d, rest)) ∨
      ∃ c ds, cs = c :: ds ∧ c.isDigit = true ∧ number? false (cs ++ rest) = some (d, rest) := by
  have hfirst : ∀ {ds}, Whole ds → ∃ c ds', ds = c :: ds' ∧ c.isDigit = true := by
    intro ds hds
    cases hds with
    | zero => exact ⟨_, _, rfl, rfl⟩
    | digits hds =>
      obtain ⟨c, ds', rfl⟩ := List.exists_cons_of_ne_nil hds.1
      exact ⟨_, _, rfl, hds.head⟩
  have hexact : ∀ {negative ds}, Whole ds → number? negative (ds ++ rest) =
      some (numberOf negative ds false, rest) := by
    intro negative ds hds
    have hread : number? negative (ds ++ [] ++ [] ++ rest) = some (numberOf negative ds false, rest) :=
      number?_of_parts hds .absent .absent hrest
    simpa using hread
  cases h with
  | natural h =>
    obtain ⟨c, ds', hds, hc⟩ := hfirst h
    refine .inr ⟨c, ds', hds, hc, ?_⟩
    rw [hexact h, numberOf_exact false (by simp)]
    rfl
  | negative h hne =>
    refine .inl ⟨_, rfl, ?_⟩
    rw [hexact h, numberOf_exact true (fun _ => hne)]
    rfl
  | minusZero => exact .inl ⟨_, rfl, hexact .zero⟩
  | @inexact sign ds fraction exponent f e hsign h hf he hany =>
    have hread : ∀ negative, number? negative (ds ++ fraction ++ exponent ++ rest) =
        some (.other, rest) := by
      intro negative
      rw [number?_of_parts h hf he hrest, numberOf, hany]
      rfl
    rcases hsign with rfl | rfl
    · obtain ⟨c, ds', rfl, hc⟩ := hfirst h
      exact .inr ⟨c, _, rfl, hc, hread false⟩
    · exact .inl ⟨_, rfl, by simpa using hread true⟩

/-! ## Reading documents

What is needed of a document when it is read inside another one is that it starts with none of the
characters by which the outer one could go on. -/

theorem skipBlanks_append {b : List Char} (hb : IsBlanks b) (cs : List Char) :
    skipBlanks (b ++ cs) = skipBlanks cs := List.dropWhile_append_of_pos hb

theorem skipBlanks_cons {c : Char} (hc : isBlank c = false) (cs : List Char) :
    skipBlanks (c :: cs) = c :: cs := by simp [skipBlanks, hc]

/-- Behind a document inside another one there are blanks, and a comma or a closing bracket. -/
theorem stops_append {b : List Char} (hb : IsBlanks b) {c : Char}
    (hc : c = ',' ∨ c = ']' ∨ c = '\x7d') (rest : List Char) : Stops (b ++ c :: rest) := by
  have hfirst : ∀ c, isBlank c = true ∨ c = ',' ∨ c = ']' ∨ c = '\x7d' →
      c.isDigit = false ∧ c ≠ '.' ∧ c ≠ 'e' ∧ c ≠ 'E' := by
    intro c hc
    have hblank : isBlank c = true → c = ' ' ∨ c = '\n' ∨ c = '\t' ∨ c = '\r' := by
      simp [isBlank, or_assoc]
    rcases hc with h | rfl | rfl | rfl
    · rcases hblank h with rfl | rfl | rfl | rfl <;> decide
    all_goals decide
  intro c' hc'
  cases b with
  | nil =>
    cases hc'
    exact hfirst _ (.inr hc)
  | cons c b =>
    cases hc'
    exact hfirst _ (.inl (hb _ List.mem_cons_self))

/-- A document starts with a character that is neither a blank nor a closing bracket. -/
def Starts (cs : List Char) : Prop := ∃ c cs', cs = c :: cs' ∧ isBlank c = false ∧ c ≠ ']' ∧ c ≠ '}'

/-- How a phrase is read. Only a number depends on what comes behind it. -/
def Phrase.Reads (cs : List Char) : Phrase → Prop
  | .document d => ∀ fuel b rest, IsBlanks b → (Number cs d → Stops rest) →
      2 * cs.length ≤ fuel + 1 → document? fuel (b ++ cs ++ rest) = some (d, rest)
  | .items ds => ∀ fuel b rest, IsBlanks b → 2 * cs.length ≤ fuel →
      items? fuel (b ++ cs ++ ']' :: rest) = some (ds, rest)
  | .members ms => ∀ fuel b rest, IsBlanks b → 2 * cs.length ≤ fuel →
      members? fuel (b ++ cs ++ '}' :: rest) = some (ms, rest)

theorem ne_of_isDigit {c x : Char} (hc : c.isDigit = true) (hx : x.isDigit = false) : c ≠ x := by
  rintro rfl
  cases hc.symm.trans hx

theorem isBlank_of_isDigit {c : Char} (hc : c.isDigit = true) : isBlank c = false := by
  simp [isBlank, ne_of_isDigit hc]

theorem starts_of_number {d : Document} (h : Number cs d) : Starts cs := by
  have hrest : Stops [] := fun c hc => by cases hc
  rcases number?_of_number h hrest with
    ⟨ds, rfl, -⟩ | ⟨c, ds, rfl, hc, -⟩
  · exact ⟨_, _, rfl, by decide⟩
  · exact ⟨c, ds, rfl, isBlank_of_isDigit hc, ne_of_isDigit hc rfl, ne_of_isDigit hc rfl⟩

theorem Spells.starts {p : Phrase} (h : Spells cs p) : Starts cs := by
  induction h with
  | number h => exact starts_of_number h
  | item _ _ ih =>
    obtain ⟨c, cs', rfl, hc⟩ := ih
    exact ⟨c, _, rfl, hc⟩
  | items _ _ _ _ ih _ =>
    obtain ⟨c, cs', rfl, hc⟩ := ih
    exact ⟨c, _, rfl, hc⟩
  | _ => exact ⟨_, _, rfl, by decide⟩

theorem Starts.skipBlanks {b : List Char} (h : Starts cs) (hb : IsBlanks b) (rest : List Char) :
    Json.skipBlanks (b ++ cs ++ rest) = cs ++ rest := by
  obtain ⟨c, cs, rfl, hc, -⟩ := h
  rw [List.append_assoc, skipBlanks_append hb, List.cons_append, skipBlanks_cons hc]

theorem document?_digit {c : Char} {ds : List Char} (hc : c.isDigit = true)
    (hskip : skipBlanks cs = c :: ds) (fuel : Nat) :
    document? (fuel + 1) cs = number? false (c :: ds) := by
  rw [document?, hskip]
  split
  case h_8 => rfl
  all_goals
    rename_i heq
    cases heq
    cases hc

theorem document?_number {d : Document} (h : Number cs d) {fuel : Nat} {b : List Char}
    (hb : IsBlanks b) (hrest : Stops rest) : document? (fuel + 1) (b ++ cs ++ rest) = some (d, rest) := by
  have hskip := (starts_of_number h).skipBlanks hb rest
  rcases number?_of_number h hrest with ⟨ds, rfl, hread⟩ | ⟨c, ds, rfl, hc, hread⟩
  · rw [document?, hskip]
    exact hread
  · rw [document?_digit hc hskip]
    exact hread

theorem recordOf_named (ms : List (String × Document)) :
    recordOf (ms.map fun m => (some m.1, m.2)) = .record ms := by
  have h : (ms.map fun m => (some m.1, m.2)).mapM
      (fun m : Option String × Document => m.1.map fun name => (name, m.2)) = some ms := by
    induction ms with
    | nil => rfl
    | cons m ms ih => rw [List.map_cons, List.mapM_cons, ih]; rfl
  rw [recordOf, h]

theorem recordOf_nameless {ms : List (Option String × Document)} {d : Document}
    (h : (none, d) ∈ ms) : recordOf ms = .other := by
  have h : ms.mapM (fun m : Option String × Document => m.1.map fun name => (name, m.2)) = none := by
    induction ms with
    | nil => cases h
    | cons m ms ih =>
      rw [List.mapM_cons]
      rcases List.mem_cons.mp h with rfl | h
      · rfl
      · rw [ih h]
        cases m.1 <;> rfl
  rw [recordOf, h]

theorem document?_quoted {name : Option String} (h : Denotes cs name) {b : List Char}
    (hb : IsBlanks b) (fuel : Nat) (rest : List Char) :
    document? (fuel + 1) (b ++ ('"' :: cs ++ ['"']) ++ rest) = some (name.elim .other .text, rest) := by
  have hskip : skipBlanks (b ++ ('"' :: cs ++ ['"']) ++ rest) = '"' :: (cs ++ '"' :: rest) := by
    rw [List.append_assoc, skipBlanks_append hb]
    simp [skipBlanks_cons (c := '"') rfl]
  rw [document?, hskip]
  cases name <;> simp [string?_of_denotes h]

/-- A list that is not empty is read item by item, -/
theorem document?_list {b b' : List Char} (hb : IsBlanks b) (hb' : IsBlanks b') (hcs : Starts cs)
    (fuel : Nat) (rest : List Char) :
    document? (fuel + 1) (b ++ ('[' :: b' ++ cs ++ [']']) ++ rest) =
      (items? fuel ([] ++ cs ++ ']' :: rest)).map fun (ds, rest) => (.list ds, rest) := by
  have hskip : skipBlanks (b ++ ('[' :: b' ++ cs ++ [']']) ++ rest) =
      '[' :: (b' ++ cs ++ ']' :: rest) := by
    rw [List.append_assoc, skipBlanks_append hb]
    simp [skipBlanks_cons (c := '[') rfl]
  have hinner := hcs.skipBlanks hb' (']' :: rest)
  obtain ⟨c, cs, rfl, -, hc, -⟩ := hcs
  rw [document?, hskip]
  simp only [hinner, List.cons_append]
  split
  · rename_i heq
    cases heq
    exact absurd rfl hc
  · rfl

/-- and a record that is not empty member by member. -/
theorem document?_record {b b' : List Char} (hb : IsBlanks b) (hb' : IsBlanks b') (hcs : Starts cs)
    (fuel : Nat) (rest : List Char) :
    document? (fuel + 1) (b ++ ('\x7b' :: b' ++ cs ++ ['\x7d']) ++ rest) =
      (members? fuel ([] ++ cs ++ '\x7d' :: rest)).map fun (ms, rest) => (recordOf ms, rest) := by
  have hskip : skipBlanks (b ++ ('\x7b' :: b' ++ cs ++ ['\x7d']) ++ rest) =
      '\x7b' :: (b' ++ cs ++ '\x7d' :: rest) := by
    rw [List.append_assoc, skipBlanks_append hb]
    simp [skipBlanks_cons (c := '\x7b') rfl]
  have hinner := hcs.skipBlanks hb' ('\x7d' :: rest)
  obtain ⟨c, cs, rfl, -, -, hc⟩ := hcs
  rw [document?, hskip]
  simp only [hinner, List.cons_append]
  split
  · rename_i heq
    cases heq
    exact absurd rfl hc
  · rfl

theorem Starts.exists_fuel {fuel : Nat} (h : Starts cs) (hfuel : 2 * cs.length ≤ fuel + 1) :
    ∃ n, fuel = n + 1 := by
  obtain ⟨c, cs, rfl, -⟩ := h
  rw [List.length_cons] at hfuel
  exact ⟨fuel - 1, by omega⟩

theorem isBlanks_nil : IsBlanks [] := fun _ h => absurd h List.not_mem_nil

theorem members?_member {quoted b b₁ cs : List Char} {name : Option String}
    (hname : Denotes quoted name) (hb : IsBlanks b) (h₁ : IsBlanks b₁) (fuel : Nat) :
    members? (fuel + 1) (b ++ ('"' :: quoted ++ '"' :: b₁ ++ ':' :: cs)) =
      match document? fuel cs with
      | none => none
      | some (d, rest) =>
        match skipBlanks rest with
        | ',' :: rest => (members? fuel rest).map fun (ms, rest) => ((name, d) :: ms, rest)
        | '\x7d' :: rest => some ([(name, d)], rest)
        | _ => none := by
  have hskip : skipBlanks (b ++ ('"' :: quoted ++ '"' :: b₁ ++ ':' :: cs)) =
      '"' :: (quoted ++ '"' :: (b₁ ++ ':' :: cs)) := by
    rw [skipBlanks_append hb]
    simp [skipBlanks_cons (c := '"') rfl]
  have hcolon : skipBlanks (b₁ ++ ':' :: cs) = ':' :: cs := by
    rw [skipBlanks_append h₁, skipBlanks_cons rfl]
  have hread := members?.eq_2 (b ++ ('"' :: quoted ++ '"' :: b₁ ++ ':' :: cs)) fuel
  rw [hskip] at hread
  simp only [string?_of_denotes hname, hcolon] at hread
  exact hread

/-! ### One rule of the grammar at a time

Reading spends fuel, and the blanks in front of a phrase are skipped before it is looked at. Both are
settled once for documents; what is left of a rule is one step of the reader on the characters that
the rule starts with, and what the induction says about the phrases inside it. -/

theorem reads_document {d : Document} (hcs : Starts cs)
    (h : ∀ fuel b rest, IsBlanks b → (Number cs d → Stops rest) → 2 * cs.length ≤ fuel + 2 →
      document? (fuel + 1) (b ++ cs ++ rest) = some (d, rest)) : (Phrase.document d).Reads cs := by
  intro fuel b rest hb hrest hfuel
  obtain ⟨fuel, rfl⟩ := hcs.exists_fuel hfuel
  exact h fuel b rest hb hrest hfuel

theorem reads_noItems {b : List Char} (hb : IsBlanks b) :
    (Phrase.document (.list [])).Reads ('[' :: b ++ [']']) := by
  have hstarts := (Spells.noItems hb).starts
  apply reads_document hstarts
  intro fuel b' rest hb' _ _
  rw [document?, hstarts.skipBlanks hb']
  simp [skipBlanks_append hb, skipBlanks_cons (c := ']') rfl]

theorem reads_list {b : List Char} {ds : List Document} (hb : IsBlanks b)
    (h : Spells cs (.items ds)) (ih : (Phrase.items ds).Reads cs) :
    (Phrase.document (.list ds)).Reads ('[' :: b ++ cs ++ [']']) := by
  apply reads_document (Spells.list hb h).starts
  intro fuel b' rest hb' _ hfuel
  simp only [List.length_append, List.length_cons] at hfuel
  rw [document?_list hb' hb h.starts, ih fuel [] rest isBlanks_nil (by omega)]
  rfl

theorem reads_noMembers {b : List Char} (hb : IsBlanks b) :
    (Phrase.document (.record [])).Reads ('\x7b' :: b ++ ['\x7d']) := by
  have hstarts := (Spells.noMembers hb).starts
  apply reads_document hstarts
  intro fuel b' rest hb' _ _
  rw [document?, hstarts.skipBlanks hb']
  simp [skipBlanks_append hb, skipBlanks_cons (c := '\x7d') rfl]

/-- Whether the names of all members are texts or not, the members are read in the same way: it is
only afterwards that a record is made of them, or none. -/
theorem reads_record {b : List Char} {ms : List (Option String × Document)} (hb : IsBlanks b)
    (h : Spells cs (.members ms)) (ih : (Phrase.members ms).Reads cs) :
    (Phrase.document (recordOf ms)).Reads ('\x7b' :: b ++ cs ++ ['\x7d']) := by
  have hstarts : Starts ('\x7b' :: b ++ cs ++ ['\x7d']) := ⟨_, _, rfl, by decide⟩
  apply reads_document hstarts
  intro fuel b' rest hb' _ hfuel
  simp only [List.length_append, List.length_cons] at hfuel
  rw [document?_record hb' hb h.starts, ih fuel [] rest isBlanks_nil (by omega)]
  rfl

theorem reads_item {b : List Char} {d : Document} (h : Spells cs (.document d)) (hb : IsBlanks b)
    (ih : (Phrase.document d).Reads cs) : (Phrase.items [d]).Reads (cs ++ b) := by
  intro fuel b' rest hb' hfuel
  obtain ⟨fuel, rfl⟩ := (Spells.item h hb).starts.exists_fuel (Nat.le_succ_of_le hfuel)
  have hpos : 0 < cs.length := by
    obtain ⟨c, cs, rfl, -⟩ := h.starts
    exact Nat.succ_pos _
  simp only [List.length_append] at hfuel
  have hread := ih fuel b' (b ++ ']' :: rest) hb' (fun _ => stops_append hb (by decide) rest)
    (by omega)
  rw [items?, ← List.append_assoc b', List.append_assoc (b' ++ cs), hread]
  simp [skipBlanks_append hb, skipBlanks_cons (c := ']') rfl]

theorem reads_items {b₁ b₂ cs' : List Char} {d : Document} {ds : List Document}
    (h : Spells cs (.document d)) (h₁ : IsBlanks b₁) (h₂ : IsBlanks b₂)
    (hrest : Spells cs' (.items ds)) (ih : (Phrase.document d).Reads cs)
    (ih' : (Phrase.items ds).Reads cs') :
    (Phrase.items (d :: ds)).Reads (cs ++ b₁ ++ ',' :: b₂ ++ cs') := by
  intro fuel b rest hb hfuel
  obtain ⟨fuel, rfl⟩ := (Spells.items h h₁ h₂ hrest).starts.exists_fuel (Nat.le_succ_of_le hfuel)
  simp only [List.length_append, List.length_cons] at hfuel
  have hread := ih fuel b (b₁ ++ ',' :: (b₂ ++ cs' ++ ']' :: rest)) hb
    (fun _ => stops_append h₁ (by decide) _) (by omega)
  -- The text is the first item with the comma and all the other items behind it.
  have htext : b ++ (cs ++ b₁ ++ ',' :: b₂ ++ cs') ++ ']' :: rest =
      b ++ cs ++ (b₁ ++ ',' :: (b₂ ++ cs' ++ ']' :: rest)) := by simp
  rw [items?, htext, hread]
  simp only [skipBlanks_append h₁, skipBlanks_cons (c := ',') rfl]
  rw [ih' fuel b₂ rest h₂ (by omega)]
  rfl

theorem reads_member {quoted b₁ b₂ b₃ : List Char} {name : Option String} {d : Document}
    (hname : Denotes quoted name) (h₁ : IsBlanks b₁) (h₂ : IsBlanks b₂)
    (h : Spells cs (.document d)) (h₃ : IsBlanks b₃) (ih : (Phrase.document d).Reads cs) :
    (Phrase.members [(name, d)]).Reads ('"' :: quoted ++ '"' :: b₁ ++ ':' :: b₂ ++ cs ++ b₃) := by
  intro fuel b rest hb hfuel
  obtain ⟨fuel, rfl⟩ :=
    (Spells.member hname h₁ h₂ h h₃).starts.exists_fuel (Nat.le_succ_of_le hfuel)
  simp only [List.length_append, List.length_cons] at hfuel
  have hread := ih fuel b₂ (b₃ ++ '\x7d' :: rest) h₂ (fun _ => stops_append h₃ (by decide) _)
    (by omega)
  have htext : b ++ ('"' :: quoted ++ '"' :: b₁ ++ ':' :: b₂ ++ cs ++ b₃) ++ '\x7d' :: rest =
      b ++ ('"' :: quoted ++ '"' :: b₁ ++ ':' :: (b₂ ++ cs ++ (b₃ ++ '\x7d' :: rest))) := by simp
  rw [htext, members?_member hname hb h₁, hread]
  simp only [skipBlanks_append h₃, skipBlanks_cons (c := '\x7d') rfl]

theorem reads_members {quoted b₁ b₂ b₃ b₄ cs' : List Char} {name : Option String} {d : Document}
    {ms : List (Option String × Document)} (hname : Denotes quoted name) (h₁ : IsBlanks b₁)
    (h₂ : IsBlanks b₂) (h : Spells cs (.document d)) (h₃ : IsBlanks b₃) (h₄ : IsBlanks b₄)
    (hrest : Spells cs' (.members ms)) (ih : (Phrase.document d).Reads cs)
    (ih' : (Phrase.members ms).Reads cs') :
    (Phrase.members ((name, d) :: ms)).Reads
      ('"' :: quoted ++ '"' :: b₁ ++ ':' :: b₂ ++ cs ++ b₃ ++ ',' :: b₄ ++ cs') := by
  intro fuel b rest hb hfuel
  obtain ⟨fuel, rfl⟩ := (Spells.members hname h₁ h₂ h h₃ h₄ hrest).starts.exists_fuel
    (Nat.le_succ_of_le hfuel)
  simp only [List.length_append, List.length_cons] at hfuel
  have hread := ih fuel b₂ (b₃ ++ ',' :: (b₄ ++ cs' ++ '\x7d' :: rest)) h₂
    (fun _ => stops_append h₃ (by decide) _) (by omega)
  have htext : b ++ ('"' :: quoted ++ '"' :: b₁ ++ ':' :: b₂ ++ cs ++ b₃ ++ ',' :: b₄ ++ cs') ++
      '\x7d' :: rest = b ++ ('"' :: quoted ++ '"' :: b₁ ++ ':' ::
        (b₂ ++ cs ++ (b₃ ++ ',' :: (b₄ ++ cs' ++ '\x7d' :: rest)))) := by simp
  rw [htext, members?_member hname hb h₁, hread]
  simp only [skipBlanks_append h₃, skipBlanks_cons (c := ',') rfl]
  rw [ih' fuel b₄ rest h₄ (by omega)]
  rfl

/-- Every text is read as what it spells. The induction is on the grammar: the reader, which goes by
fuel, has no structure of its own to follow. -/
theorem Spells.reads {p : Phrase} (h : Spells cs p) : p.Reads cs := by
  induction h with
  | null =>
    apply reads_document Spells.null.starts
    intro fuel b rest hb _ _
    rw [document?, Spells.null.starts.skipBlanks hb]
    rfl
  | yes =>
    apply reads_document Spells.yes.starts
    intro fuel b rest hb _ _
    rw [document?, Spells.yes.starts.skipBlanks hb]
    rfl
  | no =>
    apply reads_document Spells.no.starts
    intro fuel b rest hb _ _
    rw [document?, Spells.no.starts.skipBlanks hb]
    rfl
  | number h =>
    apply reads_document (starts_of_number h)
    intro fuel b rest hb hrest _
    exact document?_number h hb (hrest h)
  | text h =>
    apply reads_document (Spells.text h).starts
    intro fuel b rest hb _ _
    exact document?_quoted h hb fuel rest
  | noText h =>
    apply reads_document (Spells.noText h).starts
    intro fuel b rest hb _ _
    exact document?_quoted h hb fuel rest
  | noItems hb => exact reads_noItems hb
  | list hb h ih => exact reads_list hb h ih
  | noMembers hb => exact reads_noMembers hb
  | record hb h ih =>
    rw [← recordOf_named]
    exact reads_record hb h ih
  | nameless hb h hname ih =>
    obtain ⟨d, hd⟩ := hname
    rw [← recordOf_nameless hd]
    exact reads_record hb h ih
  | item h hb ih => exact reads_item h hb ih
  | items h h₁ h₂ hrest ih ih' => exact reads_items h h₁ h₂ hrest ih ih'
  | member hname h₁ h₂ h h₃ ih => exact reads_member hname h₁ h₂ h h₃ ih
  | members hname h₁ h₂ h h₃ h₄ hrest ih ih' =>
    exact reads_members hname h₁ h₂ h h₃ h₄ hrest ih ih'

/-! ## Reading texts

Around the document there may be blanks, and behind it nothing else. -/

/-- A text is that of one document, with blanks around it. -/
def Spelled (text : String) (d : Document) : Prop :=
  ∃ b cs b', text.toList = b ++ cs ++ b' ∧ IsBlanks b ∧ Spells cs (.document d) ∧ IsBlanks b'

theorem isEmpty_skipBlanks : (skipBlanks cs).isEmpty = true ↔ IsBlanks cs := by
  rw [skipBlanks, List.isEmpty_iff, List.dropWhile_eq_nil_iff, IsBlanks]

/-- What comes behind a document decides whether a text is read at all. -/
theorem read?_of_spells {text : String} {b : List Char} {d : Document}
    (htext : text.toList = b ++ cs ++ rest) (hb : IsBlanks b) (h : Spells cs (.document d))
    (hrest : Number cs d → Stops rest) :
    read? text = if (skipBlanks rest).isEmpty then some d else none := by
  have hread := h.reads (2 * (b ++ cs ++ rest).length + 2) b rest hb hrest (by simp; omega)
  rw [read?, htext, readChars?, hread]

theorem read?_of_spelled {text : String} {d : Document} (h : Spelled text d) : read? text = some d := by
  obtain ⟨b, cs, b', htext, hb, hd, hb'⟩ := h
  have hstops : Number cs d → Stops b' := by
    rintro - c hc
    obtain ⟨rest, rfl⟩ := List.head?_eq_some_iff.mp hc
    simpa [Stops] using stops_append (b := [c]) (fun x hx => hb' x (by simp_all)) (.inl rfl) [] c rfl
  rw [read?_of_spells htext hb hd hstops, if_pos (isEmpty_skipBlanks.mpr hb')]

/-- Nothing but blanks may come behind a record. -/
theorem read?_trailing {text : String} {b : List Char} {ms : List (String × Document)}
    (htext : text.toList = b ++ cs ++ rest) (hb : IsBlanks b) (h : Spells cs (.document (.record ms)))
    (hrest : ¬IsBlanks rest) : read? text = none := by
  rw [read?_of_spells htext hb h (fun h => by cases h), if_neg (hrest ∘ isEmpty_skipBlanks.mp)]

/-! ## Writing

The writer uses one spelling for everything. It is shown to be one that the grammar has. -/

/-- Only zero is written with a zero in front. -/
theorem head_toDigits {n : Nat} (hn : n ≠ 0) : (Nat.toDigits 10 n).head? ≠ some '0' := by
  induction n using Nat.strongRecOn with
  | _ n ih =>
    by_cases hsmall : n < 10
    · rw [Nat.toDigits_of_lt_base hsmall, List.head?_cons]
      simpa using hn
    · obtain ⟨c, cs, hcs⟩ := List.exists_cons_of_ne_nil (Nat.toDigits_ne_nil (n := n / 10) (b := 10))
      have hhead := ih (n / 10) (by omega) (by omega)
      rw [hcs] at hhead
      rw [Nat.toDigits_of_base_le (by decide) (by omega), hcs]
      exact hhead

theorem whole_toDigits (n : Nat) : Whole (Nat.toDigits 10 n) := by
  by_cases hn : n = 0
  · rw [hn]
    exact .zero
  · exact .digits (Text.isDigits_toDigits n) (head_toDigits hn)

theorem number_writeInteger (n : Int) : Number (writeInteger n) (.integer n) := by
  unfold writeInteger
  have hvalue : Nat.ofDigitChars 10 (Nat.toDigits 10 n.natAbs) 0 = n.natAbs := Nat.ofDigitChars_ten_toDigits
  split
  · have h := Number.negative (whole_toDigits n.natAbs) (by rw [hvalue]; omega)
    rwa [hvalue, show -(n.natAbs : Int) = n by omega] at h
  · have h := Number.natural (whole_toDigits n.natAbs)
    rwa [hvalue, show (n.natAbs : Int) = n by omega] at h

theorem hexDigit?_digitChar : ∀ n < 16, Text.hexDigit? (Nat.digitChar n) = some n := by decide

theorem quoted_writeChar (c : Char) {codes : List Nat} (h : Quoted cs codes) :
    Quoted (writeChar c ++ cs) (c.toNat :: codes) := by
  have hescape : ∀ {e}, escaped? e = some c → Quoted ('\\' :: e :: cs) (c.toNat :: codes) :=
    fun he => .escape he h
  unfold writeChar
  split_ifs with hquote hbackslash h₁ h₂ h₃ h₄ h₅ hcontrol
  · exact hescape (by rw [hquote]; rfl)
  · exact hescape (by rw [hbackslash]; rfl)
  · exact hescape (by rw [h₁]; rfl)
  · exact hescape (by rw [h₂]; rfl)
  · exact hescape (by rw [h₃]; rfl)
  · exact hescape (by rw [h₄]; rfl)
  · exact hescape (by rw [h₅]; rfl)
  · have hlt : c.toNat < 32 := hcontrol
    have hquoted := Quoted.unicode (hexDigit?_digitChar 0 (by omega)) (hexDigit?_digitChar 0 (by omega))
      (hexDigit?_digitChar (c.toNat / 16) (by omega)) (hexDigit?_digitChar (c.toNat % 16) (by omega)) h
    rwa [show ((0 * 16 + 0) * 16 + c.toNat / 16) * 16 + c.toNat % 16 = c.toNat by omega] at hquoted
  · exact .plain ⟨Char.not_lt.mp hcontrol, hquote, hbackslash⟩ h

theorem denotes_flatMap_writeChar (s : String) : Denotes (s.toList.flatMap writeChar) (some s) := by
  have hquoted : ∀ cs : List Char, Quoted (cs.flatMap writeChar) (cs.map Char.toNat) := by
    intro cs
    induction cs with
    | nil => exact .nil
    | cons c cs ih => exact quoted_writeChar c ih
  have hjoined : ∀ cs : List Char, Joined (cs.map Char.toNat) cs := by
    intro cs
    induction cs with
    | nil => exact .nil
    | cons c cs ih => exact .single ih
  exact .text (hquoted _) (hjoined _)

mutual

/-- A document is written as one of its texts. The recursion is on the document, together with its
lists of items and of members. -/
theorem spells_writeChars : ∀ d : Document, Spells (writeChars d) (.document d)
  | .null => .null
  | .bool true => .yes
  | .bool false => .no
  | .integer n => .number (number_writeInteger n)
  | .text s => .text (denotes_flatMap_writeChar s)
  | .list [] => .noItems isBlanks_nil
  | .list (d :: ds) => .list isBlanks_nil (spells_writeItems (d :: ds) (by simp))
  | .record [] => .noMembers isBlanks_nil
  | .record (m :: ms) => .record isBlanks_nil (spells_writeMembers (m :: ms) (by simp))
  | .other => .number .minusZero

theorem spells_writeItems : ∀ ds : List Document, ds ≠ [] → Spells (writeItems ds) (.items ds)
  | [d], _ => by
    have h := Spells.item (spells_writeChars d) isBlanks_nil
    rwa [List.append_nil] at h
  | d :: d' :: ds, _ => by
    have h := Spells.items (spells_writeChars d) isBlanks_nil isBlanks_nil
      (spells_writeItems (d' :: ds) (by simp))
    simpa [writeItems] using h

theorem spells_writeMembers : ∀ ms : List (String × Document), ms ≠ [] →
    Spells (writeMembers ms) (.members (ms.map fun m => (some m.1, m.2)))
  | [(name, d)], _ => by
    have h := Spells.member (denotes_flatMap_writeChar name) isBlanks_nil isBlanks_nil
      (spells_writeChars d) isBlanks_nil
    simpa [writeMembers, writeString] using h
  | (name, d) :: m :: ms, _ => by
    have h := Spells.members (denotes_flatMap_writeChar name) isBlanks_nil isBlanks_nil
      (spells_writeChars d) isBlanks_nil isBlanks_nil (spells_writeMembers (m :: ms) (by simp))
    simpa [writeMembers, writeString] using h

end

theorem read?_write (d : Document) : read? (write d) = some d := by
  refine read?_of_spelled ⟨[], writeChars d, [], ?_, isBlanks_nil, spells_writeChars d, isBlanks_nil⟩
  simp [write]

end WasmHost.Json
