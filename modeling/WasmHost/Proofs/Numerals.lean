import WasmHost.Text.Integer
import Mathlib.Algebra.Order.Ring.Int

/-!
# Integers and their numerals

An integer is read from just the texts that are numerals of it, among which is the text it is shown as.

The reader checks the range as it goes, digit by digit, and it has to, because its numbers are
bounded: it cannot first compute the value and compare it then. What makes this correct is that the
absolute value grows with every digit. So once it is out of the range, it stays out, and the early
error is the right one (`walk_eq_ok`). Without this observation one might think that a number like
`-128` needs care, whose absolute value is out of the range of positive numbers; it does not, as the
walk goes downwards for negative numbers.

`Numeral` is the grammar, and says nothing about how a numeral is read. Leading zeros are allowed,
and so is a plus sign.
-/

namespace WasmHost.Text

/-! ## Numerals

Showing an integer gives one of its numerals. -/

/-- One or more decimal digits. -/
def IsDigits (cs : List Char) : Prop := cs ≠ [] ∧ ∀ c ∈ cs, c.isDigit = true

/-- Decimal digits, behind a sign or not, denote an integer. -/
inductive Numeral : List Char → Int → Prop
  | plain {ds : List Char} (h : IsDigits ds) : Numeral ds (Nat.ofDigitChars 10 ds 0)
  | plus {ds : List Char} (h : IsDigits ds) : Numeral ('+' :: ds) (Nat.ofDigitChars 10 ds 0)
  | minus {ds : List Char} (h : IsDigits ds) : Numeral ('-' :: ds) (-Nat.ofDigitChars 10 ds 0)

theorem IsDigits.head {c : Char} {cs : List Char} (h : IsDigits (c :: cs)) : c.isDigit = true :=
  h.2 c List.mem_cons_self

theorem isDigits_toDigits (n : Nat) : IsDigits (Nat.toDigits 10 n) :=
  ⟨Nat.toDigits_ne_nil, fun _ h => Nat.isDigit_of_mem_toDigits (by decide) (by decide) h⟩

/-- An integer is shown as a numeral of it. -/
theorem numeral_toString (n : Int) : Numeral (toString n).toList n := by
  rw [Int.toString_eq_repr, Int.repr_eq_if]
  by_cases hn : 0 ≤ n
  · rw [if_pos hn, Nat.toList_repr]
    have h := Numeral.plain (isDigits_toDigits n.toNat)
    rwa [Nat.ofDigitChars_ten_toDigits, Int.toNat_of_nonneg hn] at h
  · rw [if_neg hn, String.toList_append, Nat.toList_repr]
    have h := Numeral.minus (isDigits_toDigits (-n).toNat)
    rwa [Nat.ofDigitChars_ten_toDigits, Int.toNat_of_nonneg (by omega), Int.neg_neg] at h

theorem le_ofDigitChars (cs : List Char) (a : Nat) : a ≤ Nat.ofDigitChars 10 cs a := by
  induction cs generalizing a with
  | nil => rw [Nat.ofDigitChars_nil]
  | cons c cs ih =>
    rw [Nat.ofDigitChars_cons]
    exact le_trans (by omega) (ih _)

/-! ## Reading integers

The sign is passed along as `1` or `-1`, so that one proof does for both directions. -/

theorem digit?_of_isDigit {c : Char} (h : c.isDigit = true) : digit? c = some (c.toNat - '0'.toNat) := by
  have hc : '0' ≤ c ∧ c ≤ '9' := by simpa [Char.isDigit, Char.le_def] using h
  rw [digit?, if_pos hc]

theorem digit?_eq_none {c : Char} (h : ¬c.isDigit = true) : digit? c = none := by
  have hc : ¬('0' ≤ c ∧ c ≤ '9') := by simpa [Char.isDigit, Char.le_def] using h
  rw [digit?, if_neg hc]

section

variable {low high n : Int} {sign : Int} (hlow : low < 0) (hhigh : 0 ≤ high)
include hlow hhigh

/-- What is read on from a value within the range. Since values only grow away from zero, a value that
leaves the range does not come back. -/
theorem walk_eq_ok (hsign : sign = 1 ∨ sign = -1) (cs : List Char) (a : Nat)
    (ha : low ≤ sign * a ∧ sign * a ≤ high) :
    parseBounded.walk low high sign (sign * a) cs = .ok n ↔
      (∀ c ∈ cs, c.isDigit = true) ∧ n = sign * Nat.ofDigitChars 10 cs a ∧ low ≤ n ∧ n ≤ high := by
  induction cs generalizing a with
  | nil =>
    rw [parseBounded.walk, Nat.ofDigitChars_nil, Except.ok.injEq]
    constructor
    · rintro rfl
      exact ⟨fun _ h => absurd h List.not_mem_nil, rfl, ha⟩
    · rintro ⟨-, rfl, -⟩
      rfl
  | cons c cs ih =>
    by_cases hc : c.isDigit = true
    · have hnext : 10 * (sign * a) + sign * ((c.toNat - '0'.toNat : Nat) : Int) =
          sign * ((10 * a + (c.toNat - '0'.toNat) : Nat) : Int) := by
        rcases hsign with rfl | rfl <;> push_cast <;> omega
      have hgrow := le_ofDigitChars cs (10 * a + (c.toNat - '0'.toNat))
      simp only [parseBounded.walk, digit?_of_isDigit hc, hnext, List.forall_mem_cons, hc, true_and,
        Nat.ofDigitChars_cons]
      -- The value with the new digit. If it is out of the range, then so is every value that comes
      -- of it.
      generalize 10 * a + (c.toNat - '0'.toNat) = b at hgrow
      split
      · rename_i hover
        refine iff_of_false (fun h => by cases h) ?_
        rintro ⟨-, hn, -, hle⟩
        rcases hsign with rfl | rfl <;> omega
      · split
        · rename_i hunder
          refine iff_of_false (fun h => by cases h) ?_
          rintro ⟨-, hn, hle, -⟩
          rcases hsign with rfl | rfl <;> omega
        · exact ih b ⟨by omega, by omega⟩
    · simp only [parseBounded.walk, digit?_eq_none hc]
      exact iff_of_false (fun h => by cases h) fun h => hc (h.1 c List.mem_cons_self)

theorem walk_zero_eq_ok (hsign : sign = 1 ∨ sign = -1) {cs : List Char} (hcs : cs ≠ []) :
    parseBounded.walk low high sign 0 cs = .ok n ↔
      IsDigits cs ∧ n = sign * Nat.ofDigitChars 10 cs 0 ∧ low ≤ n ∧ n ≤ high := by
  have h := walk_eq_ok (n := n) hlow hhigh hsign cs 0 (by simp; omega)
  rw [IsDigits, and_assoc, and_iff_right hcs]
  simpa using h

/-- Of the integers of a range that extends to both sides of zero, all numerals are read, and nothing
else. -/
theorem parseBounded_eq_ok (cs : List Char) :
    parseBounded low high cs = .ok n ↔ Numeral cs n ∧ low ≤ n ∧ n ≤ high := by
  have hsigns : ¬ '+'.isDigit = true ∧ ¬ '-'.isDigit = true := by decide
  -- The reader looks at the first character for a sign. A sign is no digit, so no two of the cases
  -- overlap.
  unfold parseBounded
  split
  · refine iff_of_false (fun h => by cases h) ?_
    rintro ⟨h, -⟩
    cases h with
    | plain h => exact h.1 rfl
  · refine iff_of_false (fun h => by cases h) ?_
    rintro ⟨h, -⟩
    cases h with
    | plain h => exact hsigns.1 h.head
    | plus h => exact h.1 rfl
  · refine iff_of_false (fun h => by cases h) ?_
    rintro ⟨h, -⟩
    cases h with
    | plain h => exact hsigns.2 h.head
    | minus h => exact h.1 rfl
  · rename_i rest hrest
    rw [walk_zero_eq_ok hlow hhigh (.inl rfl) hrest, one_mul]
    constructor
    · rintro ⟨hds, rfl, hrange⟩
      exact ⟨.plus hds, hrange⟩
    · rintro ⟨h, hrange⟩
      cases h with
      | plain h => exact absurd h.head hsigns.1
      | plus h => exact ⟨h, rfl, hrange⟩
  · rename_i rest hrest
    rw [if_pos hlow, walk_zero_eq_ok hlow hhigh (.inr rfl) hrest,
      Int.neg_one_mul]
    constructor
    · rintro ⟨hds, rfl, hrange⟩
      exact ⟨.minus hds, hrange⟩
    · rintro ⟨h, hrange⟩
      cases h with
      | plain h => exact absurd h.head hsigns.2
      | minus h => exact ⟨h, rfl, hrange⟩
  · rename_i hempty _ _ hplus hminus
    rw [walk_zero_eq_ok hlow hhigh (.inl rfl) hempty, one_mul]
    constructor
    · rintro ⟨hds, rfl, hrange⟩
      exact ⟨.plain hds, hrange⟩
    · rintro ⟨h, hrange⟩
      cases h with
      | plain h => exact ⟨h, rfl, hrange⟩
      | plus h => exact absurd rfl (hplus _)
      | minus h => exact absurd rfl (hminus _)

end

/-- An integer of some bits is read from its numerals. -/
theorem parseSigned_eq_ok {bits : Nat} (hbits : 0 < bits) {text : String} {x : BitVec bits} :
    parseSigned bits text = .ok x ↔ Numeral text.toList x.toInt := by
  have hpow : (Nat.pow 2 (bits - 1) : Nat) = (2 : Int) ^ (bits - 1) := by
    rw [Nat.pow_eq]
    push_cast
    rfl
  have hpos : (0 : Int) < 2 ^ (bits - 1) := Int.pow_pos (by decide)
  have hread (n : Int) : parseBounded (-(2 : Int) ^ (bits - 1)) (2 ^ (bits - 1) - 1) text.toList = .ok n ↔
      Numeral text.toList n ∧ -(2 : Int) ^ (bits - 1) ≤ n ∧ n ≤ 2 ^ (bits - 1) - 1 :=
    parseBounded_eq_ok (by omega) (by omega) text.toList
  rw [parseSigned, hpow]
  constructor
  · intro h
    cases hn : parseBounded (-(2 : Int) ^ (bits - 1)) (2 ^ (bits - 1) - 1) text.toList with
    | error e =>
      rw [hn] at h
      cases h
    | ok n =>
      rw [hn] at h
      cases h
      obtain ⟨hnumeral, hlow, hhigh⟩ := (hread n).mp hn
      rwa [BitVec.toInt_ofInt_eq_self hbits hlow (by omega)]
  · intro h
    have hlow := x.le_toInt
    have hhigh := x.toInt_lt
    rw [(hread x.toInt).mpr ⟨h, hlow, by omega⟩, Except.map, BitVec.ofInt_toInt]

theorem exists_numeral_toInt {bits : Nat} (hbits : 0 < bits) {cs : List Char} :
    (∃ x : BitVec bits, Numeral cs x.toInt) ↔
      ∃ n, Numeral cs n ∧ -2 ^ (bits - 1) ≤ n ∧ n < 2 ^ (bits - 1) := by
  constructor
  · rintro ⟨x, hx⟩
    exact ⟨x.toInt, hx, x.le_toInt, x.toInt_lt⟩
  · rintro ⟨n, hn, hlow, hhigh⟩
    refine ⟨BitVec.ofInt bits n, ?_⟩
    rwa [BitVec.toInt_ofInt_eq_self hbits hlow hhigh]

end WasmHost.Text
