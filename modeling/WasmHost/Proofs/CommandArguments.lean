import WasmHost.CommandLine.Run
import WasmHost.Proofs.Numerals
import WasmHost.Proofs.Storage
import WasmHost.Proofs.Transit
import WasmHost.Proofs.TypedRuns
import WasmHost.Proofs.Failures

/-!
# Words as arguments

The words behind a function's name are read by the kinds of its parameters. The values that come of it
pass the check in front of the call, and words are turned down at the first that stands for no value.

A call with wrong arguments could fail in two places, in the command that reads the words, or in the
check that every call makes. A user should hear from the first, which knows words; the error of the
second speaks of positions and kinds. So what matters is that the two agree on what is wrong:
whatever the command lets through, the check lets through. For the count this is plain. For kinds it
is so because a word is read *as* a value of the parameter's kind, and there is no reader of a kind
that gives a value of another.

The function is asked for its type first and called afterwards, in a world which is not the same.
The queue has been drained in between, and draining it once more changes nothing (`drain_drain`), so
the type is still that type.

Of floating-point numbers nothing is said here but that the word is read by their reader.
-/

namespace WasmHost.Host

open Act

variable {κ σ : Type} {w w' : World κ σ} {s : Nat}

/-! ## Calls with arguments that fit

An error about arguments can only be one of the check. Failures of the engine are never reported in
this form. -/

theorem World.drain_drain (w : World κ σ) (s : Nat) : (w.drain s).drain s = w.drain s := by
  cases hc : w.stores[s]? with
  | some c => exact (World.idle_drain hc).drain_eq
  | none =>
    have hdrain : w.drain s = w := by
      rw [World.drain, World.beginDrain, hc]
      rfl
    rw [hdrain, hdrain]

/-- What a function shows is the type that a call checks the arguments against. -/
theorem Func.type_eq_value {f : Handle} {type : Signature}
    (h : (Func.type s f : Act κ σ Signature).run w = (.value type, w')) :
    w' = w.drain s ∧ ∃ place, (funcPlace s f).run (w.drain s) = (.value place, w.drain s) ∧
      (typeAt s place).run (w.drain s) = (.value type, w.drain s) := by
  obtain ⟨u, w₁, hcontext, h⟩ := run_bind_eq_value h
  cases (run_context s w).symm.trans hcontext
  obtain ⟨place, w₁, hplace, h⟩ := run_bind_eq_value h
  obtain rfl := (funcPlace_looking s f).run_value hplace
  obtain ⟨type', w₁, htype, h⟩ := run_bind_eq_value h
  obtain rfl := (typeAt_looking s place).run_value htype
  rw [Wire.shown_toldSignature] at h
  cases h
  exact ⟨rfl, place, hplace, htype⟩

/-- An error tells that the arguments of a call do not fit. -/
def IsMisfit (e : Error) : Prop :=
  (∃ expected actual, e = .argumentCount expected actual) ∨
    ∃ index expected actual, e = .argumentType index expected actual

theorem Guest.Failure.toError_not_isMisfit (failure : Guest.Failure) :
    ¬IsMisfit failure.toError := by
  by_cases htraps : failure.Traps
  · rw [failure.toError_of_traps htraps]
    rintro (⟨_, _, h⟩ | ⟨_, _, _, h⟩) <;> cases h
  · obtain ⟨fault, -, hfault⟩ := failure.toError_of_not_traps htraps
    rw [hfault]
    rintro (⟨_, _, h⟩ | ⟨_, _, _, h⟩) <;> cases h

/-- A call right after the type was asked for takes all arguments of the kinds that the type has. -/
theorem Func.call_fits {host : Runner κ σ} (hhost : Unfailing host) {f : Handle} {type : Signature}
    {args : List Val} (htype : (Func.type s f : Act κ σ Signature).run w = (.value type, w'))
    (hargs : args.map Val.kind = type.params) {e : Error}
    (he : ((Func.call host s f args).run w').1 = .failure e) : ¬IsMisfit e := by
  obtain ⟨rfl, place, hplace, htypeAt⟩ := type_eq_value htype
  rcases rejects_or_fails hhost (Prod.ext he rfl) with hrejects | ⟨failure, -, rfl⟩
  · obtain ⟨place', type', hplace', htypeAt', hcheck⟩ := hrejects
    rw [World.drain_drain] at hplace' htypeAt'
    cases hplace.symm.trans hplace'
    cases htypeAt.symm.trans htypeAt'
    rw [checkParams_eq_ok hargs] at hcheck
    cases hcheck
  · exact Guest.Failure.toError_not_isMisfit failure

end WasmHost.Host

namespace WasmHost.CommandLine

open Host

/-! ## Words and kinds

`StandsFor` and `Unreadable` are the two sides, and every word is on one of them, for each kind. -/

/-- A word stands for a value of a kind. -/
inductive StandsFor : Kind → String → Val → Prop
  | i32 {word : String} {x : BitVec 32} (h : Text.Numeral word.toList x.toInt) :
      StandsFor .i32 word (.i32 x)
  | i64 {word : String} {x : BitVec 64} (h : Text.Numeral word.toList x.toInt) :
      StandsFor .i64 word (.i64 x)
  | f32 {word : String} {x : Nat} (h : FloatFormat.single.parse word = .ok x) :
      StandsFor .f32 word (.f32 (.ofNat 32 x))
  | f64 {word : String} {x : Nat} (h : FloatFormat.double.parse word = .ok x) :
      StandsFor .f64 word (.f64 (.ofNat 64 x))

/-- A word stands for no value of a kind, and this is why. Only numbers can be written as words. -/
inductive Unreadable : Kind → String → ArgumentError → Prop
  | i32 {word : String} {e : Text.IntegerError} (h : Text.parseSigned 32 word = .error e) :
      Unreadable .i32 word (.integer e)
  | i64 {word : String} {e : Text.IntegerError} (h : Text.parseSigned 64 word = .error e) :
      Unreadable .i64 word (.integer e)
  | f32 {word : String} {e : FloatFormat.LiteralError} (h : FloatFormat.single.parse word = .error e) :
      Unreadable .f32 word (.float e)
  | f64 {word : String} {e : FloatFormat.LiteralError} (h : FloatFormat.double.parse word = .error e) :
      Unreadable .f64 word (.float e)
  | unsupported {kind : Kind} {word : String} (h : kind.isNumber = false) :
      Unreadable kind word (.unsupported kind)

variable {kind : Kind} {kinds : List Kind} {word : String} {words : List String} {v : Val}
  {vs : List Val} {e : ArgumentError}

theorem StandsFor.kind_eq (h : StandsFor kind word v) : v.kind = kind := by
  cases h <;> rfl

/-- A word stands for a value, or it does not. -/
theorem parseArgument_cases (kind : Kind) (word : String) :
    (∃ v, parseArgument kind word = .ok v ∧ StandsFor kind word v) ∨
      ∃ e, parseArgument kind word = .error e ∧ Unreadable kind word e := by
  cases kind with
  | i32 =>
    cases h : Text.parseSigned 32 word with
    | ok x => exact .inl ⟨_, by rw [parseArgument, h]; rfl, .i32 ((Text.parseSigned_eq_ok (by decide)).mp h)⟩
    | error e => exact .inr ⟨_, by rw [parseArgument, h]; rfl, .i32 h⟩
  | i64 =>
    cases h : Text.parseSigned 64 word with
    | ok x => exact .inl ⟨_, by rw [parseArgument, h]; rfl, .i64 ((Text.parseSigned_eq_ok (by decide)).mp h)⟩
    | error e => exact .inr ⟨_, by rw [parseArgument, h]; rfl, .i64 h⟩
  | f32 =>
    cases h : FloatFormat.single.parse word with
    | ok x => exact .inl ⟨_, by rw [parseArgument, h]; rfl, .f32 h⟩
    | error e => exact .inr ⟨_, by rw [parseArgument, h]; rfl, .f32 h⟩
  | f64 =>
    cases h : FloatFormat.double.parse word with
    | ok x => exact .inl ⟨_, by rw [parseArgument, h]; rfl, .f64 h⟩
    | error e => exact .inr ⟨_, by rw [parseArgument, h]; rfl, .f64 h⟩
  | v128 => exact .inr ⟨_, rfl, .unsupported rfl⟩
  | funcref => exact .inr ⟨_, rfl, .unsupported rfl⟩
  | externref => exact .inr ⟨_, rfl, .unsupported rfl⟩

theorem parseArgument_of_standsFor (h : StandsFor kind word v) : parseArgument kind word = .ok v := by
  cases h with
  | i32 h => rw [parseArgument, (Text.parseSigned_eq_ok (by decide)).mpr h]; rfl
  | i64 h => rw [parseArgument, (Text.parseSigned_eq_ok (by decide)).mpr h]; rfl
  | f32 h => rw [parseArgument, h]; rfl
  | f64 h => rw [parseArgument, h]; rfl

theorem parseArgument_of_unreadable (h : Unreadable kind word e) :
    parseArgument kind word = .error e := by
  cases h with
  | i32 h => rw [parseArgument, h]; rfl
  | i64 h => rw [parseArgument, h]; rfl
  | f32 h => rw [parseArgument, h]; rfl
  | f64 h => rw [parseArgument, h]; rfl
  | unsupported h => cases kind <;> first | rfl | cases h

/-! ## Lists of words

The first unreadable word decides, so the error must not depend on the words after it. -/

/-- Words stand for values, each of the kind beside it. -/
def AllStandFor (pairs : List (Kind × String)) (vs : List Val) : Prop :=
  List.Forall₂ (fun p v => StandsFor p.1 p.2 v) pairs vs

/-- The first word that stands for no value is turned down for some reason. -/
def FirstUnreadable (pairs : List (Kind × String)) (e : ArgumentError) : Prop :=
  ∃ before kind word after, pairs = before ++ (kind, word) :: after ∧
    (∃ vs, AllStandFor before vs) ∧ Unreadable kind word e

theorem firstUnreadable_cons_of_standsFor {pairs : List (Kind × String)} (hv : StandsFor kind word v) :
    FirstUnreadable ((kind, word) :: pairs) e ↔ FirstUnreadable pairs e := by
  constructor
  · rintro ⟨before, k, w, after, hpairs, ⟨vs, hbefore⟩, he⟩
    cases before with
    | nil =>
      cases hpairs
      cases (parseArgument_of_standsFor hv).symm.trans (parseArgument_of_unreadable he)
    | cons p before =>
      cases hpairs
      cases hbefore with
      | cons _ hbefore => exact ⟨before, k, w, after, rfl, ⟨_, hbefore⟩, he⟩
  · rintro ⟨before, k, w, after, rfl, ⟨vs, hbefore⟩, he⟩
    exact ⟨(kind, word) :: before, k, w, after, rfl, ⟨v :: vs, .cons hv hbefore⟩, he⟩

theorem firstUnreadable_cons_of_unreadable {pairs : List (Kind × String)} {e' : ArgumentError}
    (he' : Unreadable kind word e') : FirstUnreadable ((kind, word) :: pairs) e ↔ e = e' := by
  constructor
  · rintro ⟨before, k, w, after, hpairs, ⟨vs, hbefore⟩, he⟩
    cases before with
    | nil =>
      cases hpairs
      exact Except.error.inj
        ((parseArgument_of_unreadable he).symm.trans (parseArgument_of_unreadable he'))
    | cons p before =>
      cases hpairs
      cases hbefore with
      | cons hv _ =>
        cases (parseArgument_of_standsFor hv).symm.trans (parseArgument_of_unreadable he')
  · rintro rfl
    exact ⟨[], kind, word, pairs, rfl, ⟨[], .nil⟩, he'⟩

theorem parseEach_cons_of_standsFor (hv : StandsFor kind word v) :
    parseEach (kind :: kinds) (word :: words) = (parseEach kinds words).map (v :: ·) := by
  rw [parseEach, parseArgument_of_standsFor hv]
  cases parseEach kinds words <;> rfl

theorem parseEach_cons_of_unreadable (he : Unreadable kind word e) :
    parseEach (kind :: kinds) (word :: words) = .error e := by
  rw [parseEach, parseArgument_of_unreadable he]
  rfl

/-- Words are read to what they stand for, or turned down for the first that stands for nothing. By
induction on the kinds, with the words beside them; where one of the two lists ends, reading ends as
well. -/
theorem parseEach_spec (kinds : List Kind) (words : List String) :
    (∀ vs, parseEach kinds words = .ok vs ↔ AllStandFor (kinds.zip words) vs) ∧
      ∀ e, parseEach kinds words = .error e ↔ FirstUnreadable (kinds.zip words) e := by
  have hnil : (∀ vs, (.ok [] : Except ArgumentError (List Val)) = .ok vs ↔ AllStandFor [] vs) ∧
      ∀ e, (.ok [] : Except ArgumentError (List Val)) = .error e ↔ FirstUnreadable [] e := by
    refine ⟨fun vs => ?_, fun e => iff_of_false (fun h => by cases h) ?_⟩
    · rw [AllStandFor, List.forall₂_nil_left_iff, Except.ok.injEq, eq_comm]
    · rintro ⟨before, kind, word, after, hpairs, -⟩
      cases before <;> cases hpairs
  induction kinds generalizing words with
  | nil => exact hnil
  | cons kind kinds ih =>
    cases words with
    | nil => exact hnil
    | cons word words =>
      obtain ⟨hok, herror⟩ := ih words
      rw [List.zip_cons_cons]
      -- The first word is read, and everything depends on the others; or it is turned down, and
      -- nothing does.
      rcases parseArgument_cases kind word with ⟨v, -, hv⟩ | ⟨e', -, he'⟩
      · rw [parseEach_cons_of_standsFor hv]
        constructor
        · intro vs
          rw [AllStandFor, List.forall₂_cons_left_iff]
          constructor
          · intro h
            cases hrest : parseEach kinds words with
            | error e =>
              rw [hrest] at h
              cases h
            | ok rest =>
              rw [hrest] at h
              cases h
              exact ⟨v, rest, hv, (hok rest).mp hrest, rfl⟩
          · rintro ⟨v', rest, hv', hrest, rfl⟩
            cases (parseArgument_of_standsFor hv).symm.trans (parseArgument_of_standsFor hv')
            rw [(hok rest).mpr hrest]
            rfl
        · intro e
          rw [firstUnreadable_cons_of_standsFor hv, ← herror e]
          cases parseEach kinds words <;> simp [Except.map]
      · rw [parseEach_cons_of_unreadable he']
        constructor
        · intro vs
          refine iff_of_false (fun h => by cases h) fun h => ?_
          cases h with
          | cons hv _ =>
            cases (parseArgument_of_standsFor hv).symm.trans (parseArgument_of_unreadable he')
        · intro e
          rw [firstUnreadable_cons_of_unreadable he', Except.error.injEq, eq_comm]

theorem AllStandFor.kinds_eq {pairs : List (Kind × String)} (h : AllStandFor pairs vs) :
    vs.map Val.kind = pairs.map Prod.fst := by
  induction h with
  | nil => rfl
  | cons hv _ ih => exact congrArg₂ List.cons hv.kind_eq ih

/-- A value stands in its own text if it is an integer. -/
theorem standsFor_text (h : v.kind = .i32 ∨ v.kind = .i64) : StandsFor v.kind v.text v := by
  cases v with
  | i32 x => exact .i32 (Text.numeral_toString x.toInt)
  | i64 x => exact .i64 (Text.numeral_toString x.toInt)
  | _ => rcases h with h | h <;> cases h

theorem allStandFor_texts (h : ∀ v ∈ vs, v.kind = .i32 ∨ v.kind = .i64) :
    AllStandFor ((vs.map Val.kind).zip (vs.map Val.text)) vs := by
  induction vs with
  | nil => exact .nil
  | cons v vs ih =>
    obtain ⟨hv, hvs⟩ := List.forall_mem_cons.mp h
    exact .cons (standsFor_text hv) (ih hvs)

/-! ## Arguments of a call

The count is compared before any word is read. -/

/-- How words are read as the arguments of a function. -/
structure ReadsArguments (function : String) : Prop where
  /-- A word for each parameter is read to the values that they all stand for. -/
  accepted : ∀ kinds words vs, parseArguments function kinds words = .ok vs ↔
    words.length = kinds.length ∧ AllStandFor (kinds.zip words) vs
  /-- Else it is the number of words that is wrong, -/
  counted : ∀ kinds words, words.length ≠ kinds.length →
    parseArguments function kinds words = .error (.count function kinds.length words.length)
  /-- or the first of them that stands for no value. -/
  leftmost : ∀ kinds words e, words.length = kinds.length →
    (parseArguments function kinds words = .error e ↔ FirstUnreadable (kinds.zip words) e)
  /-- The values have the kinds of the parameters. -/
  kinds : ∀ kinds words vs, parseArguments function kinds words = .ok vs → vs.map Val.kind = kinds
  /-- In whatever world a function has been asked for its type, and whatever the closures are: if its
  arguments have been read, a call with them does not fail because they do not fit. -/
  called : ∀ {κ σ : Type} (host : Runner κ σ), Unfailing host → ∀ (w w' : World κ σ) s f type words vs,
    (Func.type s f).run w = (.value type, w') → parseArguments function type.params words = .ok vs →
    ∀ e, ((Func.call host s f vs).run w').1 = .failure e → ¬IsMisfit e
  /-- The closures of a command are such closures. -/
  closures : Unfailing host
  /-- Integers are read back from the texts they are shown as. -/
  shown : ∀ vs : List Val, (∀ v ∈ vs, v.kind = .i32 ∨ v.kind = .i64) →
    parseArguments function (vs.map Val.kind) (vs.map Val.text) = .ok vs
  /-- An integer is read from just the numerals of it, -/
  integers : ∀ word,
    (∀ x, parseArgument .i32 word = .ok (.i32 x) ↔ Text.Numeral word.toList x.toInt) ∧
    ∀ x, parseArgument .i64 word = .ok (.i64 x) ↔ Text.Numeral word.toList x.toInt
  /-- so that those in range are read, and nothing else. -/
  ranges : ∀ word,
    ((∃ v, parseArgument .i32 word = .ok v) ↔
      ∃ n, Text.Numeral word.toList n ∧ -2 ^ 31 ≤ n ∧ n < 2 ^ 31) ∧
    ((∃ v, parseArgument .i64 word = .ok v) ↔
      ∃ n, Text.Numeral word.toList n ∧ -2 ^ 63 ≤ n ∧ n < 2 ^ 63)

theorem parseArguments_eq_ok (function : String) : parseArguments function kinds words = .ok vs ↔
    words.length = kinds.length ∧ AllStandFor (kinds.zip words) vs := by
  unfold parseArguments
  split
  · rename_i hlen
    rw [(parseEach_spec kinds words).1 vs, and_iff_right hlen]
  · rename_i hlen
    exact iff_of_false (fun h => by cases h) fun h => hlen h.1

theorem kinds_of_parseArguments {function : String}
    (h : parseArguments function kinds words = .ok vs) : vs.map Val.kind = kinds := by
  obtain ⟨hlen, hvs⟩ := (parseArguments_eq_ok function).mp h
  rw [hvs.kinds_eq, List.map_fst_zip hlen.ge]

theorem parseArgument_eq_ok : parseArgument kind word = .ok v ↔ StandsFor kind word v := by
  refine ⟨fun h => ?_, parseArgument_of_standsFor⟩
  rcases parseArgument_cases kind word with ⟨v', hparse, hv⟩ | ⟨e, hparse, -⟩
  · cases h.symm.trans hparse
    exact hv
  · cases h.symm.trans hparse

theorem arguments_fit (function : String) : ReadsArguments function where
  accepted _ _ _ := parseArguments_eq_ok function
  counted kinds words hlen := if_neg hlen
  leftmost kinds words e hlen := by
    rw [parseArguments, if_pos hlen]
    exact (parseEach_spec kinds words).2 e
  kinds _ _ _ h := kinds_of_parseArguments h
  called _ hhost _ _ _ _ _ _ _ htype h _ he := Func.call_fits hhost htype (kinds_of_parseArguments h) he
  closures := Code.unfailing_host fun code => nomatch code
  shown vs h := (parseArguments_eq_ok function).mpr ⟨by simp, allStandFor_texts h⟩
  integers word := by
    constructor
    · intro x
      rw [parseArgument_eq_ok]
      exact ⟨fun h => by cases h; assumption, .i32⟩
    · intro x
      rw [parseArgument_eq_ok]
      exact ⟨fun h => by cases h; assumption, .i64⟩
  ranges word := by
    have h32 : (∃ x : BitVec 32, Text.Numeral word.toList x.toInt) ↔ _ :=
      Text.exists_numeral_toInt (by decide)
    have h64 : (∃ x : BitVec 64, Text.Numeral word.toList x.toInt) ↔ _ :=
      Text.exists_numeral_toInt (by decide)
    simp only [parseArgument_eq_ok]
    constructor
    · rw [← h32]
      exact ⟨fun ⟨v, h⟩ => by cases h with | i32 h => exact ⟨_, h⟩, fun ⟨x, h⟩ => ⟨.i32 x, .i32 h⟩⟩
    · rw [← h64]
      exact ⟨fun ⟨v, h⟩ => by cases h with | i64 h => exact ⟨_, h⟩, fun ⟨x, h⟩ => ⟨.i64 x, .i64 h⟩⟩

end WasmHost.CommandLine
