import WasmHost.Proofs.Logic
import WasmHost.Host.Embedder

/-!
# The pool as a keeper

What an embedder keeps are the things in its pool. A loan is a claim that a thing stays at its
place, so that whoever has it may rely on the thing as if it were its own; taking a thing out turns
it into a share of one's own, and the pool lets nobody take what is lent.

Embedders share things between threads. A thread that calls an operation with a thing of the pool
relies on the thing until the operation is over; another thread may want to take the same thing out
and let go of it in the meantime. The pool excludes that: it counts the references that are in use, and
as long as there are any, nobody can take the thing itself. A loan is the token for one of them. A loan is no
share: what is on loan is in the accounts once, as the pool's. That it vouches for a share
nevertheless is due to `Keeper.own_of_loans`: where something is lent, there it is.

Taking is the opposite. The pool gives a thing only if it is lent to nobody, and after that it is
the thread's.

The token `making` is kept count of in the same way. It says how many requests are under way that
make closures or take them away, and while there are none, each closure of the registry has a
function.
-/

namespace WasmHost.Host

variable {κ β : Type}

/-- What a thing is to a ledger. -/
def Thing.token : Thing → Token κ
  | capture c => .own c.share
  | store s => .tenure s [] none

namespace Pool

/-- What is at a place. -/
def placeTokens (_ : Nat) (o : Option Owned) : Ledger κ := o.elim 0 fun owned => {owned.thing.token}

/-- How often a share is lent at a place. -/
def lent (p : Pool) (i : Nat) (x : Share) : Nat :=
  match p.at? i with
  | some ⟨.capture c, n⟩ => if c.share = x then n else 0
  | _ => 0

theorem places_of_at? {p : Pool} {i : Nat} {o : Owned} (h : p.at? i = some o) :
    p.places[i]? = some (some o) := by
  unfold at? at h
  cases hi : p.places[i]? with
  | none => simp [hi] at h
  | some o' => simpa [hi] using h

end Pool

instance : Keeper κ Pool where
  kept p := total p.places Pool.placeTokens
  loans := Pool.lent
  making := Pool.making
  own_of_loans {p i x} h := by
    unfold Pool.lent at h
    split at h
    · rename_i c n hat
      split at h
      · rename_i hx
        exact mem_total.mpr ⟨i, _, Pool.places_of_at? hat, by simp [Pool.placeTokens, Thing.token, hx]⟩
      · cases h
    · cases h
  plain {p t} h := by
    obtain ⟨i, o, -, ho⟩ := mem_total.mp h
    obtain _ | ⟨⟨c⟩ | ⟨s⟩, n⟩ := o
    · cases ho
    · exact .inl ⟨c.share, by simpa [Pool.placeTokens, Thing.token] using ho⟩
    · exact .inr ⟨s, by simpa [Pool.placeTokens, Thing.token] using ho⟩

namespace Pool

/-- The tokens of what is in a pool. -/
abbrev kept (p : Pool) : Ledger κ := Keeper.kept p

@[simp] theorem keeper_loans (p : Pool) : Keeper.loans κ p = p.lent := rfl

@[simp] theorem keeper_making (p : Pool) : Keeper.making κ p = p.making := rfl

/-! ## What is at a place -/

/-- Other things stay where they are when one place changes. -/
theorem at?_set {p : Pool} {i : Nat} (h : i < p.places.size) (o : Option Owned) (n j : Nat) :
    at? ⟨p.places.setIfInBounds i o, n⟩ j = if j = i then o else p.at? j := by
  unfold at?
  by_cases hj : j = i
  · simp [hj, h]
  · simp [Ne.symm hj, hj]

theorem lt_of_at? {p : Pool} {i : Nat} {o : Owned} (h : p.at? i = some o) : i < p.places.size :=
  (Array.getElem?_eq_some_iff.mp (places_of_at? h)).1

/-- What is kept, when one place changes. -/
theorem kept_set {p : Pool} {i : Nat} {o : Option Owned} (h : p.places[i]? = some o)
    (o' : Option Owned) (n : Nat) :
    (kept ⟨p.places.setIfInBounds i o', n⟩ : Ledger κ) + placeTokens i o =
      p.kept + placeTokens i o' := total_set placeTokens o' h

/-- How often things are lent, when one place changes. -/
theorem lent_set {p : Pool} {i : Nat} (h : i < p.places.size) (c : Capture) (m n j : Nat)
    (x : Share) :
    lent ⟨p.places.setIfInBounds i (some ⟨.capture c, m⟩), n⟩ j x =
      if j = i then if c.share = x then m else 0 else p.lent j x := by
  unfold lent
  rw [at?_set h]
  by_cases hj : j = i <;> simp [hj]

theorem lend_cases (p : Pool) (i : Nat) (sort : Capture → Option β) :
    p.lend i sort = (none, p) ∨ ∃ c n b, p.at? i = some ⟨.capture c, n⟩ ∧ sort c = some b ∧
      p.lend i sort =
        (some b, { p with places := p.places.setIfInBounds i (some ⟨.capture c, n + 1⟩) }) := by
  unfold lend
  split
  · rename_i c n hat
    split
    · rename_i b hb
      exact .inr ⟨c, n, b, hat, hb, rfl⟩
    · exact .inl rfl
  · exact .inl rfl

theorem take_cases (p : Pool) (i : Nat) (sort : Thing → Option β) :
    p.take i sort = (none, p) ∨ ∃ t b, p.at? i = some ⟨t, 0⟩ ∧ sort t = some b ∧
      p.take i sort = (some b, { p with places := p.places.setIfInBounds i none }) := by
  unfold take
  split
  · rename_i t hat
    split
    · rename_i b hb
      exact .inr ⟨t, b, hat, hb, rfl⟩
    · exact .inl rfl
  · exact .inl rfl

/-- A thing at a new place is not lent. -/
theorem lent_add (p : Pool) (t : Thing) (j : Nat) (x : Share) : (p.add t).2.lent j x = p.lent j x := by
  simp only [lent, add, at?, Array.getElem?_push]
  by_cases hj : j = p.places.size
  · cases t <;> simp [hj]
  · simp [hj]

theorem kept_add (p : Pool) (t : Thing) :
    ((p.add t).2.kept : Ledger κ) = p.kept + {t.token} := total_push _ _ _

theorem lent_put (p : Pool) (i : Nat) (t : Thing) (j : Nat) (x : Share) :
    (p.put i t).lent j x = p.lent j x := by
  unfold put
  split
  · rename_i h
    have hlt := (Array.getElem?_eq_some_iff.mp h).1
    simp only [lent, at?_set hlt]
    by_cases hj : j = i
    · cases t <;> simp [hj, at?, h]
    · simp [hj]
  · exact lent_add p t j x

theorem kept_put (p : Pool) (i : Nat) (t : Thing) :
    ((p.put i t).kept : Ledger κ) = p.kept + {t.token} := by
  unfold put
  split
  · rename_i h
    simpa [placeTokens] using kept_set h (some ⟨t, 0⟩) p.making
  · exact kept_add p t

theorem making_put (p : Pool) (i : Nat) (t : Thing) : (p.put i t).making = p.making := by
  unfold put
  split <;> rfl

/-- A loan is over. -/
theorem restore_eq {p : Pool} {i : Nat} {x : Share} (h : 0 < p.lent i x) :
    ∃ c n, p.at? i = some ⟨.capture c, n + 1⟩ ∧ c.share = x ∧
      p.restore i = { p with places := p.places.setIfInBounds i (some ⟨.capture c, n⟩) } := by
  unfold lent at h
  split at h
  · rename_i c n hat
    split at h
    · rename_i hx
      obtain ⟨n, rfl⟩ := Nat.exists_eq_succ_of_ne_zero (Nat.pos_iff_ne_zero.mp h)
      exact ⟨c, n, hat, hx, by simp [restore, hat]⟩
    · cases h
  · cases h

end Pool

/-! ## Ledgers and loans

Loans and requests under way may be added to a ledger and taken from it without any account being
affected; only the embedder's state must agree with them. -/

namespace Sound

variable {σ : Type} {T : Ledger κ} {w : World κ σ}

/-- The accounts do not depend on the embedder's state. -/
theorem setUser (h : Sound T w) (u : σ) : Sound T { w with user := u } :=
  ⟨h.balanced, h.queued, h.hosted, h.engines, h.blameless⟩

/-- Claims of no account may be made and given up. -/
theorem restate {U : Ledger κ} (h : Sound T w) (hs : U.shares = T.shares)
    (ht : ∀ s, U.claims.tenures s = T.claims.tenures s)
    (hk : ∀ s known p, .tenure s known p ∈ U.claims → .tenure s known p ∈ T.claims)
    (hp : U.claims.pins = T.claims.pins)
    (hm : ∀ pins, .making pins ∈ U.claims → pins = [] ∨ .making pins ∈ T.claims) : Sound U w :=
  ⟨h.balanced.cast hs.symm, h.queued, h.hosted.of_claims ht hk hp hm, h.engines, h.blameless⟩

/-- Loans are claims on what others own. -/
theorem loan_iff {i : Nat} {x : Share} : Sound (.loan i x ::ₘ T) w ↔ Sound T w := by
  constructor <;> intro h
  · exact h.restate (by simp) (by simp [Token.isTenure]) (by simp) (by simp [Token.pins])
      fun pins hpins => .inr (by simpa using hpins)
  · exact h.restate (by simp) (by simp [Token.isTenure]) (by simp) (by simp [Token.pins])
      fun pins hpins => .inr (by simpa using hpins)

/-- A request that has made no closures has no claims. -/
theorem making_iff : Sound (.making [] ::ₘ T) w ↔ Sound T w := by
  constructor <;> intro h
  · exact h.restate (by simp) (by simp [Token.isTenure]) (by simp) (by simp [Token.pins])
      fun pins hpins => .inr (by simp [hpins])
  · exact h.restate (by simp) (by simp [Token.isTenure]) (by simp) (by simp [Token.pins])
      fun pins hpins => by simpa using hpins

end Sound

namespace Job

variable {L rest : Ledger (Code κ)} {P : β → Ledger (Code κ) → Prop} {i : Nat}

/-! ## The pool -/

/-- A change of the pool. -/
theorem onPool_meets {f : Pool → β × Pool}
    (h : ∀ R p, Lent (R + L) p → ∃ L', P (f p).1 L' ∧ Lent (R + L') (f p).2 ∧
      ∀ (T : Ledger (Code κ)) (w : World (Code κ) Pool), Sound (L + p.kept + T) w →
        Sound (L' + (f p).2.kept + T) w) :
    (onPool f : Job κ β).Meets L P rest := by
  intro R w hw
  obtain ⟨L', hP, hlent, hsound⟩ := h R w.user hw.lent
  refine ⟨L', ⟨?_, hlent⟩, Act.Safe.done fun _ => hP⟩
  have hs := hsound R w (hw.sound.cast (by ac_rfl))
  exact (hs.setUser _).cast (by ac_rfl)

/-- A loan, if there is one. -/
def Borrowed (i : Nat) (sort : Capture → Option β) (L : Ledger (Code κ)) :
    Option β → Ledger (Code κ) → Prop
  | some b, N => ∃ c, sort c = some b ∧ N = .loan i c.share ::ₘ L
  | none, N => N = L

/-- A thing that was taken out, if there is one. -/
def Taken (sort : Thing → Option β) (L : Ledger (Code κ)) : Option β → Ledger (Code κ) → Prop
  | some b, N => ∃ t : Thing, sort t = some b ∧ N = t.token ::ₘ L
  | none, N => N = L

/-- What is lent stays where it is. -/
theorem lend_meets (sort : Capture → Option β) :
    (onPool (·.lend i sort) : Job κ (Option β)).Meets L (Borrowed i sort L) rest := by
  refine onPool_meets fun R p hlent => ?_
  obtain heq | ⟨c, n, b, hat, hb, heq⟩ := p.lend_cases i sort
  · rw [heq]
    exact ⟨L, rfl, hlent, fun _ _ h => h⟩
  · rw [heq]
    have hlt := Pool.lt_of_at? hat
    -- What is in the pool stays the same, only that it is lent once more.
    have hkept : Pool.kept (κ := Code κ)
        ⟨p.places.setIfInBounds i (some ⟨.capture c, n + 1⟩), p.making⟩ = p.kept :=
      add_right_cancel (Pool.kept_set (Pool.places_of_at? hat) (some ⟨.capture c, n + 1⟩) p.making)
    refine ⟨.loan i c.share ::ₘ L, ⟨c, hb, rfl⟩, ⟨fun j x => ?_, ?_⟩, fun T w h => ?_⟩
    · have hj := hlent.loans j x
      simp only [Pool.keeper_loans, Pool.lent_set hlt, Multiset.add_cons, Ledger.loans_cons] at hj ⊢
      rw [hj]
      by_cases hi : j = i
      · subst hi
        by_cases hx : x = c.share
        · simp [Pool.lent, hat, Token.isLoan, hx]
        · simp [Pool.lent, hat, Token.isLoan, hx, Ne.symm hx]
      · simp [Token.isLoan, hi]
    · simpa [Token.isMaking] using hlent.making
    · rw [hkept]
      simpa using Sound.loan_iff.mpr h

/-- A loan comes to its end. -/
theorem restore_leaves {x : Share} :
    (onPool (fun p => ((), p.restore i)) : Job κ Unit).Leaves (.loan i x ::ₘ L) (fun _ => L)
      rest := by
  refine onPool_meets fun R p hlent => ⟨L, rfl, ?_⟩
  have hcount : ∀ j y, (R + L).loans j y + (if j = i ∧ y = x then 1 else 0) = p.lent j y := by
    intro j y
    rw [← Pool.keeper_loans (κ := Code κ), ← hlent.loans j y]
    simp [Token.isLoan]
  -- It is lent at least once, by the loan that comes to its end here.
  obtain ⟨c, n, hat, hx, heq⟩ := Pool.restore_eq (i := i) (x := x) (p := p) (by
    have := hcount i x
    simp at this
    omega)
  have hlt := Pool.lt_of_at? hat
  have hkept : Pool.kept (κ := Code κ)
      ⟨p.places.setIfInBounds i (some ⟨.capture c, n⟩), p.making⟩ = p.kept :=
    add_right_cancel (Pool.kept_set (Pool.places_of_at? hat) (some ⟨.capture c, n⟩) p.making)
  rw [heq]
  refine ⟨⟨fun j y => ?_, ?_⟩, fun T w h => ?_⟩
  · have hj := hcount j y
    simp only [Pool.keeper_loans, Pool.lent_set hlt]
    by_cases hi : j = i
    · subst hi
      by_cases hy : y = x
      · simp [Pool.lent, hat, hx, hy] at hj
        simp [hx, hy]
        omega
      · simp [Pool.lent, hat, hx, hy, Ne.symm hy] at hj
        simp [hx, Ne.symm hy]
        omega
    · simpa [hi] using hj
  · simpa [Token.isMaking] using hlent.making
  · rw [hkept]
    exact (Sound.loan_iff (i := i) (x := x)).mp (h.cast (by simp only [Multiset.cons_add]))

/-- What is not lent can be taken out. -/
theorem take_meets (sort : Thing → Option β) :
    (onPool (·.take i sort) : Job κ (Option β)).Meets L (Taken sort L) rest := by
  refine onPool_meets fun R p hlent => ?_
  obtain heq | ⟨t, b, hat, hb, heq⟩ := p.take_cases i sort
  · rw [heq]
    exact ⟨L, rfl, hlent, fun _ _ h => h⟩
  · rw [heq]
    have hlt := Pool.lt_of_at? hat
    have hkept := Pool.kept_set (κ := Code κ) (Pool.places_of_at? hat) none p.making
    refine ⟨t.token ::ₘ L, ⟨t, hb, rfl⟩, ⟨fun j x => ?_, ?_⟩, fun T w h => h.cast ?_⟩
    · have hj := hlent.loans j x
      -- What is taken out was not lent, so no loan is affected.
      have htoken : (t.token : Token (Code κ)).isLoan j x = false := by cases t <;> rfl
      simp only [Pool.keeper_loans, Pool.lent, Pool.at?_set hlt] at hj ⊢
      by_cases hi : j = i
      · subst hi
        cases t <;> simpa [hat, htoken] using hj
      · simpa [hi, htoken] using hj
    · have htoken : (t.token : Token (Code κ)).isMaking = false := by cases t <;> rfl
      simpa [htoken] using hlent.making
    · simp only [Pool.placeTokens, Option.elim_some, Option.elim_none, add_zero] at hkept
      rw [← hkept, ← Multiset.singleton_add]
      ac_rfl

/-- A thing is put into the pool. -/
theorem own_leaves (t : Thing) :
    (own t : Job κ Nat).Leaves (t.token ::ₘ L) (fun _ => L) rest := by
  refine onPool_meets fun R p hlent => ⟨L, rfl, ⟨fun j x => ?_, ?_⟩, fun T w h => h.cast ?_⟩
  · have htoken : (t.token : Token (Code κ)).isLoan j x = false := by cases t <;> rfl
    simpa [htoken, Pool.lent_add] using hlent.loans j x
  · have htoken : (t.token : Token (Code κ)).isMaking = false := by cases t <;> rfl
    simpa [htoken, Pool.add] using hlent.making
  · rw [Pool.kept_add, ← Multiset.singleton_add]
    ac_rfl

/-- A store that was used is put back. -/
theorem put_leaves {s : Nat} {known : List (Pin (Code κ))} :
    (onPool (fun p => ((), p.put i (.store s))) : Job κ Unit).Leaves (.tenure s known none ::ₘ L)
      (fun _ => L) rest := by
  refine onPool_meets fun R p hlent => ⟨L, rfl, ⟨fun j x => ?_, ?_⟩, fun T w h => ?_⟩
  · simpa [Token.isLoan, Pool.lent_put] using hlent.loans j x
  · simpa [Token.isMaking, Pool.making_put] using hlent.making
  · have h' := (h.cast (U := .tenure s known none ::ₘ (L + p.kept + T)) (by simp)).forget
      (List.nil_subset known)
    refine h'.cast ?_
    rw [Pool.kept_put, ← Multiset.singleton_add]
    show {.tenure s [] none} + (L + p.kept + T) = L + (p.kept + {.tenure s [] none}) + T
    ac_rfl

/-- A request that makes closures or takes them away keeps its own account of them. -/
theorem counted_leaves {m : Job κ β} {P : β → Ledger (Code κ)}
    (hm : m.Leaves (.making [] ::ₘ L) (fun b => .making [] ::ₘ P b) (.making [] ::ₘ rest)) :
    (counted m).Leaves L P rest := by
  have hend : ∀ M rest, (onPool fun p => ((), { p with making := p.making - 1 }) :
      Job κ Unit).Leaves (.making [] ::ₘ M) (fun _ => M) rest := by
    intro M rest
    refine onPool_meets fun R p hlent => ⟨M, rfl, ⟨fun j x => ?_, ?_⟩, fun T w h => ?_⟩
    · exact (by simpa [Token.isLoan] using hlent.loans j x : (R + M).loans j x = p.lent j x)
    · have := hlent.making
      simp [Token.isMaking] at this
      simp
      omega
    · refine Sound.making_iff.mp (h.cast ?_)
      simp only [Multiset.cons_add]
      rfl
  refine Act.Leaves.bind (M := fun _ => .making [] ::ₘ L) ?_ fun _ =>
    Act.Leaves.ensuring hm (fun b => hend _ _) (hend _ _)
  refine onPool_meets fun R p hlent => ⟨.making [] ::ₘ L, rfl, ⟨fun j x => ?_, ?_⟩, fun T w h => ?_⟩
  · have hj : (R + L).loans j x = p.lent j x := hlent.loans j x
    exact (by simpa [Token.isLoan] using hj : (R + .making [] ::ₘ L).loans j x = p.lent j x)
  · simpa [Token.isMaking] using hlent.making
  · refine (Sound.making_iff.mpr h).cast ?_
    simp only [Multiset.cons_add]
    rfl

/-- What such a request makes is put on top of its account. -/
theorem counted_gives {m : Job κ β} {token : β → Token (Code κ)} {N : Ledger (Code κ)}
    (hm : m.Leaves (.making [] ::ₘ N) (fun b => token b ::ₘ .making [] ::ₘ L)
      (.making [] ::ₘ rest)) : (counted m).Leaves N (fun b => token b ::ₘ L) rest :=
  counted_leaves (hm.mono fun _ _ h => h.trans (Multiset.cons_swap _ _ _))

end Job

end WasmHost.Host
