import WasmHost.Proofs.Changes

/-!
# The changes of operations

Each operation of the library is made of steps that change the world in one of the ways on the list. An
operation that runs closures takes their steps as well, and only what defines something, or logs a line,
comes with a change that other operations do not come with.

These lemmas have no idea of their own, and are meant not to have one. Each follows the text of its
operation: a step is matched with its change on the list, a call of another operation is answered by
the lemma about that one, and a loop or a recursion by an induction on what it goes through. So if
an operation is changed, the lemma with its name is what has to be changed with it, and nothing that
is proved of runs in general.

An operation that runs closures takes their steps as its own. So the assumption about the host is
carried along, `Every S host`, and it is discharged when programs are interpreted.
-/

namespace WasmHost.Host

open Act

variable {κ σ α : Type}

variable {S : (World κ σ → World κ σ) → Prop} [Change.Lenient S]

/-! ## Releasing

To release an object releases what it has captured, and so on. What it has captured are handles, and
a handle captures nothing, so the releasing of wrappers does not come back to that of objects. -/

theorem releaseEngine_every (e : Nat) : (releaseEngine e : Act κ σ Unit).Every S :=
  .routine (.releaseEngine e) trivial fun _ => rfl

theorem releaseEngine?_every (o : Option Nat) :
    (releaseEngine? o : Act κ σ Unit).Every S := by
  cases o with
  | none => exact .pure
  | some e => exact releaseEngine_every e

theorem releaseStore_every (s : Nat) : (releaseStore s : Act κ σ Unit).Every S :=
  .bind (.routine (.dismissStore s) trivial fun _ => rfl) releaseEngine?_every

theorem releaseModule_every (m : Nat) : (releaseModule m : Act κ σ Unit).Every S :=
  .bind (.routine (.dismissModule m) trivial fun _ => rfl) releaseEngine?_every

theorem releaseHandle_every (h : Handle) : (releaseHandle h : Act κ σ Unit).Every S := by
  refine .bind (.routine (.retire h) trivial fun _ => rfl) fun o => ?_
  cases o with
  | none => exact .pure
  | some s => exact releaseStore_every s

theorem releaseWrappers_every (xs : List Wrapper) :
    (releaseWrappers xs : Act κ σ Unit).Every S := by
  induction xs with
  | nil => exact .pure
  | cons x xs ih => exact .bind (releaseHandle_every x.handle) fun _ => ih

theorem releaseItems_every (items : List Item) :
    (releaseItems items : Act κ σ Unit).Every S := releaseWrappers_every _

theorem releaseLinker_every (l : Nat) : (releaseLinker l : Act κ σ Unit).Every S := by
  refine .bind (.routine (.dismissLinker l) trivial fun _ => rfl) fun o => ?_
  cases o with
  | none => exact .pure
  | some p => exact .bind (releaseEngine_every p.1) fun _ => releaseWrappers_every p.2

theorem releaseObject_every (o : ObjectId) : (releaseObject o : Act κ σ Unit).Every S :=
  .bind (.routine (.dismissObject o) trivial fun _ => rfl) releaseWrappers_every

theorem releaseOrigin_every (g : Nat) : (releaseOrigin g : Act κ σ Unit).Every S :=
  .bind (.routine (.dismissOrigin g) trivial fun _ => rfl) releaseWrappers_every

theorem releaseOrigins_every (gs : List Nat) :
    (releaseOrigins gs : Act κ σ Unit).Every S := by
  induction gs with
  | nil => exact .pure
  | cons g gs ih => exact .bind (releaseOrigin_every g) fun _ => ih

theorem releaseVals_every (vs : List Val) : (releaseVals vs : Act κ σ Unit).Every S := by
  induction vs with
  | nil => exact .pure
  | cons v vs ih =>
    refine .bind ?_ fun _ => ih
    unfold releaseVal
    split
    · exact releaseHandle_every _
    · exact releaseObject_every _
    · exact .pure

theorem releasePacked_every {t : Nat} (p : Packed t) :
    (releasePacked p : Act κ σ Unit).Every S := by
  unfold releasePacked
  split
  · exact releaseOrigin_every _
  · exact .pure

theorem releasePackedAll_every {t : Nat} (ps : List (Packed t)) :
    (releasePackedAll ps : Act κ σ Unit).Every S := by
  induction ps with
  | nil => exact .pure
  | cons p ps ih => exact .bind (releasePacked_every p) fun _ => ih

theorem releaseCapture_every (c : Capture) :
    (releaseCapture c : Act κ σ Unit).Every S := by
  cases c with
  | engine e => exact releaseEngine_every e
  | module m => exact releaseModule_every m
  | linker l => exact releaseLinker_every l
  | wrapper x => exact releaseHandle_every x.handle
  | object o => exact releaseObject_every o

theorem releaseCaptures_every (cs : List Capture) :
    (releaseCaptures cs : Act κ σ Unit).Every S := by
  induction cs with
  | nil => exact .pure
  | cons c cs ih => exact .bind (releaseCapture_every c) fun _ => ih

theorem finalize_every (key : Nat) : (finalize key : Act κ σ Unit).Every S := by
  refine .bind (.routine (.unregister key) trivial fun _ => rfl) fun o => ?_
  cases o with
  | none => exact .abort
  | some r => exact .bind (releaseStore_every r.store) fun _ => releaseCaptures_every r.captures

theorem finalizeAll_every (keys : List Nat) :
    (finalizeAll keys : Act κ σ Unit).Every S := by
  induction keys with
  | nil => exact .pure
  | cons key keys ih => exact .bind (finalize_every key) fun _ => ih

theorem context_every (s : Nat) : (context s : Act κ σ Unit).Every S := by
  refine .bind (.routine (.beginDrain s) trivial fun _ => rfl) fun count => ?_
  -- The batch has as many handles as the drain has said, and each is taken in a step of its own.
  induction count with
  | zero => exact .pure
  | succ n ih => exact .bind (.routine (.reclaimNext s) trivial fun _ => rfl) fun _ => ih

theorem deleteStore_every (s : Nat) : (deleteStore s : Act κ σ Unit).Every S := by
  refine .bind (context_every s) fun _ => .bind (.routine (.vacate s) trivial fun _ => rfl) fun o => ?_
  cases o with
  | none => exact .pure
  | some p =>
    refine .bind (finalizeAll_every p.1) fun _ => .bind (releaseOrigins_every p.2) fun _ => ?_
    exact releaseStore_every s

/-! ## Passing values

Of these steps only those about host objects change anything. The others look. -/

theorem check_every (s : Nat) (h : Handle) : (check s h : Act κ σ HandleCell).Every S := by
  refine .bind (.bind .world fun w => ?_) fun c => ?_
  · split
    · split
      · exact .abort
      · exact .pure
    · exact .abort
  · split
    · exact .pure
    · exact .panic

theorem hand_every (s t : Nat) : (hand s t : Act κ σ Unit).Every S := by
  unfold hand
  split
  · exact .pure
  · exact .abort

theorem place_every (s : Nat) (h : Handle) : (place s h : Act κ σ Guest.Place).Every S := by
  refine .bind (check_every s h) fun c => ?_
  split
  · exact .bind (hand_every s _) fun _ => .pure
  · exact .abort

theorem funcPlace_every (s : Nat) (h : Handle) : (funcPlace s h : Act κ σ Nat).Every S := by
  refine .bind (place_every s h) fun p => ?_
  split
  · exact .pure
  · exact .abort

theorem pack_every (s : Nat) (v : Val) : (pack s v : Act κ σ (Packed s)).Every S := by
  unfold pack
  split
  case h_6 h => exact .bind (funcPlace_every s h) fun _ => .pure
  case h_8 o => exact .bind (.routine (.newOrigin o) trivial fun _ => rfl) fun _ => .pure
  all_goals exact .pure

theorem packAll_every (s : Nat) (vs : List Val) :
    (packAll s vs : Act κ σ (List (Packed s))).Every S := by
  induction vs with
  | nil => exact .pure
  | cons v vs ih =>
    refine .bind (pack_every s v) fun p => ?_
    exact .bind (.onUnwind (releasePacked_every p) ih) fun _ => .pure

theorem unpack_every (s : Nat) {t : Nat} (p : Packed t) :
    (unpack s p : Act κ σ Val).Every S := by
  unfold unpack
  split
  case h_6 => exact .bind (.routine (.newHandle s _) trivial fun _ => rfl) fun _ => .pure
  case h_8 g =>
    exact .bind (.routine (.retainObjectOf g) trivial fun _ => rfl) fun _ => .pure
  all_goals exact .pure

theorem unpackAll_every (s : Nat) {t : Nat} (ps : List (Packed t)) :
    (unpackAll s ps : Act κ σ (List Val)).Every S := by
  induction ps with
  | nil => exact .pure
  | cons p ps ih => exact .bind (unpack_every s p) fun _ => .bind ih fun _ => .pure

theorem adopt_every (s : Nat) {t : Nat} (p : Packed t) :
    (adopt s p : Act κ σ Guest.Value).Every S := by
  unfold adopt
  split
  case h_6 => exact .bind (hand_every s t) fun _ => .pure
  case h_8 g =>
    exact .bind (.routine (.hold s g) trivial fun _ => rfl) fun _ => .pure
  all_goals exact .pure

theorem adoptAll_every (s : Nat) {t : Nat} (ps : List (Packed t)) :
    (adoptAll s ps : Act κ σ (List Guest.Value)).Every S := by
  induction ps with
  | nil => exact .pure
  | cons p ps ih => exact .bind (adopt_every s p) fun _ => .bind ih fun _ => .pure

theorem expose_every (s : Nat) (v : Guest.Value) :
    (expose s v : Act κ σ (Except EngineFault (Packed s))).Every S := by
  unfold expose
  split
  case h_8 g =>
    refine .bind (.routine (.copyHeld s g) trivial fun _ => rfl) fun b => ?_
    split
    · exact .pure
    · exact .abort
  all_goals exact .pure

theorem exposeAll_every (s : Nat) (vs : List Guest.Value) :
    (exposeAll s vs : Act κ σ (Except EngineFault (List (Packed s)))).Every S := by
  induction vs with
  | nil => exact .pure
  | cons v vs ih =>
    refine .bind (expose_every s v) fun r => ?_
    cases r with
    | error e => exact .pure
    | ok p =>
      refine .bind ih fun r => ?_
      cases r with
      -- What has been exposed before the failure is given back.
      | error e => exact .bind (releasePacked_every p) fun _ => .pure
      | ok ps => exact .pure

/-! ## Guest parts

Guest code changes the guest part of its store, and nothing else; whatever else happens in the
course of a call is done by a host function. -/

theorem guest_every (s : Nat) : (guest s : Act κ σ Guest.Store).Every S :=
  .bind .world fun _ => .orAbort

theorem onGuest_every (s : Nat) (f : Guest.Store → α × Guest.Store) :
    (onGuest s f : Act κ σ α).Every S :=
  .bind (.routine (.onGuest s fun g => (f g).2) trivial fun w => (Change.onGuest_apply w s f).symm)
    fun _ => .orAbort

theorem epoch_every (s : Nat) : (epoch s : Act κ σ Nat).Every S :=
  .bind .world fun _ => .pure

theorem raise_every (s : Nat) (f : Guest.Failure) : (raise s f : Act κ σ α).Every S := by
  unfold raise
  split
  · exact .fail
  · refine .bind (.bind (.routine (.takePanic s) trivial fun _ => rfl) fun o => ?_) fun _ => .fail
    cases o with
    | none => exact .pure
    | some p => exact .panic

section Closures

variable {host : Runner κ σ} (hhost : Every S host)

include hhost

theorem runClosure_every (r : Registration κ) (instance_ : Option Nat) {t : Nat}
    (args : List (Packed t)) : (runClosure host r instance_ args).Every S := by
  refine .bind (unpackAll_every _ _) fun params => ?_
  refine .ensuring (releaseVals_every params) (.bind (hhost _ _ _ _) fun res => ?_)
  cases res with
  | error trap => exact .pure
  | ok values =>
    refine .ensuring (releaseVals_every values) ?_
    split
    · exact .pure
    · exact .bind (packAll_every _ _) fun _ => .pure

theorem callHost_every (s key : Nat) (instance_ : Option Nat) (args : List Guest.Value) :
    (callHost host s key instance_ args).Every S := by
  refine .bind (exposeAll_every s args) fun res => ?_
  cases res with
  | error fault => exact .pure
  | ok packed =>
    refine .ensuring (releasePackedAll_every packed)
      (.bind (.routine (.lookup s key _) trivial fun _ => rfl) fun o => ?_)
    cases o with
    | none => exact .abort
    | some r =>
      refine .bind (runClosure_every hhost r instance_ packed).catchPanic fun res => ?_
      -- The closure has panicked, or trapped, or given results; only the panic leaves something
      -- behind.
      obtain payload | message | results := res
      · exact .bind (.routine (.stashPanic r.store payload) trivial fun _ => rfl) fun _ => .pure
      · exact .pure
      · refine .ensuring (releasePackedAll_every results) ?_
        exact .bind (adoptAll_every s results) fun _ => .pure

/-- The induction is on the rounds that a thread may take: in each it runs up to the next call of a
closure. -/
theorem runThread_every (s : Nat) (default : Option Nat) (fuel : Nat)
    (start : Guest.Store → Guest.Progress) :
    (runThread host s default fuel start).Every S := by
  induction fuel generalizing start with
  | zero => exact .exhaust
  | succ fuel ih =>
    refine .bind (epoch_every s) fun now => .bind (onGuest_every s _) fun event => ?_
    cases event with
    | finished results => exact .pure
    | trapped cause frames => exact .pure
    | stuck => exact .abort
    | timeout => exact .exhaust
    | called key type args thread =>
      refine .bind (onGuest_every s _) fun active => ?_
      refine .bind (callHost_every hhost s key _ args) fun res => ?_
      cases res with
      | error reason => exact .bind (guest_every s) fun _ => .pure
      | ok results => exact ih _

theorem callPlace_every (s place : Nat) (default : Option Nat) (args : List Guest.Value) :
    (callPlace host s place default args).Every S := by
  refine .bind (epoch_every s) fun now => .bind (onGuest_every s _) fun g => ?_
  exact .ensuring (.routine (.leaveGuest s _) trivial fun _ => rfl) (runThread_every hhost s default _ _)

theorem callStart_every (s : Nat) (started : Guest.Started) :
    (callStart host s started).Every S := by
  unfold callStart
  split
  · exact .pure
  · exact .bind (callPlace_every hhost s _ _ _) fun _ => .pure

end Closures

/-! ## Functions -/

namespace Func

theorem register_every (s : Nat) (raw : Wire.RawSignature) (type : Signature) (code : κ)
    (captures : List Capture) : (register s raw type code captures : Act κ σ Handle).Every S := by
  refine .bind (.routine (.register s type code captures) trivial fun _ => rfl) fun p => ?_
  obtain ⟨key, r⟩ := p
  dsimp only
  split
  · -- A type that the engine cannot read: the closure is registered by then, and is finalised
    -- again.
    exact .bind (finalize_every key) fun _ => .fail
  · exact .bind (.routine (.newHostFunction s key _ r) trivial fun _ => rfl) fun _ => .orAbort

theorem create_every (s : Nat) (type : Signature) (code : κ) (captures : List Capture) :
    (create s type code captures : Act κ σ Handle).Every S :=
  .bind (context_every s) fun _ => register_every s _ type code captures

theorem typeAt_every (s place : Nat) : (typeAt s place : Act κ σ Signature).Every S :=
  .bind (guest_every s) fun _ => .pure

theorem call_every {host : Runner κ σ} (hhost : Every S host) (s : Nat) (f : Handle)
    (args : List Val) : (call host s f args).Every S := by
  refine .bind (context_every s) fun _ => .bind (funcPlace_every s f) fun place => ?_
  refine .bind (typeAt_every s place) fun type => .bind .ofExcept fun _ => ?_
  refine .bind (packAll_every s args) fun packed => .ensuring (releasePackedAll_every packed) ?_
  refine .bind (adoptAll_every s packed) fun values => ?_
  refine .bind (callPlace_every hhost s place none values) fun res => ?_
  cases res with
  | error failure => exact raise_every s failure
  | ok results =>
    refine .bind (exposeAll_every s results) fun res => ?_
    cases res with
    | error fault => exact .fail
    | ok packed => exact .ensuring (releasePackedAll_every packed) (unpackAll_every s packed)

end Func

theorem close_every (s : Nat) (h : Handle) : (close s h : Act κ σ Unit).Every S := by
  refine .bind (context_every s) fun _ => ?_
  refine .bind (.onUnwind (releaseHandle_every h) (check_every s h)) fun _ => ?_
  refine .bind (.routine (.reclaimSole h) trivial fun _ => rfl) fun o => ?_
  -- A handle that was the last one is reclaimed at once, and with it goes its share in the store.
  cases o with
  | none => exact releaseHandle_every h
  | some owner => exact releaseStore_every owner

/-! ## Items

Globals, memories and tables have like operations, with like proofs. -/

theorem allot_every (s : Nat)
    (f : Guest.Store → Except EngineFault (Guest.Place × Guest.Store)) :
    (allot s f : Act κ σ Handle).Every S := by
  refine .bind (.routine (.allot s f) trivial fun _ => rfl) fun o => .bind .orAbort fun res => ?_
  cases res with
  | ok h => exact .pure
  | error fault => exact .fail

namespace Global

theorem at_every (s : Nat) (h : Handle) : (at_ s h : Act κ σ (Nat × Guest.Global)).Every S := by
  refine .bind (place_every s h) fun p => ?_
  split
  · exact .bind (guest_every s) fun _ => .bind .orAbort fun _ => .pure
  · exact .abort

theorem create_every (s : Nat) (type : GlobalType) (init : Val) :
    (create s type init : Act κ σ Handle).Every S := by
  unfold create
  refine .guard ?_
  refine .bind (context_every s) fun _ => .bind (pack_every s init) fun packed => ?_
  refine .ensuring (releasePacked_every packed) ?_
  split
  · exact .fail
  · exact .bind (adopt_every s packed) fun _ => allot_every s _

theorem get_every (s : Nat) (h : Handle) : (get s h : Act κ σ Val).Every S := by
  refine .bind (context_every s) fun _ => .bind (at_every s h) fun p => ?_
  refine .bind (expose_every s p.2.value) fun res => ?_
  cases res with
  | error fault => exact .fail
  | ok packed => exact .ensuring (releasePacked_every packed) (unpack_every s packed)

theorem set_every (s : Nat) (h : Handle) (v : Val) : (set s h v : Act κ σ Unit).Every S := by
  refine .bind (context_every s) fun _ => .bind (at_every s h) fun p => ?_
  refine .guard (.guard (.bind (pack_every s v) fun packed => ?_))
  refine .ensuring (releasePacked_every packed) ?_
  exact .bind (adopt_every s packed) fun _ => onGuest_every s _

end Global

namespace Memory

theorem at_every (s : Nat) (h : Handle) : (at_ s h : Act κ σ (Nat × Guest.Memory)).Every S := by
  refine .bind (place_every s h) fun p => ?_
  split
  · exact .bind (guest_every s) fun _ => .bind .orAbort fun _ => .pure
  · exact .abort

theorem create_every (s : Nat) (type : MemoryType) :
    (create s type : Act κ σ Handle).Every S := by
  refine .bind (context_every s) fun _ => ?_
  split
  · exact .fail
  · exact allot_every s _

theorem pages_every (s : Nat) (h : Handle) : (pages s h : Act κ σ Nat).Every S :=
  .bind (context_every s) fun _ => .bind (at_every s h) fun _ => .pure

theorem size_every (s : Nat) (h : Handle) : (size s h : Act κ σ Nat).Every S :=
  .bind (context_every s) fun _ => .bind (at_every s h) fun _ => .pure

theorem grow_every (s : Nat) (h : Handle) (delta : Nat) :
    (grow s h delta : Act κ σ Nat).Every S := by
  refine .bind (context_every s) fun _ => .bind (at_every s h) fun p => ?_
  dsimp only
  split
  · exact .fail
  · exact .bind (onGuest_every s _) fun _ => .pure

theorem readInto_every (s : Nat) (h : Handle) (offset : Nat) (buffer : List UInt8) :
    (readInto s h offset buffer : Act κ σ (Except Error Unit × List UInt8)).Every S := by
  refine .bind (context_every s) fun _ => .bind (at_every s h) fun p => ?_
  dsimp only
  split
  · exact .pure
  · exact .pure

theorem read_every (s : Nat) (h : Handle) (offset len : Nat) :
    (read s h offset len : Act κ σ (List UInt8)).Every S := by
  refine .bind (readInto_every s h offset _) fun r => ?_
  split
  · exact .pure
  · exact .fail

theorem write_every (s : Nat) (h : Handle) (offset : Nat) (bytes : List UInt8) :
    (write s h offset bytes : Act κ σ Unit).Every S := by
  refine .bind (context_every s) fun _ => .bind (at_every s h) fun p => ?_
  dsimp only
  split
  · exact onGuest_every s _
  · exact .fail

theorem withData_every (s : Nat) (h : Handle) (f : Guest.Memory → α × Guest.Memory) :
    (withData s h f : Act κ σ α).Every S :=
  .bind (context_every s) fun _ => .bind (at_every s h) fun _ => onGuest_every s _

end Memory

namespace Table

theorem at_every (s : Nat) (h : Handle) : (at_ s h : Act κ σ (Nat × Guest.Table)).Every S := by
  refine .bind (place_every s h) fun p => ?_
  split
  · exact .bind (guest_every s) fun _ => .bind .orAbort fun _ => .pure
  · exact .abort

theorem adoptRef_every (s : Nat) {t : Nat} (p : Packed t) :
    (adoptRef s p : Act κ σ Guest.Ref).Every S := by
  refine .bind (adopt_every s p) fun v => ?_
  split
  · exact .pure
  · exact .fail

theorem create_every (s : Nat) (type : TableType) (init : Val) :
    (create s type init : Act κ σ Handle).Every S := by
  unfold create
  refine .guard ?_
  refine .bind (context_every s) fun _ => .bind (pack_every s init) fun packed => ?_
  refine .ensuring (releasePacked_every packed) ?_
  split
  · exact .fail
  · exact .bind (adoptRef_every s packed) fun _ => allot_every s _

theorem size_every (s : Nat) (h : Handle) : (size s h : Act κ σ Nat).Every S :=
  .bind (context_every s) fun _ => .bind (at_every s h) fun _ => .pure

theorem get_every (s : Nat) (h : Handle) (index : Nat) :
    (get s h index : Act κ σ (Option Val)).Every S := by
  refine .bind (context_every s) fun _ => .bind (at_every s h) fun p => ?_
  split
  · exact .pure
  · refine .bind (expose_every s _) fun res => ?_
    cases res with
    | error fault => exact .pure
    | ok packed =>
      exact .ensuring (releasePacked_every packed) (.bind (unpack_every s packed) fun _ => .pure)

theorem set_every (s : Nat) (h : Handle) (index : Nat) (v : Val) :
    (set s h index v : Act κ σ Unit).Every S := by
  refine .bind (context_every s) fun _ => .bind (at_every s h) fun p => ?_
  refine .guard (.bind (pack_every s v) fun packed => ?_)
  refine .ensuring (releasePacked_every packed) (.bind (adoptRef_every s packed) fun r => ?_)
  split
  · exact .fail
  · exact onGuest_every s _

theorem grow_every (s : Nat) (h : Handle) (delta : Nat) (init : Val) :
    (grow s h delta init : Act κ σ Nat).Every S := by
  refine .bind (context_every s) fun _ => .bind (at_every s h) fun p => ?_
  refine .guard (.bind (pack_every s init) fun packed => ?_)
  refine .ensuring (releasePacked_every packed) (.bind (adoptRef_every s packed) fun r => ?_)
  split
  · exact .fail
  · exact .bind (onGuest_every s _) fun _ => .pure

end Table

theorem Item.type_every (s : Nat) (item : Item) : (Item.type s item : Act κ σ ItemType).Every S :=
  .bind (context_every s) fun _ => .bind (guest_every s) fun _ =>
    .bind (place_every s _) fun _ => .bind .orAbort fun _ => .pure

/-! ## Instances -/

theorem handOut_every (s : Nat) (place : Guest.Place) :
    (handOut s place : Act κ σ (Option Item)).Every S := by
  refine .bind (.routine (.newExport s place) trivial fun _ => rfl) fun o => .bind .orAbort fun p => ?_
  obtain ⟨h, target⟩ := p
  dsimp only
  split
  · exact .pure
  · exact .bind (releaseHandle_every h) fun _ => .pure

theorem handOutAll_every (s : Nat) (exports : List (String × Guest.Place)) :
    (handOutAll s exports : Act κ σ (List (String × Item))).Every S := by
  induction exports with
  | nil => exact .pure
  | cons e es ih =>
    refine .bind (handOut_every s e.2) fun item => .bind ih fun items => ?_
    cases item <;> exact .pure

namespace Instance

theorem at_every (s : Nat) (i : Handle) : (at_ s i : Act κ σ Guest.Instance).Every S := by
  refine .bind (check_every s i) fun c => ?_
  split
  · exact .bind (hand_every s _) fun _ => .bind (guest_every s) fun _ => .orAbort
  · exact .abort

theorem checkAll_every (s : Nat) (items : List Item) :
    (checkAll s items : Act κ σ Unit).Every S := by
  induction items with
  | nil => exact .pure
  | cons item items ih => exact .bind (check_every s _) fun _ => ih

theorem places_every (s : Nat) (items : List Item) :
    (places s items : Act κ σ (List Guest.Place)).Every S := by
  induction items with
  | nil => exact .pure
  | cons item items ih => exact .bind (place_every s _) fun _ => .bind ih fun _ => .pure

theorem create_every {host : Runner κ σ} (hhost : Every S host) (s module : Nat)
    (imports : List Item) : (create host s module imports).Every S := by
  refine .bind (context_every s) fun _ => .bind .world fun w => ?_
  refine .bind .orAbort fun cell => .bind .orAbort fun store => .guard (.guard ?_)
  refine .bind (checkAll_every s imports) fun _ => .bind (places_every s imports) fun places => ?_
  refine .bind (onGuest_every s _) fun res => ?_
  cases res with
  | error failure => exact raise_every s failure
  | ok started =>
    refine .bind (callStart_every hhost s started) fun res => ?_
    cases res with
    | error failure => exact raise_every s failure
    | ok u => exact .routine (.newHandle s _) trivial fun _ => rfl

theorem getExport_every (s : Nat) (i : Handle) (name : String) :
    (getExport s i name : Act κ σ (Option Item)).Every S := by
  refine .bind (context_every s) fun _ => .bind (at_every s i) fun inst => ?_
  split
  · exact .pure
  · exact handOut_every s _

theorem getFunc_every (s : Nat) (i : Handle) (name : String) :
    (getFunc s i name : Act κ σ (Option Handle)).Every S := by
  refine .bind (getExport_every s i name) fun o => ?_
  split
  · exact .pure
  · exact .bind (releaseHandle_every _) fun _ => .pure
  · exact .pure

theorem exports_every (s : Nat) (i : Handle) :
    (exports s i : Act κ σ (List (String × Item))).Every S := by
  rw [exports_eq]
  exact .bind (context_every s) fun _ => .bind (at_every s i) fun _ => handOutAll_every s _

end Instance

theorem Caller.getExport_every (c : Caller) (name : String) :
    (c.getExport name : Act κ σ (Option Item)).Every S := by
  refine .bind (context_every c.store) fun _ => .bind (guest_every c.store) fun g => ?_
  split
  · exact .pure
  · split
    · exact .pure
    · exact handOut_every _ _

/-! ## Linkers -/

namespace Linker

theorem take_every (l : Nat) (choose : Definitions → Except Error (List Item)) :
    (take l choose : Act κ σ (List Item)).Every S :=
  .bind (.routine (.takeItems l choose) trivial fun _ => rfl) fun _ => .bind .orAbort fun _ => .ofExcept

theorem get?_every (l : Nat) (module name : String) :
    (get? l module name : Act κ σ (Option Item)).Every S := .bind (take_every l _) fun _ => .pure

theorem define_every {l : Nat} {module name : String} {item : Item}
    (h : S (Change.define l module name item).apply) :
    (define l module name item : Act κ σ Unit).Every S := by
  refine .bind (.make h fun _ => rfl) fun o => .bind .orAbort fun p => ?_
  refine .bind (releaseItems_every p.2) fun _ => ?_
  split
  · exact .fail
  · exact .pure

theorem defineAll_every {l : Nat} {module : String}
    (h : ∀ name item, S (Change.define l module name item).apply) (items : List (String × Item)) :
    (defineAll l module items : Act κ σ Unit).Every S := by
  induction items with
  | nil => exact .pure
  | cons item items ih =>
    exact .bind (.onUnwind (releaseItems_every _) (define_every (h _ _))) fun _ => ih

theorem instantiate_every {host : Runner κ σ} (hhost : Every S host) (s l module : Nat) :
    (instantiate host s l module).Every S := by
  refine .bind .world fun v => .bind .orAbort fun m => .bind (take_every l _) fun items => ?_
  exact .ensuring (releaseItems_every items) (Instance.create_every hhost s module items)

theorem getDefault_every (s l : Nat) (module : String) (idle : κ) :
    (getDefault s l module idle : Act κ σ Handle).Every S := by
  refine .bind (take_every l _) fun items => ?_
  cases items with
  | nil => exact Func.create_every s _ idle []
  | cons item items => exact .pure

end Linker

/-! ## Engines, stores and logs -/

theorem Engine.create_every (config : EngineConfig) :
    (Engine.create config : Act κ σ Nat).Every S :=
  .bind .ofExcept fun _ => .routine (.newEngine config) trivial fun _ => rfl

theorem Engine.incrementEpoch_every (e : Nat) :
    (Engine.incrementEpoch e : Act κ σ Unit).Every S := .routine (.incrementEpoch e) trivial fun _ => rfl

namespace Store

theorem countsFuel_every (s : Nat) : (countsFuel s : Act κ σ Bool).Every S :=
  .bind (.bind .world fun _ => .pure) fun _ => .pure

theorem setFuel_every (s fuel : Nat) : (setFuel s fuel : Act κ σ Unit).Every S :=
  .bind (context_every s) fun _ => .bind (countsFuel_every s) fun _ =>
    .guard (onGuest_every s _)

theorem fuel_every (s : Nat) : (fuel s : Act κ σ Nat).Every S :=
  .bind (context_every s) fun _ => .bind (countsFuel_every s) fun _ =>
    .guard (.bind (guest_every s) fun _ => .pure)

theorem setDeadline_every (s ticks : Nat) : (setDeadline s ticks : Act κ σ Unit).Every S :=
  .bind (context_every s) fun _ => .bind (epoch_every s) fun _ => onGuest_every s _

theorem create_every (engine : Nat) : (create engine : Act κ σ Nat).Every S :=
  .routine (.newStore engine) trivial fun _ => rfl

theorem createWith_every (engine : Nat) (limits : ExecutionConfig) :
    (createWith engine limits : Act κ σ Nat).Every S := by
  refine .bind .world fun v => .bind .ofExcept fun _ => .bind (create_every engine) fun s => ?_
  -- If the limits cannot be set the store is deleted again, with everything that comes with a
  -- deletion.
  refine .onUnwind (deleteStore_every s) ?_
  cases limits.epochDeadline with
  | none =>
    cases limits.fuel with
    | none => exact .pure
    | some n => exact .bind (setFuel_every s _) fun _ => .pure
  | some deadline =>
    have hdeadline : (do setDeadline s deadline.toNat; return s : Act κ σ Nat).Every S :=
      .bind (setDeadline_every s _) fun _ => .pure
    cases limits.fuel with
    | none => exact hdeadline
    | some n => exact .bind (setFuel_every s _) fun _ => hdeadline

end Store

theorem logLine_every {sink : Nat} (h : ∀ entry, S (Change.logLine sink entry).apply) (c : Caller)
    (level ptr len : BitVec 32) : (logLine sink c level ptr len : Act κ σ Unit).Every S := by
  unfold logLine
  split
  · exact .pure
  · refine .bind (Caller.getExport_every c _) fun item => ?_
    cases item with
    | none => exact .pure
    | some item =>
      refine .ensuring (releaseHandle_every item.handle) ?_
      split
      · exact .pure
      · refine .bind (Memory.withData_every _ _ _) fun line => ?_
        cases line with
        | none => exact .pure
        -- The one step for which the assumption is needed.
        | some line => exact .make (h _) fun _ => rfl

/-! ## Collectors

A collector is not one of the library's operations, but its steps are interleaved with theirs. -/

theorem collect_every (s g : Nat) : (collect s g : Act κ σ Unit).Every S := by
  refine .bind (.routine (.surrender s g) trivial fun _ => rfl) fun b => ?_
  split
  · exact releaseOrigin_every g
  · exact .pure

theorem collectAll_every (copies : List (Nat × Nat)) : (collectAll copies : Act κ σ Unit).Every S := by
  induction copies with
  | nil => exact .pure
  | cons copy copies ih => exact .bind (collect_every copy.1 copy.2) fun _ => ih

end WasmHost.Host
