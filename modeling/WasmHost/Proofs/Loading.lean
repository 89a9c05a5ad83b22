import WasmHost.CompiledModule
import Mathlib.Data.Nat.Basic

/-!
# Ways of loading a module

The same bytes can be loaded as they are, as a binary module, as text, or as the content of a file. Which
of these ways takes text for text is decided by rules of their own: by four bytes, by one, or not at all.
Still, whatever is loaded is one module, whichever the ways are. It has one hash, too, as long as nothing
but binary modules is loaded as binary. If it is given text, the engine translates it by itself; then the
hash is that of the text, and not of what the text is translated to.

The four ways are implemented separately, and they ask different questions about the bytes. The
engine and the loader that takes anything look for the four bytes a binary module begins with. A
file is taken for binary if its first byte is zero. Binary modules are not looked at: the bytes are
passed to the engine, which looks for the four bytes by itself. That the answers agree is not
obvious. It rests on what text can be: text whose first character is not zero does not begin with
the byte zero (`head_utf8EncodeChar_eq_zero`), and the translator takes no text that begins with the
character zero. So where two questions have different answers the bytes cannot be loaded at all, and
it does not matter which way is taken.

What a translator makes of a text is not known, except that it is a binary module, so all of this
holds of every translator. The hash could be any function, too, as far as the general statements go;
only for the example at the end does it have to be computed.

The hash is the one thing that distinguishes the ways. `RoutesRelate` says what holds without
condition, and `routesAgree_iff` gives the condition for the rest.
-/

namespace WasmHost

/-! ## Bytes that begin with zero

UTF-8 marks the first byte of a longer code by bits that are set. A byte that is zero is a code by
itself. -/

/-- Only the character zero is encoded with a zero in front. -/
theorem head_utf8EncodeChar_eq_zero {c : Char}
    (h : (String.utf8EncodeChar c).head? = some 0) : c = '\x00' := by
  -- The first byte of a longer code has its top bits set.
  have hlead : ∀ n : Nat, UInt8.ofNat n = 0 → n % 256 = 0 := by
    intro n hn
    have := congrArg UInt8.toNat hn
    simpa using this
  have hval : c.val.toNat = 0 := by
    simp only [String.utf8EncodeChar] at h
    split at h
    · have := hlead _ (Option.some.inj h)
      omega
    · exfalso
      split at h
      · have := hlead _ (Option.some.inj h)
        omega
      · split at h
        · have := hlead _ (Option.some.inj h)
          omega
        · have := hlead _ (Option.some.inj h)
          omega
  exact Char.ext (UInt32.toNat_inj.mp hval)

/-- The bytes of an array that is made from a list are those of the list. -/
theorem getElem?_toByteArray (l : List UInt8) (i : Nat) : l.toByteArray[i]? = l[i]? := by
  by_cases h : i < l.length
  · rw [getElem?_pos l.toByteArray i (by simpa using h), getElem?_pos l i h]
    simp
  · rw [getElem?_neg l.toByteArray i (by simpa using h), getElem?_neg l i h]

/-- The encoding of a text can be decoded. -/
theorem fromUTF8?_toByteArray (text : String) : String.fromUTF8? text.toByteArray = some text := by
  have hvalid : text.toByteArray.IsValidUTF8 := text.isValidUTF8
  simp [String.fromUTF8?, hvalid, String.fromUTF8]

/-- If bytes that are text begin with zero, then the text begins with the character zero. -/
theorem head_of_fromUTF8? {bytes : ByteArray} {text : String}
    (htext : String.fromUTF8? bytes = some text) (hzero : bytes[0]? = some 0) :
    text.toList.head? = some '\x00' := by
  obtain rfl : text.toByteArray = bytes := by
    unfold String.fromUTF8? at htext
    split at htext
    · cases htext
      rfl
    · cases htext
  rw [← String.utf8Encode_toList, List.utf8Encode, getElem?_toByteArray] at hzero
  cases hchars : text.toList with
  | nil => simp [hchars] at hzero
  | cons c cs =>
    rw [hchars, List.flatMap_cons, List.getElem?_append_left (by simp [Char.utf8Size_pos]),
      ← List.head?_eq_getElem?] at hzero
    rw [head_utf8EncodeChar_eq_zero hzero, List.head?_cons]

/-- A binary module begins with zero. It is the first of the four bytes. -/
theorem ModuleText.getElem?_zero {bytes : ByteArray} (h : isBinary bytes = true) :
    bytes[0]? = some 0 := by
  obtain ⟨⟨bytes⟩⟩ := bytes
  have htake : bytes.take 4 = emptyModule.take 4 := of_decide_eq_true h
  cases bytes with
  | nil => cases htake
  | cons b bytes =>
    obtain rfl : b = 0 := Option.some.inj (congrArg List.head? htake)
    rfl

/-! ## Binary modules and translations

A translator gives a binary module or nothing. So its result is taken as it is if it is loaded
again. -/

namespace Translator

variable {t : Translator} {bytes binary : ByteArray}

/-- A binary module is not translated. -/
theorem binaryOf?_of_isBinary (h : ModuleText.isBinary bytes = true) :
    t.binaryOf? bytes = some bytes := if_pos h

/-- Whatever comes of bytes is a binary module. -/
theorem isBinary_of_binaryOf? (h : t.binaryOf? bytes = some binary) :
    ModuleText.isBinary binary = true := by
  unfold binaryOf? at h
  split at h
  · cases h
    assumption
  · obtain ⟨text, -, htranslate⟩ := Option.bind_eq_some_iff.mp h
    exact t.binary text binary htranslate

/-- Text that begins with the byte zero is not translated. -/
theorem translate?_eq_none {text : String} (htext : String.fromUTF8? bytes = some text)
    (hzero : bytes[0]? = some 0) : t.translate? text = none :=
  t.zero text (head_of_fromUTF8? htext hzero)

/-- What can be translated does not begin like a binary module. -/
theorem binaryOf?_of_text {text : String} (htext : String.fromUTF8? bytes = some text)
    (h : t.translate? text = some binary) : t.binaryOf? bytes = some binary := by
  have hbinary : ¬ModuleText.isBinary bytes = true := by
    intro hbinary
    rw [translate?_eq_none htext (ModuleText.getElem?_zero hbinary)] at h
    cases h
  rw [binaryOf?, if_neg hbinary, htext, Option.bind_some, h]

/-- Bytes that begin with zero are a binary module, or nothing. -/
theorem isBinary_of_zero (hzero : bytes[0]? = some 0) (h : t.binaryOf? bytes = some binary) :
    ModuleText.isBinary bytes = true := by
  by_contra hbinary
  rw [binaryOf?, if_neg hbinary] at h
  obtain ⟨text, htext, htranslate⟩ := Option.bind_eq_some_iff.mp h
  rw [translate?_eq_none htext hzero] at htranslate
  cases htranslate

end Translator

namespace CompiledModule

/-! ## Loading in one way

For each way: what the engine makes of the bytes that it is given in the end is what it makes of the
bytes at the beginning, and the hash is that of the former. The engine translates, too, so
translating for it makes no difference to it. -/

variable {l : Loader} {bytes binary : ByteArray} {m m' : CompiledModule}

/-- The engine makes the same of bytes and of their translation, since a translation is left as it
is. -/
theorem engineLoad?_of_binaryOf? (h : l.translator.binaryOf? bytes = some binary) :
    engineLoad? l binary = engineLoad? l bytes := by
  have hbinary := Translator.binaryOf?_of_isBinary (t := l.translator)
    (Translator.isBinary_of_binaryOf? h)
  rw [engineLoad?, engineLoad?, hbinary, h]

/-- Loading as binary is what the engine does, with the hash of the bytes that it is given. -/
theorem ofBinary_eq_ok : ofBinary l bytes = .ok m ↔
    engineLoad? l bytes = some m.code ∧ m.hash = ContentHash.ofBytes bytes := by
  obtain ⟨hash, code, valid⟩ := m
  unfold ofBinary
  split
  · rename_i code' h
    constructor
    · intro hok
      cases hok
      exact ⟨h, rfl⟩
    · rintro ⟨hcode, rfl⟩
      obtain rfl : code' = code := Option.some.inj (h.symm.trans hcode)
      rfl
  · rename_i h
    constructor
    · intro hok
      cases hok
    · rintro ⟨hcode, -⟩
      cases h.symm.trans hcode

/-- A way of loading a module from bytes. -/
inductive Route where
  /-- The bytes are a binary module or text. -/
  | any
  | binary
  | text
  /-- The bytes are the content of a file. -/
  | file
  deriving DecidableEq, Repr

/-- Loads bytes in some way. Only what is text can be loaded as text. -/
def Route.load? (l : Loader) (bytes : ByteArray) : Route → Option (Except Error CompiledModule)
  | .any => some (ofBytes l bytes)
  | .binary => some (ofBinary l bytes)
  | .text => (String.fromUTF8? bytes).map (ofText l)
  | .file => some (ofFile l bytes)

/-- A module is loaded from bytes in some way. -/
def Loads (l : Loader) (bytes : ByteArray) (r : Route) (m : CompiledModule) : Prop :=
  r.load? l bytes = some (.ok m)

/-- The bytes that are hashed. -/
def Route.hashed (l : Loader) (bytes : ByteArray) : Route → ByteArray
  | .binary => bytes
  | _ => (l.translator.binaryOf? bytes).getD bytes

/-- For a binary module there is only one thing that could be hashed. -/
theorem hashed_of_isBinary (h : ModuleText.isBinary bytes = true) (r : Route) :
    r.hashed l bytes = bytes := by
  cases r <;> simp [Route.hashed, Translator.binaryOf?_of_isBinary h]

/-- What is hashed depends on one thing: whether it is loaded as binary. -/
theorem hashed_eq_hashed {r r' : Route} (h : r = .binary ↔ r' = .binary) :
    r.hashed l bytes = r'.hashed l bytes := by
  by_cases hr : r = .binary
  · rw [hr, h.mp hr]
  · have hr' : r' ≠ .binary := fun hr' => hr (h.mpr hr')
    cases r <;> cases r' <;> simp_all [Route.hashed]

/-- Any other way gives the translation to the engine, and hashes it. -/
theorem loads_of_binaryOf? {r : Route} (hr : r ≠ .binary)
    (hbinary : l.translator.binaryOf? bytes = some binary) (h : ofBinary l binary = .ok m) :
    engineLoad? l bytes = some m.code ∧ m.hash = ContentHash.ofBytes (r.hashed l bytes) := by
  obtain ⟨hcode, hhash⟩ := ofBinary_eq_ok.mp h
  refine ⟨engineLoad?_of_binaryOf? hbinary ▸ hcode, hhash.trans ?_⟩
  cases r with
  | binary => exact absurd rfl hr
  | _ => simp [Route.hashed, hbinary]

/-- Text is translated, and its translation is what comes of the bytes that encode it. -/
theorem loads_text {r : Route} (hr : r ≠ .binary) {text : String}
    (htext : String.fromUTF8? bytes = some text) (h : ofText l text = .ok m) :
    engineLoad? l bytes = some m.code ∧ m.hash = ContentHash.ofBytes (r.hashed l bytes) := by
  unfold ofText at h
  split at h
  · rename_i binary htranslate
    exact loads_of_binaryOf? hr (Translator.binaryOf?_of_text htext htranslate) h
  · cases h

/-- In whatever way a module is loaded, it is the one that the engine makes of the bytes. By cases
on the way. A file whose first byte is zero is the only difficult case: it is loaded without being
looked at any further, and would have the hash of the bytes even if they were translated. But they
are not. -/
theorem Loads.eq {r : Route} (h : Loads l bytes r m) :
    engineLoad? l bytes = some m.code ∧ m.hash = ContentHash.ofBytes (r.hashed l bytes) := by
  cases r with
  | any =>
    have hany : ofBytes l bytes = .ok m := Option.some.inj h
    unfold ofBytes at hany
    split at hany
    · rename_i binary hbinary
      exact loads_of_binaryOf? (by decide) hbinary hany
    · cases hany
  | binary => exact ofBinary_eq_ok.mp (Option.some.inj h)
  | text =>
    obtain ⟨text, htext, hok⟩ := Option.map_eq_some_iff.mp h
    exact loads_text (by decide) htext hok
  | file =>
    have hfile : ofFile l bytes = .ok m := Option.some.inj h
    unfold ofFile at hfile
    split at hfile
    · rename_i hzero
      obtain ⟨hcode, hhash⟩ := ofBinary_eq_ok.mp hfile
      obtain ⟨binary, hbinary, -⟩ := Option.bind_eq_some_iff.mp hcode
      rw [hashed_of_isBinary (Translator.isBinary_of_zero hzero hbinary)]
      exact ⟨hcode, hhash⟩
    · split at hfile
      · rename_i text htext
        exact loads_text (by decide) htext hfile
      · cases hfile

/-- Whatever the engine takes can be loaded without saying what it is. -/
theorem exists_loads_any {code : Wasm.Module} (h : engineLoad? l bytes = some code) :
    ∃ m, Loads l bytes .any m := by
  obtain ⟨binary, hbinary, -⟩ := Option.bind_eq_some_iff.mp h
  have hcode : engineLoad? l binary = some code := (engineLoad?_of_binaryOf? hbinary).trans h
  refine ⟨⟨ContentHash.ofBytes binary, code, l.features, valid_of_engineLoad? hcode⟩, ?_⟩
  refine congrArg some ?_
  rw [ofBytes, hbinary]
  exact ofBinary_eq_ok.mpr ⟨hcode, rfl⟩

/-! ## Loading in several ways

Two ways are compared by comparing each with the engine. There is one lemma for each way and none
for each pair. -/

/-- What holds of loading bytes in several ways, whatever they are. -/
structure RoutesRelate (l : Loader) (bytes : ByteArray) : Prop where
  /-- What is loaded in any two ways has the same imports and exports, -/
  contents : ∀ r r' m m', Loads l bytes r m → Loads l bytes r' m' →
    m.imports = m'.imports ∧ m.exports = m'.exports
  /-- and the same hash unless it is loaded as binary in just one of them. -/
  hashes : ∀ r r' m m', (r = .binary ↔ r' = .binary) → Loads l bytes r m → Loads l bytes r' m' →
    m.hash = m'.hash
  /-- What is loaded in any way is loaded without saying what it is. -/
  any : ∀ r m, Loads l bytes r m → ∃ m', Loads l bytes .any m'
  /-- A file is binary if its first byte is zero, -/
  fileBinary : bytes[0]? = some 0 → ofFile l bytes = ofBinary l bytes
  /-- else it is text if it is any, -/
  fileText : ∀ text, bytes[0]? ≠ some 0 → String.fromUTF8? bytes = some text →
    ofFile l bytes = ofText l text
  /-- and else it is refused. -/
  fileOther : bytes[0]? ≠ some 0 → String.fromUTF8? bytes = none →
    ∃ reason, ofFile l bytes = .error (.wat reason)

/-- All ways of loading agree, and only what begins like a binary module is loaded as one. -/
structure RoutesAgree (l : Loader) (bytes : ByteArray) : Prop extends RoutesRelate l bytes where
  same : ∀ r r' m m', Loads l bytes r m → Loads l bytes r' m' → m.hash = m'.hash
  binary : ∀ m, Loads l bytes .binary m → ModuleText.isBinary bytes = true

/-- What is loaded in two ways is what the engine makes of the same bytes, so it is the same. -/
theorem routesRelate (l : Loader) (bytes : ByteArray) : RoutesRelate l bytes where
  contents r r' m m' h h' := by
    have hcode : m.code = m'.code := Option.some.inj (h.eq.1.symm.trans h'.eq.1)
    exact ⟨congrArg Wasm.Module.importTypes hcode, congrArg Wasm.Module.exportTypes hcode⟩
  hashes r r' m m' hr h h' := by
    rw [h.eq.2, h'.eq.2, hashed_eq_hashed hr]
  any r m h := exists_loads_any h.eq.1
  fileBinary hzero := if_pos hzero
  fileText text hzero htext := by rw [ofFile, if_neg hzero, htext]
  fileOther hzero htext := by
    refine ⟨ModuleText.failure, ?_⟩
    rw [ofFile, if_neg hzero, htext]

/-- The ways of loading agree on just those bytes that begin like a binary module, or that cannot be
loaded as one. From left to right: if the bytes can be loaded as binary they must begin like a
binary module. From right to left: in the first case all ways hash the bytes, and in the second one
of the two groups of ways is empty. -/
theorem routesAgree_iff (l : Loader) (bytes : ByteArray) :
    RoutesRelate l bytes ∧ (RoutesAgree l bytes ↔
      ModuleText.isBinary bytes = true ∨ ∀ m, ¬Loads l bytes .binary m) := by
  refine ⟨routesRelate l bytes, ⟨fun h => ?_, fun h => ⟨routesRelate l bytes, ?_, ?_⟩⟩⟩
  · by_cases hloads : ∃ m, Loads l bytes .binary m
    · obtain ⟨m, hm⟩ := hloads
      exact .inl (h.binary m hm)
    · exact .inr fun m hm => hloads ⟨m, hm⟩
  · intro r r' m m' hm hm'
    rcases h with hbinary | hnone
    · rw [hm.eq.2, hm'.eq.2, hashed_of_isBinary hbinary, hashed_of_isBinary hbinary]
    · -- Neither of the two ways is the one for binary modules.
      refine (routesRelate l bytes).hashes r r' m m' ⟨?_, ?_⟩ hm hm'
      · rintro rfl
        exact absurd hm (hnone m)
      · rintro rfl
        exact absurd hm' (hnone m')
  · intro m hm
    exact h.resolve_right fun hnone => hnone m hm

/-- Text that is loaded as binary has the hash of the text, and not of the module that it stands
for. The shortest module there is in text will do. -/
theorem text_loaded_as_binary :
    let l : Loader := Wasm.Features.standard
    let bytes := "(module)".toByteArray
    ModuleText.isBinary bytes = false ∧
      (∃ m m', Loads l bytes .binary m ∧ Loads l bytes .any m' ∧ m.hash ≠ m'.hash) ∧
      ¬RoutesAgree l bytes := by
  intro l bytes
  have hmagic : ModuleText.isBinary bytes = false := by decide +kernel
  have hbinary : l.translator.binaryOf? bytes = some ⟨ModuleText.emptyModule.toArray⟩ :=
    Translator.binaryOf?_of_text (fromUTF8?_toByteArray "(module)") (by decide +kernel)
  have hload : (Wasm.load? .standard ⟨ModuleText.emptyModule.toArray⟩).isSome := by decide +kernel
  obtain ⟨code, hcode⟩ := Option.isSome_iff_exists.mp hload
  have hengine : engineLoad? l bytes = some code := by rw [engineLoad?, hbinary]; exact hcode
  have hm : Loads l bytes .binary
      ⟨ContentHash.ofBytes bytes, code, l.features, valid_of_engineLoad? hengine⟩ :=
    congrArg some (ofBinary_eq_ok.mpr ⟨hengine, rfl⟩)
  obtain ⟨m', hm'⟩ := exists_loads_any hengine
  have hhash : ContentHash.ofBytes bytes ≠ m'.hash := by
    rw [hm'.eq.2, Route.hashed, hbinary]
    · decide +kernel
    · exact Route.noConfusion
  exact ⟨hmagic, ⟨_, m', hm, hm', hhash⟩, fun h => hhash (h.same _ _ _ _ hm hm')⟩

end CompiledModule

end WasmHost
