import WasmHost.Config.Text
import WasmHost.Proofs.JsonText
import Mathlib.Data.List.Forall2

/-!
# Configuration in JSON

A configuration is read from the members of a record, at each level only from those with its own names,
wherever they stand. A name that does not occur stands for a default, and one that occurs twice, or with
a value that means nothing there, makes the text unreadable. What is written is read again.

The reader works with lists of members and looks names up in them, from the front. What it should do
is easier to say without any order: of the values that stand under a name, there is none, or one, or
there are too many. So `values` is the notion that everything is stated with. `Sets` says for one
name what is set, `Fault` says when nothing can be, and these two exclude one another
(`exists_sets_iff`); hence it is never left open what becomes of a text. For each level there is a
structure `StatedBy` with a field for every name. These structures are the specification, and they
are written out name by name, since each name has a meaning and a default of its own. A single
statement about a table of names would have to be read together with that table.

The bridge to the reader is `known`: it keeps the members whose names belong to the level, and only
these are looked at, counted and looked up. A member with another name is skipped, even if it occurs
twice.
-/

namespace WasmHost

/-! ## Members

A level is written as a record, or as a list with the values in the order of the names. A list is
treated as the record that it abbreviates, in which no name is repeated because none is in `names`
twice. -/

namespace Document

variable {α : Type} {ms : List (String × Document)} {names : List String} {name : String}
  {d : Document}

/-- The values that stand under a name. -/
def values (ms : List (String × Document)) (name : String) : List Document :=
  (ms.filter fun m => m.1 == name).map Prod.snd

/-- Members set something under a name: to a default if there is none of that name, or to what the value
means if there is one. -/
inductive Sets (ms : List (String × Document)) (name : String) (Means : Document → α → Prop)
    (default : α) : α → Prop
  | unset (h : values ms name = []) : Sets ms name Means default default
  | set {d : Document} {a : α} (h : values ms name = [d]) (hd : Means d a) :
      Sets ms name Means default a

/-- Nothing can be set under a name: it is repeated, or its value means nothing. -/
def Fault (ms : List (String × Document)) (name : String) (Means : Document → α → Prop) : Prop :=
  2 ≤ (values ms name).length ∨ ∃ d ∈ values ms name, ∀ a, ¬Means d a

/-- The members of a document are those of a record, or the items of a list that is not too long. -/
inductive HasMembers (names : List String) : Document → List (String × Document) → Prop
  | record {ms : List (String × Document)} : HasMembers names (.record ms) ms
  | list {items : List Document} (h : items.length ≤ names.length) :
      HasMembers names (.list items) (names.zip items)

/-- Under a name either something is set, or there is a fault. The cases are those of the values
under it: none, one, or more than one. -/
theorem exists_sets_iff {Means : Document → α → Prop} {default : α} :
    (∃ a, Sets ms name Means default a) ↔ ¬Fault ms name Means := by
  constructor
  · rintro ⟨a, hsets⟩ hfault
    cases hsets with
    | unset hnil => simp [Fault, hnil] at hfault
    | set hone hd =>
      rcases hfault with htwo | ⟨d', hmem, hnone⟩
      · rw [hone] at htwo
        exact absurd htwo (by simp)
      · rw [hone, List.mem_singleton] at hmem
        exact hnone _ (hmem ▸ hd)
  · intro hfault
    obtain ⟨htwo, hmeans⟩ := not_or.mp hfault
    match hvalues : values ms name with
    | [] => exact ⟨default, .unset hvalues⟩
    | [d] =>
      obtain ⟨a, ha⟩ : ∃ a, Means d a := by
        by_contra hnone
        exact hmeans ⟨d, by simp [hvalues], not_exists.mp hnone⟩
      exact ⟨a, .set hvalues ha⟩
    | d :: d' :: rest =>
      rw [hvalues] at htwo
      exact absurd (by simp) htwo

theorem values_cons (m : String × Document) :
    values (m :: ms) name = if m.1 = name then m.2 :: values ms name else values ms name := by
  by_cases h : m.1 = name <;> simp [values, h]

/-- The members with one of the given names. -/
def known (names : List String) (ms : List (String × Document)) : List (String × Document) :=
  ms.filter fun m => names.contains m.1

theorem known_cons (m : String × Document) :
    known names (m :: ms) = if m.1 ∈ names then m :: known names ms else known names ms := by
  by_cases h : m.1 ∈ names <;> simp [known, h]

/-- What is looked up first is the first of the values. Members with other names are passed over on
both sides, so the proof is by induction on the members. -/
theorem lookup_known (hname : name ∈ names) : (known names ms).lookup name = (values ms name).head? := by
  induction ms with
  | nil => rfl
  | cons m ms ih =>
    obtain ⟨k, d⟩ := m
    rw [values_cons, known_cons]
    by_cases hk : k = name
    · cases hk
      rw [if_pos hname, if_pos rfl, List.lookup_cons, beq_self_eq_true]
      rfl
    · rw [if_neg hk]
      split
      · rw [List.lookup_cons, beq_false_of_ne (Ne.symm hk)]
        exact ih
      · exact ih

/-- A name occurs among the known members as often as it has values, since none of its members are
left out. -/
theorem count_known (hname : name ∈ names) :
    ((known names ms).map Prod.fst).count name = (values ms name).length := by
  induction ms with
  | nil => rfl
  | cons m ms ih =>
    obtain ⟨k, d⟩ := m
    rw [values_cons, known_cons]
    by_cases hk : k = name
    · cases hk
      rw [if_pos hname, if_pos rfl, List.map_cons, List.count_cons_self, ih, List.length_cons]
    · rw [if_neg hk]
      split
      · rw [List.map_cons, List.count_cons_of_ne hk]
        exact ih
      · exact ih

/-- No name is repeated just if there is at most one value under each. -/
theorem nodup_known : ((known names ms).map Prod.fst).Nodup ↔
    ∀ name ∈ names, (values ms name).length ≤ 1 := by
  rw [List.nodup_iff_count]
  constructor
  · intro h name hname
    rw [← count_known hname]
    exact h name
  · intro h name
    by_cases hname : name ∈ names
    · rw [count_known hname]
      exact h name hname
    · have hmem : name ∉ (known names ms).map Prod.fst := by
        intro hmem
        obtain ⟨m, hm, rfl⟩ := List.mem_map.mp hmem
        exact hname (by simpa using (List.mem_filter.mp hm).2)
      rw [List.count_eq_zero_of_not_mem hmem]
      exact Nat.zero_le 1

/-- A list has no members with unknown names: it gets its names from the level. -/
theorem known_zip (names : List String) (items : List Document) :
    known names (names.zip items) = names.zip items := by
  refine List.filter_eq_self.mpr fun m hm => ?_
  simpa using (List.of_mem_zip hm).1

theorem map_fst_zip_sublist (names : List String) (items : List Document) :
    ((names.zip items).map Prod.fst).Sublist names := by
  induction names generalizing items with
  | nil => exact .slnil
  | cons name names ih =>
    cases items with
    | nil => exact List.nil_sublist _
    | cons d items => exact (ih items).cons_cons name

/-- What the reader goes on with is the known members, and it goes on just if no name of the level
is repeated among them. For a record that is what it checks; for a list it holds of itself. -/
theorem named?_eq_some (hnames : names.Nodup) {ms' : List (String × Document)} :
    d.named? Json.dialect names = some ms' ↔ ∃ ms, HasMembers names d ms ∧
      (∀ name ∈ names, (values ms name).length ≤ 1) ∧ ms' = known names ms := by
  constructor
  · intro h
    unfold named? at h
    split at h
    · rename_i ms
      dsimp only at h
      split at h
      · rename_i hnodup
        cases h
        exact ⟨ms, .record, nodup_known.mp hnodup, rfl⟩
      · cases h
    · rename_i items
      split at h
      · rename_i hlen
        have hlen : items.length ≤ names.length := by simpa [Json.dialect] using hlen
        cases h
        refine ⟨names.zip items, .list hlen, ?_, (known_zip names items).symm⟩
        rw [← nodup_known, known_zip]
        exact hnames.sublist (map_fst_zip_sublist names items)
      · cases h
    · cases h
  · rintro ⟨ms, hms, honce, rfl⟩
    cases hms with
    | record => exact if_pos (nodup_known.mpr honce)
    | list hlen =>
      rw [known_zip]
      exact if_pos (by simpa using Or.inr hlen)

/-- The one lemma about reading a name. `read` may be any reader whose meaning is known, so that
this is used for flags as well as for whole levels that are read from a record of their own. -/
theorem member_eq_some (hname : name ∈ names) (honce : (values ms name).length ≤ 1)
    {read : Document → Option α} {Means : Document → α → Prop} {default a : α}
    (hread : ∀ d a, read d = some a ↔ Means d a) :
    member (known names ms) name default read = some a ↔
      Sets ms name Means default a := by
  rw [member, lookup_known hname]
  cases hvalues : values ms name with
  | nil =>
    constructor
    · rintro ⟨⟩
      exact .unset hvalues
    · intro h
      cases h with
      | unset => rfl
      | set h => cases h.symm.trans hvalues
  | cons d rest =>
    rw [hvalues, List.length_cons] at honce
    -- There is one value at most, so the first one that is looked up is the only one.
    obtain rfl := List.eq_nil_of_length_eq_zero (Nat.le_zero.mp (Nat.le_of_succ_le_succ honce))
    rw [List.head?_cons]
    show read d = some a ↔ _
    rw [hread]
    constructor
    · exact .set hvalues
    · intro h
      cases h with
      | unset h => cases h.symm.trans hvalues
      | set h hd =>
        cases h.symm.trans hvalues
        exact hd

theorem Sets.length_le {Means : Document → α → Prop} {default a : α}
    (h : Sets ms name Means default a) : (values ms name).length ≤ 1 := by
  cases h with
  | unset h => simp [h]
  | set h => simp [h]

/-- What members state is read. -/
theorem Sets.member_eq {Means : Document → α → Prop} {default a : α} {read : Document → Option α}
    (h : Sets ms name Means default a) (hname : name ∈ names)
    (hread : ∀ d a, read d = some a ↔ Means d a) :
    member (known names ms) name default read = some a :=
  (member_eq_some hname h.length_le hread).mpr h

/-! ## Values

Each reader of a value is described by a relation between documents and what they mean. The
relations do not mention the reader, so what is stated below can be read without it. -/

def IsFlag (d : Document) (b : Bool) : Prop := d = .bool b

/-- An integer of 64 bits. -/
def IsWord (d : Document) (n : UInt64) : Prop := d = .integer n.toNat

/-- What may be left open is left open by null. -/
inductive IsOptional (Means : Document → α → Prop) : Document → Option α → Prop
  | null : IsOptional Means .null none
  | some {d : Document} {a : α} (h : Means d a) : IsOptional Means d (some a)

theorem bool?_eq_some (d : Document) (b : Bool) : d.bool? = some b ↔ IsFlag d b := by
  cases d <;> simp [bool?, IsFlag]

theorem word?_eq_some (d : Document) (n : UInt64) : d.word? = some n ↔ IsWord d n := by
  constructor
  · intro h
    unfold word? at h
    split at h
    · split at h
      · rename_i k hk
        cases h
        have hlt : k.toNat < UInt64.size := by
          have := hk.2
          simp [UInt64.size] at *
          omega
        rw [IsWord, UInt64.toNat_ofNat_of_lt' hlt, Int.toNat_of_nonneg hk.1]
      · cases h
    · cases h
  · rintro rfl
    have hlt : (n.toNat : Int) < (Nat.pow 2 64 : Nat) := by simpa using n.toNat_lt
    rw [word?, if_pos ⟨Int.natCast_nonneg _, hlt⟩, Int.toNat_natCast, UInt64.ofNat_toNat]

/-- Null is looked at first. Therefore null must not mean anything by itself; otherwise a value
could be left open that is stated. -/
theorem optional?_eq_some {read : Document → Option α} {Means : Document → α → Prop}
    (hread : ∀ d a, read d = some a ↔ Means d a) (hnull : ∀ a, ¬Means .null a) (d : Document)
    (o : Option α) : optional? read d = some o ↔ IsOptional Means d o := by
  constructor
  · intro h
    unfold optional? at h
    split at h
    · cases h
      exact .null
    · obtain ⟨a, ha, rfl⟩ := Option.map_eq_some_iff.mp h
      exact .some ((hread _ a).mp ha)
  · intro h
    cases h with
    | null => rfl
    | @some _ a h =>
      have hd : d ≠ .null := by
        rintro rfl
        exact hnull a h
      cases d <;> first | exact absurd rfl hd | exact Option.map_eq_some_iff.mpr ⟨a, (hread _ a).mpr h, rfl⟩

theorem switch_eq_some : ∀ d o, optional? bool? d = some o ↔ IsOptional IsFlag d o :=
  optional?_eq_some bool?_eq_some fun _ h => by cases h

theorem limit_eq_some : ∀ d o, optional? word? d = some o ↔ IsOptional IsWord d o :=
  optional?_eq_some word?_eq_some fun _ h => by cases h

end Document

open Document

/-- A level is its word, or a record of its word and null. -/
def OptLevel.IsLevel (d : Document) (l : OptLevel) : Prop :=
  d = .text l.word ∨ d = .record [(l.word, .null)]

theorem OptLevel.ofWord?_eq_some {w : String} {l : OptLevel} : ofWord? w = some l ↔ w = l.word := by
  constructor
  · intro h
    exact (beq_iff_eq.mp (List.find?_some (p := fun l : OptLevel => l.word == w) h)).symm
  · rintro rfl
    exact ofWord?_word l

theorem OptLevel.ofDocument?_eq_some (d : Document) (l : OptLevel) :
    ofDocument? Json.dialect d = some l ↔ IsLevel d l := by
  rw [ofDocument?, Option.bind_eq_some_iff]
  constructor
  · rintro ⟨w, hw, hl⟩
    rw [ofWord?_eq_some] at hl
    subst hl
    unfold alternative? at hw
    split at hw
    · cases hw
      exact .inl rfl
    · rename_i name d
      cases d <;> simp [Json.dialect] at hw
      exact .inr (hw ▸ rfl)
    · cases hw
  · rintro (rfl | rfl)
    · exact ⟨l.word, rfl, ofWord?_word l⟩
    · exact ⟨l.word, rfl, ofWord?_word l⟩

/-! ## Parts of a configuration

From the inside out, for each level: what members state, that no name is repeated where something is
stated, and that the reader reads just that. In both directions the proofs go through the names one
after the other, as the reader does. -/

/-- The switches that members state. -/
structure FeatureSwitches.StatedBy (ms : List (String × Document)) (s : FeatureSwitches) : Prop where
  referenceTypes : Sets ms "reference_types" (IsOptional IsFlag) none s.referenceTypes
  simd : Sets ms "simd" (IsOptional IsFlag) none s.simd
  bulkMemory : Sets ms "bulk_memory" (IsOptional IsFlag) none s.bulkMemory
  multiValue : Sets ms "multi_value" (IsOptional IsFlag) none s.multiValue
  multiMemory : Sets ms "multi_memory" (IsOptional IsFlag) none s.multiMemory
  memory64 : Sets ms "memory64" (IsOptional IsFlag) none s.memory64
  threads : Sets ms "threads" (IsOptional IsFlag) none s.threads

/-- A document states switches if its members do. As a list it has to be complete, because switches
cannot be left out from the end of a list as other values can. -/
def FeatureSwitches.Stated (d : Document) (s : FeatureSwitches) : Prop :=
  ∃ ms, HasMembers names d ms ∧ isComplete d = true ∧ StatedBy ms s

theorem FeatureSwitches.StatedBy.once {ms : List (String × Document)} {s : FeatureSwitches}
    (h : StatedBy ms s) : ∀ name ∈ names, (values ms name).length ≤ 1 := by
  simp only [names, List.forall_mem_cons]
  exact ⟨h.referenceTypes.length_le, h.simd.length_le, h.bulkMemory.length_le, h.multiValue.length_le,
    h.multiMemory.length_le, h.memory64.length_le, h.threads.length_le, List.forall_mem_nil _⟩

/-- All switches have the same meaning, so `member_eq_some` is specialised to them once in each
direction. -/
theorem FeatureSwitches.ofDocument?_eq_some (d : Document) (s : FeatureSwitches) :
    ofDocument? Json.dialect d = some s ↔ Stated d s := by
  simp only [ofDocument?, Option.bind_eq_bind, Option.bind_eq_some_iff, Option.pure_def,
    Option.some.injEq]
  constructor
  · rintro ⟨ms', hms', u, hguard, _, h₁, _, h₂, _, h₃, _, h₄, _, h₅, _, h₆, _, h₇, rfl⟩
    obtain ⟨ms, hms, honce, rfl⟩ := (named?_eq_some (by decide)).mp hms'
    -- The check comes before any member is read, but does not depend on them.
    have hcomplete : isComplete d = true := by
      by_contra hnot
      rw [guard, if_neg hnot] at hguard
      cases hguard
    have hswitch : ∀ {name o}, member (known names ms) name none (optional? bool?) = some o →
        name ∈ names → Sets ms name (IsOptional IsFlag) none o := fun h hname =>
      (member_eq_some hname (honce _ hname) switch_eq_some).mp h
    exact ⟨ms, hms, hcomplete, hswitch h₁ (by decide), hswitch h₂ (by decide),
      hswitch h₃ (by decide), hswitch h₄ (by decide), hswitch h₅ (by decide),
      hswitch h₆ (by decide), hswitch h₇ (by decide)⟩
  · rintro ⟨ms, hms, hcomplete, h⟩
    have hswitch : ∀ {name o}, Sets ms name (IsOptional IsFlag) none o → name ∈ names →
        member (known names ms) name none (optional? bool?) = some o := fun h hname =>
      h.member_eq hname switch_eq_some
    exact ⟨_, (named?_eq_some (by decide)).mpr ⟨ms, hms, h.once, rfl⟩, (), if_pos hcomplete,
      _, hswitch h.referenceTypes (by decide), _, hswitch h.simd (by decide),
      _, hswitch h.bulkMemory (by decide), _, hswitch h.multiValue (by decide),
      _, hswitch h.multiMemory (by decide), _, hswitch h.memory64 (by decide),
      _, hswitch h.threads (by decide), rfl⟩

/-- The settings of an engine that members state. -/
structure EngineConfig.StatedBy (ms : List (String × Document)) (c : EngineConfig) : Prop where
  consumeFuel : Sets ms "consume_fuel" IsFlag false c.consumeFuel
  epochInterruption : Sets ms "epoch_interruption" IsFlag false c.epochInterruption
  debugInfo : Sets ms "debug_info" IsFlag false c.debugInfo
  optLevel : Sets ms "opt_level" OptLevel.IsLevel .speed c.optLevel
  maxWasmStack : Sets ms "max_wasm_stack" (IsOptional IsWord) none c.maxWasmStack
  features : Sets ms "features" FeatureSwitches.Stated .unset c.features

/-- A document states the settings of an engine if its members do. -/
def EngineConfig.Stated (d : Document) (c : EngineConfig) : Prop :=
  ∃ ms, HasMembers names d ms ∧ StatedBy ms c

theorem EngineConfig.StatedBy.once {ms : List (String × Document)} {c : EngineConfig}
    (h : StatedBy ms c) : ∀ name ∈ names, (values ms name).length ≤ 1 := by
  simp only [names, List.forall_mem_cons]
  exact ⟨h.consumeFuel.length_le, h.epochInterruption.length_le, h.debugInfo.length_le,
    h.optLevel.length_le, h.maxWasmStack.length_le, h.features.length_le, List.forall_mem_nil _⟩

/-- The features are a level of their own, and for them the lemma about that level is the meaning of
the value. -/
theorem EngineConfig.ofDocument?_eq_some (d : Document) (c : EngineConfig) :
    ofDocument? Json.dialect d = some c ↔ Stated d c := by
  simp only [ofDocument?, Option.bind_eq_bind, Option.bind_eq_some_iff, Option.pure_def,
    Option.some.injEq]
  constructor
  · rintro ⟨ms', hms', _, h₁, _, h₂, _, h₃, _, h₄, _, h₅, _, h₆, rfl⟩
    obtain ⟨ms, hms, honce, rfl⟩ := (named?_eq_some (by decide)).mp hms'
    exact ⟨ms, hms,
      (member_eq_some (by decide) (honce _ (by decide)) bool?_eq_some).mp h₁,
      (member_eq_some (by decide) (honce _ (by decide)) bool?_eq_some).mp h₂,
      (member_eq_some (by decide) (honce _ (by decide)) bool?_eq_some).mp h₃,
      (member_eq_some (by decide) (honce _ (by decide)) OptLevel.ofDocument?_eq_some).mp h₄,
      (member_eq_some (by decide) (honce _ (by decide)) limit_eq_some).mp h₅,
      (member_eq_some (by decide) (honce _ (by decide)) FeatureSwitches.ofDocument?_eq_some).mp h₆⟩
  · rintro ⟨ms, hms, h⟩
    exact ⟨_, (named?_eq_some (by decide)).mpr ⟨ms, hms, h.once, rfl⟩,
      _, h.consumeFuel.member_eq (by decide) bool?_eq_some,
      _, h.epochInterruption.member_eq (by decide) bool?_eq_some,
      _, h.debugInfo.member_eq (by decide) bool?_eq_some,
      _, h.optLevel.member_eq (by decide) OptLevel.ofDocument?_eq_some,
      _, h.maxWasmStack.member_eq (by decide) limit_eq_some,
      _, h.features.member_eq (by decide) FeatureSwitches.ofDocument?_eq_some, rfl⟩

/-- The settings of an execution that members state. -/
structure ExecutionConfig.StatedBy (ms : List (String × Document)) (c : ExecutionConfig) : Prop where
  fuel : Sets ms "fuel" (IsOptional IsWord) none c.fuel
  epochDeadline : Sets ms "epoch_deadline" (IsOptional IsWord) none c.epochDeadline

/-- A document states the settings of an execution if its members do. -/
def ExecutionConfig.Stated (d : Document) (c : ExecutionConfig) : Prop :=
  ∃ ms, HasMembers names d ms ∧ StatedBy ms c

theorem ExecutionConfig.ofDocument?_eq_some (d : Document) (c : ExecutionConfig) :
    ofDocument? Json.dialect d = some c ↔ Stated d c := by
  simp only [ofDocument?, Option.bind_eq_bind, Option.bind_eq_some_iff, Option.pure_def,
    Option.some.injEq]
  constructor
  · rintro ⟨ms', hms', _, h₁, _, h₂, rfl⟩
    obtain ⟨ms, hms, honce, rfl⟩ := (named?_eq_some (by decide)).mp hms'
    exact ⟨ms, hms,
      (member_eq_some (by decide) (honce _ (by decide)) limit_eq_some).mp h₁,
      (member_eq_some (by decide) (honce _ (by decide)) limit_eq_some).mp h₂⟩
  · rintro ⟨ms, hms, h⟩
    have honce : ∀ name ∈ names, (values ms name).length ≤ 1 := by
      simp only [names, List.forall_mem_cons]
      exact ⟨h.fuel.length_le, h.epochDeadline.length_le, List.forall_mem_nil _⟩
    exact ⟨_, (named?_eq_some (by decide)).mpr ⟨ms, hms, honce, rfl⟩,
      _, h.fuel.member_eq (by decide) limit_eq_some,
      _, h.epochDeadline.member_eq (by decide) limit_eq_some,
      rfl⟩

/-- The configuration that members state. -/
structure RuntimeConfig.StatedBy (ms : List (String × Document)) (c : RuntimeConfig) : Prop where
  engine : Sets ms "engine" EngineConfig.Stated .default c.engine
  execution : Sets ms "execution" ExecutionConfig.Stated .default c.execution

theorem RuntimeConfig.ofDocument?_eq_some (d : Document) (c : RuntimeConfig) :
    ofDocument? Json.dialect d = some c ↔ ∃ ms, HasMembers names d ms ∧ StatedBy ms c := by
  simp only [ofDocument?, Option.bind_eq_bind, Option.bind_eq_some_iff, Option.pure_def,
    Option.some.injEq]
  constructor
  · rintro ⟨ms', hms', _, h₁, _, h₂, rfl⟩
    obtain ⟨ms, hms, honce, rfl⟩ := (named?_eq_some (by decide)).mp hms'
    exact ⟨ms, hms,
      (member_eq_some (by decide) (honce _ (by decide)) EngineConfig.ofDocument?_eq_some).mp h₁,
      (member_eq_some (by decide) (honce _ (by decide)) ExecutionConfig.ofDocument?_eq_some).mp h₂⟩
  · rintro ⟨ms, hms, h⟩
    have honce : ∀ name ∈ names, (values ms name).length ≤ 1 := by
      simp only [names, List.forall_mem_cons]
      exact ⟨h.engine.length_le, h.execution.length_le, List.forall_mem_nil _⟩
    exact ⟨_, (named?_eq_some (by decide)).mpr ⟨ms, hms, honce, rfl⟩,
      _, h.engine.member_eq (by decide) EngineConfig.ofDocument?_eq_some,
      _, h.execution.member_eq (by decide) ExecutionConfig.ofDocument?_eq_some, rfl⟩

/-! ## What cannot be read

Faults are listed with the names that have the same meaning taken together. That nothing is stated
just if there is a fault is again the statement for a single name, once for each. -/

/-- A record of switches in which nothing can be set under one of the names. -/
def FeatureSwitches.Faulty (ms : List (String × Document)) : Prop :=
  ∃ name ∈ names, Fault ms name (IsOptional IsFlag)

/-- Likewise for the settings of an engine, -/
def EngineConfig.Faulty (ms : List (String × Document)) : Prop :=
  (∃ name ∈ ["consume_fuel", "epoch_interruption", "debug_info"], Fault ms name IsFlag) ∨
    Fault ms "opt_level" OptLevel.IsLevel ∨ Fault ms "max_wasm_stack" (IsOptional IsWord) ∨
    Fault ms "features" FeatureSwitches.Stated

/-- for those of an execution, -/
def ExecutionConfig.Faulty (ms : List (String × Document)) : Prop :=
  ∃ name ∈ names, Fault ms name (IsOptional IsWord)

/-- and for both. -/
def RuntimeConfig.Faulty (ms : List (String × Document)) : Prop :=
  Fault ms "engine" EngineConfig.Stated ∨ Fault ms "execution" ExecutionConfig.Stated

variable {ms : List (String × Document)}

/-- Members state some switches unless one of the names has a fault. From right to left, each switch
is found by itself, and together they are what is stated: no switch depends on another. -/
theorem FeatureSwitches.exists_statedBy : (∃ s, StatedBy ms s) ↔ ¬Faulty ms := by
  constructor
  · rintro ⟨s, h⟩ ⟨name, hname, hfault⟩
    have hsets : ∀ name ∈ names, ∃ o, Sets ms name (IsOptional IsFlag) none o := by
      simp only [names, List.forall_mem_cons]
      exact ⟨⟨_, h.referenceTypes⟩, ⟨_, h.simd⟩, ⟨_, h.bulkMemory⟩, ⟨_, h.multiValue⟩,
        ⟨_, h.multiMemory⟩, ⟨_, h.memory64⟩, ⟨_, h.threads⟩, List.forall_mem_nil _⟩
    exact exists_sets_iff.mp (hsets name hname) hfault
  · intro h
    have hsets : ∀ name ∈ names, ∃ o, Sets ms name (IsOptional IsFlag) none o :=
      fun name hname => exists_sets_iff.mpr fun hfault => h ⟨name, hname, hfault⟩
    obtain ⟨_, h₁⟩ := hsets "reference_types" (by decide)
    obtain ⟨_, h₂⟩ := hsets "simd" (by decide)
    obtain ⟨_, h₃⟩ := hsets "bulk_memory" (by decide)
    obtain ⟨_, h₄⟩ := hsets "multi_value" (by decide)
    obtain ⟨_, h₅⟩ := hsets "multi_memory" (by decide)
    obtain ⟨_, h₆⟩ := hsets "memory64" (by decide)
    obtain ⟨_, h₇⟩ := hsets "threads" (by decide)
    exact ⟨⟨_, _, _, _, _, _, _⟩, h₁, h₂, h₃, h₄, h₅, h₆, h₇⟩

/-- The same for the settings of an engine. A fault among the features is a fault here, because then
the record under their name means nothing. -/
theorem EngineConfig.exists_statedBy : (∃ c, StatedBy ms c) ↔ ¬Faulty ms := by
  constructor
  · rintro ⟨c, h⟩ (⟨name, hname, hfault⟩ | hfault | hfault | hfault)
    · have hsets : ∀ name ∈ ["consume_fuel", "epoch_interruption", "debug_info"],
          ∃ b, Sets ms name IsFlag false b := by
        simp only [List.forall_mem_cons]
        exact ⟨⟨_, h.consumeFuel⟩, ⟨_, h.epochInterruption⟩, ⟨_, h.debugInfo⟩, List.forall_mem_nil _⟩
      exact exists_sets_iff.mp (hsets name hname) hfault
    · exact exists_sets_iff.mp ⟨_, h.optLevel⟩ hfault
    · exact exists_sets_iff.mp ⟨_, h.maxWasmStack⟩ hfault
    · exact exists_sets_iff.mp ⟨_, h.features⟩ hfault
  · intro h
    obtain ⟨hflags, hlevel, hstack, hfeatures⟩ : _ ∧ _ ∧ _ ∧ _ := by
      simpa only [Faulty, not_or] using h
    have hsets : ∀ name ∈ ["consume_fuel", "epoch_interruption", "debug_info"],
        ∃ b, Sets ms name IsFlag false b :=
      fun name hname => exists_sets_iff.mpr fun hfault => hflags ⟨name, hname, hfault⟩
    obtain ⟨_, h₁⟩ := hsets "consume_fuel" (by decide)
    obtain ⟨_, h₂⟩ := hsets "epoch_interruption" (by decide)
    obtain ⟨_, h₃⟩ := hsets "debug_info" (by decide)
    obtain ⟨_, h₄⟩ := exists_sets_iff.mpr hlevel
    obtain ⟨_, h₅⟩ := exists_sets_iff.mpr hstack
    obtain ⟨_, h₆⟩ := exists_sets_iff.mpr hfeatures
    exact ⟨⟨_, _, _, _, _, _⟩, h₁, h₂, h₃, h₄, h₅, h₆⟩

theorem ExecutionConfig.exists_statedBy : (∃ c, StatedBy ms c) ↔ ¬Faulty ms := by
  constructor
  · rintro ⟨c, h⟩ ⟨name, hname, hfault⟩
    have hsets : ∀ name ∈ names, ∃ o, Sets ms name (IsOptional IsWord) none o := by
      simp only [names, List.forall_mem_cons]
      exact ⟨⟨_, h.fuel⟩, ⟨_, h.epochDeadline⟩, List.forall_mem_nil _⟩
    exact exists_sets_iff.mp (hsets name hname) hfault
  · intro h
    have hsets : ∀ name ∈ names, ∃ o, Sets ms name (IsOptional IsWord) none o :=
      fun name hname => exists_sets_iff.mpr fun hfault => h ⟨name, hname, hfault⟩
    obtain ⟨_, h₁⟩ := hsets "fuel" (by decide)
    obtain ⟨_, h₂⟩ := hsets "epoch_deadline" (by decide)
    exact ⟨⟨_, _⟩, h₁, h₂⟩

/-- Together with the others, this says that a text is refused just for a fault at some level. -/
theorem RuntimeConfig.exists_statedBy : (∃ c, StatedBy ms c) ↔ ¬Faulty ms := by
  constructor
  · rintro ⟨c, h⟩ (hfault | hfault)
    · exact exists_sets_iff.mp ⟨_, h.engine⟩ hfault
    · exact exists_sets_iff.mp ⟨_, h.execution⟩ hfault
  · intro h
    obtain ⟨hengine, hexecution⟩ := not_or.mp h
    obtain ⟨_, h₁⟩ := exists_sets_iff.mpr hengine
    obtain ⟨_, h₂⟩ := exists_sets_iff.mpr hexecution
    exact ⟨⟨_, _⟩, h₁, h₂⟩

/-! ## The order of members

That the order does not matter could be stated of two texts whose members are permutations of each
other. But members of inner records may be moved as well, and other members may be added anywhere,
in one record and not in the other. So `Rearranged` is generated by all of these changes, and closed
under doing them one after the other and backwards. What is set under a name is not changed by any
one of them; that it is not changed by many is an induction. -/

namespace Document

/-- Members with given names are only moved, and others come and go; records under some of the names may
change likewise. -/
inductive Rearranged (names : List String)
    (Inner : String → List (String × Document) → List (String × Document) → Prop) :
    List (String × Document) → List (String × Document) → Prop
  | move {ms ms' : List (String × Document)} (h : ms.Perm ms') : Rearranged names Inner ms ms'
  | add {ms : List (String × Document)} {name : String} (d : Document) (h : name ∉ names) :
      Rearranged names Inner ms ((name, d) :: ms)
  | inner {ms inner inner' : List (String × Document)} {name : String} (h : Inner name inner inner') :
      Rearranged names Inner ((name, .record inner) :: ms) ((name, .record inner') :: ms)
  | symm {ms ms' : List (String × Document)} (h : Rearranged names Inner ms ms') :
      Rearranged names Inner ms' ms
  | trans {ms ms' ms'' : List (String × Document)} (h : Rearranged names Inner ms ms')
      (h' : Rearranged names Inner ms' ms'') : Rearranged names Inner ms ms''

variable {α : Type} {names : List String} {name : String} {ms ms' : List (String × Document)}
  {Inner : String → List (String × Document) → List (String × Document) → Prop}
  {Means : Document → α → Prop} {default a : α}

/-- A permutation of the members permutes the values under a name. Where these are none or one there
is nothing to permute. -/
theorem Sets.perm (h : Sets ms name Means default a) (hperm : ms.Perm ms') :
    Sets ms' name Means default a := by
  have hvalues : (values ms name).Perm (values ms' name) := (hperm.filter _).map _
  cases h with
  | unset h =>
    rw [h] at hvalues
    exact .unset hvalues.nil_eq.symm
  | set h hd =>
    rw [h] at hvalues
    exact .set (List.perm_singleton.mp hvalues.symm) hd

/-- What is set stays set if each value under the name is replaced by one that means as much. -/
theorem Sets.forall₂ (h : Sets ms name Means default a)
    (hvalues : List.Forall₂ (fun d d' => ∀ a, Means d a → Means d' a) (values ms name)
      (values ms' name)) : Sets ms' name Means default a := by
  cases h with
  | unset h =>
    rw [h] at hvalues
    exact .unset (List.forall₂_nil_left_iff.mp hvalues)
  | set h hd =>
    rw [h] at hvalues
    obtain ⟨d', rest, hd', hrest, heq⟩ := List.forall₂_cons_left_iff.mp hvalues
    rw [List.forall₂_nil_left_iff.mp hrest] at heq
    exact .set heq (hd' _ hd)

/-- Nothing of this changes what is set. By induction on the rearrangement: members that are moved
are a permutation, a member that is added is not one of the values, and a record that is changed
inside means the same as before by assumption. -/
theorem Rearranged.sets_iff (h : Rearranged names Inner ms ms') (hname : name ∈ names)
    (hinner : ∀ inner inner', Inner name inner inner' →
      ∀ a, Means (.record inner) a ↔ Means (.record inner') a) :
    Sets ms name Means default a ↔ Sets ms' name Means default a := by
  have hsame : ∀ ds : List Document, List.Forall₂ (fun d d' => ∀ a, Means d a → Means d' a) ds ds :=
    fun ds => List.forall₂_same.mpr fun _ _ _ h => h
  induction h with
  | move h => exact ⟨fun hs => hs.perm h, fun hs => hs.perm h.symm⟩
  | @add ms other d h =>
    have hvalues : values ((other, d) :: ms) name = values ms name := by
      rw [values_cons, if_neg]
      rintro rfl
      exact h hname
    constructor
    · exact fun hs => hs.forall₂ (by rw [hvalues]; exact hsame _)
    · exact fun hs => hs.forall₂ (by rw [hvalues]; exact hsame _)
  | @inner ms inner inner' other h =>
    -- The changed record is the value in question, or it stands under another name.
    by_cases hother : other = name
    · subst hother
      constructor
      · refine fun hs => hs.forall₂ ?_
        rw [values_cons, values_cons, if_pos rfl, if_pos rfl]
        exact .cons (fun a => (hinner _ _ h a).mp) (hsame _)
      · refine fun hs => hs.forall₂ ?_
        rw [values_cons, values_cons, if_pos rfl, if_pos rfl]
        exact .cons (fun a => (hinner _ _ h a).mpr) (hsame _)
    · have hvalues : ∀ inner, values ((other, .record inner) :: ms) name = values ms name :=
        fun inner => by rw [values_cons, if_neg hother]
      constructor
      · exact fun hs => hs.forall₂ (by rw [hvalues, hvalues]; exact hsame _)
      · exact fun hs => hs.forall₂ (by rw [hvalues, hvalues]; exact hsame _)
  | symm _ ih => exact ih.symm
  | trans _ _ ih ih' => exact ih.trans ih'

end Document

/-- Switches are moved, and other members come and go. -/
def FeatureSwitches.Rearranged : List (String × Document) → List (String × Document) → Prop :=
  Document.Rearranged names fun _ _ _ => False

/-- At this level the record of the features may be rearranged, too, and no other record may
change. -/
def EngineConfig.Rearranged : List (String × Document) → List (String × Document) → Prop :=
  Document.Rearranged names fun name ms ms' => name = "features" ∧ FeatureSwitches.Rearranged ms ms'

/-- There are no records inside. -/
def ExecutionConfig.Rearranged : List (String × Document) → List (String × Document) → Prop :=
  Document.Rearranged names fun _ _ _ => False

/-- Both records inside may be rearranged, each in its own way. -/
def RuntimeConfig.Rearranged : List (String × Document) → List (String × Document) → Prop :=
  Document.Rearranged names fun name ms ms' => name = "engine" ∧ EngineConfig.Rearranged ms ms' ∨
    name = "execution" ∧ ExecutionConfig.Rearranged ms ms'

variable {ms' : List (String × Document)}

theorem Document.hasMembers_record {names : List String} :
    HasMembers names (.record ms) ms' ↔ ms' = ms :=
  ⟨fun h => by cases h; rfl, fun h => h ▸ .record⟩

theorem FeatureSwitches.stated_record {s : FeatureSwitches} : Stated (.record ms) s ↔ StatedBy ms s := by
  simp [Stated, hasMembers_record, isComplete]

theorem EngineConfig.stated_record {c : EngineConfig} : Stated (.record ms) c ↔ StatedBy ms c := by
  simp [Stated, hasMembers_record]

theorem ExecutionConfig.stated_record {c : ExecutionConfig} : Stated (.record ms) c ↔ StatedBy ms c := by
  simp [Stated, hasMembers_record]

theorem FeatureSwitches.Rearranged.statedBy (h : Rearranged ms ms') {s : FeatureSwitches}
    (hs : StatedBy ms s) : StatedBy ms' s := by
  have hsets : ∀ name ∈ names, ∀ {o}, Sets ms name (IsOptional IsFlag) none o →
      Sets ms' name (IsOptional IsFlag) none o :=
    fun name hname o => (h.sets_iff hname fun _ _ => False.elim).mp
  exact ⟨hsets _ (by decide) hs.1, hsets _ (by decide) hs.2, hsets _ (by decide) hs.3,
    hsets _ (by decide) hs.4, hsets _ (by decide) hs.5, hsets _ (by decide) hs.6,
    hsets _ (by decide) hs.7⟩

theorem ExecutionConfig.Rearranged.statedBy (h : Rearranged ms ms') {c : ExecutionConfig}
    (hc : StatedBy ms c) : StatedBy ms' c :=
  ⟨(h.sets_iff (by decide) fun _ _ => False.elim).mp hc.1,
    (h.sets_iff (by decide) fun _ _ => False.elim).mp hc.2⟩

theorem EngineConfig.Rearranged.statedBy (h : Rearranged ms ms') {c : EngineConfig}
    (hc : StatedBy ms c) : StatedBy ms' c := by
  -- Only features are a record of their own.
  have hsets : ∀ {α name} {Means : Document → α → Prop} {default a}, name ∈ names →
      name ≠ "features" → Sets ms name Means default a → Sets ms' name Means default a :=
    fun hname hne => (h.sets_iff hname fun _ _ h => absurd h.1 hne).mp
  refine ⟨hsets (by decide) (by decide) hc.1, hsets (by decide) (by decide) hc.2,
    hsets (by decide) (by decide) hc.3, hsets (by decide) (by decide) hc.4,
    hsets (by decide) (by decide) hc.5, ?_⟩
  refine (h.sets_iff (by decide) fun inner inner' hinner s => ?_).mp hc.6
  rw [FeatureSwitches.stated_record, FeatureSwitches.stated_record]
  exact ⟨hinner.2.statedBy, FeatureSwitches.Rearranged.statedBy hinner.2.symm⟩

theorem RuntimeConfig.Rearranged.statedBy (h : Rearranged ms ms') {c : RuntimeConfig}
    (hc : StatedBy ms c) : StatedBy ms' c := by
  constructor
  · refine (h.sets_iff (by decide) fun inner inner' hinner e => ?_).mp hc.engine
    obtain ⟨-, hengine⟩ | ⟨hname, -⟩ := hinner
    · rw [EngineConfig.stated_record, EngineConfig.stated_record]
      exact ⟨hengine.statedBy, EngineConfig.Rearranged.statedBy hengine.symm⟩
    · exact absurd hname (by decide)
  · refine (h.sets_iff (by decide) fun inner inner' hinner e => ?_).mp hc.execution
    obtain ⟨hname, -⟩ | ⟨-, hexecution⟩ := hinner
    · exact absurd hname (by decide)
    · rw [ExecutionConfig.stated_record, ExecutionConfig.stated_record]
      exact ⟨hexecution.statedBy, ExecutionConfig.Rearranged.statedBy hexecution.symm⟩

/-! ## Configuration as text

All that is left is to put this behind the reader for JSON, which gives back the document that a
text spells. What is written is a record at each level, with every name once, so every setting in it
is stated. -/

theorem FeatureSwitches.stated_toDocument (s : FeatureSwitches) : Stated s.toDocument s := by
  unfold toDocument
  lift_lets
  intro switch
  have hswitch : ∀ o, IsOptional IsFlag (switch o) o := by
    rintro (_ | b)
    · exact .null
    · exact .some rfl
  exact stated_record.mpr ⟨.set rfl (hswitch _), .set rfl (hswitch _), .set rfl (hswitch _),
    .set rfl (hswitch _), .set rfl (hswitch _), .set rfl (hswitch _), .set rfl (hswitch _)⟩

theorem Document.isOptional_ofWord (o : Option UInt64) : IsOptional IsWord (.ofWord o) o := by
  cases o with
  | none => exact .null
  | some n => exact .some rfl

theorem EngineConfig.stated_toDocument (c : EngineConfig) : Stated c.toDocument c :=
  stated_record.mpr ⟨.set rfl rfl, .set rfl rfl, .set rfl rfl, .set rfl (.inl rfl),
    .set rfl (isOptional_ofWord _), .set rfl c.features.stated_toDocument⟩

theorem ExecutionConfig.stated_toDocument (c : ExecutionConfig) : Stated c.toDocument c :=
  stated_record.mpr ⟨.set rfl (isOptional_ofWord _), .set rfl (isOptional_ofWord _)⟩

theorem RuntimeConfig.ofDocument?_record {c : RuntimeConfig} :
    ofDocument? Json.dialect (.record ms) = some c ↔ StatedBy ms c := by
  simp [ofDocument?_eq_some, hasMembers_record]

theorem RuntimeConfig.ofDocument?_toDocument (c : RuntimeConfig) :
    ofDocument? Json.dialect c.toDocument = some c :=
  ofDocument?_record.mpr ⟨.set rfl c.engine.stated_toDocument, .set rfl c.execution.stated_toDocument⟩

/-- How configuration is read from JSON, and written to it. -/
structure RuntimeConfig.ReadsJson : Prop where
  /-- What is written is read again. -/
  lossless : ∀ c : RuntimeConfig, ofJson? c.toJson = some c
  /-- From the text of a record, with any blanks, escapes and other members, just what its members state
  is read; each name that is missing stands for its default. -/
  stated : ∀ text ms, Json.Spelled text (.record ms) →
    ∀ c, ofJson? text = some c ↔ StatedBy ms c
  /-- Nothing is read if a name is repeated, or a value means nothing under its name. -/
  refused : ∀ text ms, Json.Spelled text (.record ms) → (ofJson? text = none ↔ Faulty ms)
  /-- This goes for the inner records, too. -/
  engine : ∀ ms, (∃ c, EngineConfig.Stated (.record ms) c) ↔ ¬EngineConfig.Faulty ms
  execution : ∀ ms, (∃ c, ExecutionConfig.Stated (.record ms) c) ↔ ¬ExecutionConfig.Faulty ms
  features : ∀ ms, (∃ s, FeatureSwitches.Stated (.record ms) s) ↔ ¬FeatureSwitches.Faulty ms
  /-- The order of members does not matter at any level, and neither do members with other names. -/
  rearranged : ∀ text text' ms ms', Json.Spelled text (.record ms) → Json.Spelled text' (.record ms') →
    Rearranged ms ms' → ofJson? text = ofJson? text'
  /-- Nothing may follow. -/
  trailing : ∀ (text : String) before cs rest ms, text.toList = before ++ cs ++ rest →
    Json.IsBlanks before → Json.Spells cs (.document (.record ms)) → ¬Json.IsBlanks rest →
    ofJson? text = none

theorem RuntimeConfig.ofJson?_of_spelled {text : String} (h : Json.Spelled text (.record ms))
    (c : RuntimeConfig) : ofJson? text = some c ↔ StatedBy ms c := by
  rw [ofJson?, Json.read?_of_spelled h]
  exact ofDocument?_record

theorem RuntimeConfig.readsJson : ReadsJson where
  lossless c := by
    rw [ofJson?, toJson, Json.read?_write]
    exact ofDocument?_toDocument c
  stated _ _ h c := ofJson?_of_spelled h c
  refused text ms h := by
    rw [← not_iff_not, ← exists_statedBy, ← ne_eq, Option.ne_none_iff_exists']
    exact exists_congr (ofJson?_of_spelled h)
  engine _ := by
    simp only [EngineConfig.stated_record]
    exact EngineConfig.exists_statedBy
  execution _ := by
    simp only [ExecutionConfig.stated_record]
    exact ExecutionConfig.exists_statedBy
  features _ := by
    simp only [FeatureSwitches.stated_record]
    exact FeatureSwitches.exists_statedBy
  rearranged text text' ms ms' h h' hms := by
    refine Option.ext fun c => ?_
    rw [ofJson?_of_spelled h, ofJson?_of_spelled h']
    exact ⟨hms.statedBy, RuntimeConfig.Rearranged.statedBy hms.symm⟩
  trailing text before cs rest ms htext hbefore h hrest := by
    rw [ofJson?, Json.read?_trailing htext hbefore h hrest]
    rfl

end WasmHost
