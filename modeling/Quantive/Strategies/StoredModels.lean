import Quantive.Json.Stored
import Quantive.Strategies.Identity

/-!
# Stored definitions

`CanonicalStrategyDefinition.model_validate` on a payload that a `jsonb` column returns. Each
validator runs again; the values that a stored payload cannot hold are rejected here, also where
pydantic would coerce them.
-/

namespace Quantive.Strategies
open LiveStrategy (StrategyTimeframe SignalRole SignalDirection PositionMode ExecutionTiming
  ImplementationKind)

/-! ### Fields -/

/-- An object with no extra field. -/
def readFields (keys : List String) : Json → Option Json.Fields
  | .obj fields => if fields.all fun p => p.1 ∈ keys then some fields else none
  | _ => none

/-- The value of a field, or its default. -/
def readField {α : Type} (fields : Json.Fields) (key : String) (read : Json → Option α)
    (default : Option α) : Option α :=
  match fields.lookup key with
  | none => default
  | some j => read j

def readText : Json → Option String
  | .str s => some s
  | _ => none

def readInt : Json → Option ℤ
  | .number (.int z) => some z
  | _ => none

def readNat (j : Json) : Option ℕ := (readInt j).bind fun z => if 0 ≤ z then some z.toNat else none

def readBool : Json → Option Bool
  | .bool b => some b
  | _ => none

/-- An int is accepted for a float. -/
def readFloat : Json → Option PyFloat
  | .number (.float f) => some f
  | .number (.int z) => some (PyFloat.ofDecimal (z < 0) z.natAbs 0)
  | _ => none

def readEnum {α : Type} (members : List α) (value : α → String) (j : Json) : Option α :=
  (readText j).bind fun s => members.find? fun a => value a = s

def readList {α : Type} (read : Json → Option α) : Json → Option (List α)
  | .arr items => items.mapM read
  | _ => none

def readOptional {α : Type} (read : Json → Option α) : Json → Option (Option α)
  | .null => some none
  | j => (read j).map some

/-- A field of type `dict[str, Any]`. -/
def JsonObject.read : Json → Option JsonObject
  | .obj fields => if h : (Json.obj fields).WellFormed then some ⟨fields, h⟩ else none
  | _ => none

/-- A field of type `dict[str, Any]` whose validator canonicalizes. -/
def JsonObject.readCanonical (path : String) (j : Json) : Option JsonObject :=
  (JsonObject.read j).bind fun _ => (canonicalizeJson path (ofJson j)).toOption.bind JsonObject.read

/-! ### Models -/

def InstrumentSnapshot.modelValidate (U : CaseMapping) (j : Json) : Option InstrumentSnapshot := do
  let fields ← readFields InstrumentSnapshot.keys j
  let assetId ← readField fields "asset_id" readInt none
  let symbol ← readField fields "symbol" readText none
  let exchange ← readField fields "exchange" readText none
  let assetType ← readField fields "asset_type" readText none
  InstrumentSnapshot.validate U assetId symbol exchange assetType

/-- `validate_identifier`, after the length check. -/
def validateIdentifier (s : String) : Option String :=
  if s = "" ∨ 64 < s.length then none
  else if isIdentifier (strip s) then some (strip s)
  else none

def StrategyImplementation.modelValidate (j : Json) : Option StrategyImplementation := do
  let fields ← readFields StrategyImplementation.keys j
  let kind ← readField fields "kind"
    (readEnum [.declarative, .external] ImplementationKind.value) none
  let identifier ← readField fields "identifier" readText none
  let identifier ← validateIdentifier identifier
  let revision ← readField fields "revision" readText none
  let revision ← validateText 128 strip revision
  if h : isIdentifier identifier = true ∧
      strip revision = revision ∧ revision ≠ "" ∧ revision.length ≤ 128 then
    some { kind, identifier, revision, identified := h.1, revised := h.2 }
  else none

def SignalDefinition.modelValidate (j : Json) : Option SignalDefinition := do
  let fields ← readFields SignalDefinition.keys j
  let signalId ← readField fields "signal_id" readText none
  let signalId ← validateIdentifier signalId
  let role ← readField fields "role" (readEnum [.entry, .exit] SignalRole.value) none
  let direction ← readField fields "direction"
    (readEnum [.long, .short, .flat] SignalDirection.value) none
  let priority ← readField fields "priority" readNat (some 100)
  let definition ← readField fields "definition" (JsonObject.readCanonical "signal.definition") none
  if h : isIdentifier signalId = true ∧ priority ≤ 1000000 ∧ definition.fields ≠ [] ∧
      (role = .exit ↔ direction = .flat) then
    some { signalId, role, direction, priority, definition, identified := h.1, bounded := h.2.1,
           nonempty := h.2.2.1, coherent := h.2.2.2 }
  else none

def PositionRules.modelValidate (j : Json) : Option PositionRules := do
  let fields ← readFields PositionRules.keys j
  let mode ← readField fields "mode"
    (readEnum [.longOnly, .shortOnly, .longShort] PositionMode.value) none
  let maxOpenPositions ← readField fields "max_open_positions" readNat (some 1)
  let allowReversal ← readField fields "allow_reversal" readBool (some false)
  let sizing ← readField fields "sizing" (JsonObject.readCanonical "position.sizing") none
  if h : (1 ≤ maxOpenPositions ∧ maxOpenPositions ≤ 10000) ∧ sizing.fields ≠ [] then
    some { mode, maxOpenPositions, allowReversal, sizing, bounded := h.1, nonempty := h.2 }
  else none

def ExecutionAssumptions.modelValidate (j : Json) : Option ExecutionAssumptions := do
  let fields ← readFields ExecutionAssumptions.keys j
  let timing ← readField fields "timing"
    (readEnum [.barClose, .nextBarOpen] ExecutionTiming.value) none
  let orderType ← readField fields "order_type" (readEnum [.market, .limit] OrderType.value) none
  let feeBps ← readField fields "fee_bps" readFloat (some positiveZero)
  let slippageBps ← readField fields "slippage_bps" readFloat (some positiveZero)
  let latencyMs ← readField fields "latency_ms" readNat (some 0)
  if charged : PyFloat.nonnegative feeBps = true ∧ PyFloat.nonnegative slippageBps = true then
    some { timing, orderType, feeBps, slippageBps, latencyMs, charged }
  else none

def CanonicalStrategyDefinition.modelValidate (U : CaseMapping) (j : Json) :
    Option CanonicalStrategyDefinition := do
  let fields ← readFields CanonicalStrategyDefinition.keys j
  let _ ← readField fields "schema_version" (readEnum [()] fun _ => schemaVersion) (some ())
  let timeframe ← readField fields "timeframe"
    (readEnum [.oneMinute, .fiveMinutes, .fifteenMinutes, .oneHour, .fourHours, .oneDay]
      StrategyTimeframe.value) none
  let instruments ← readField fields "universe" (readList (InstrumentSnapshot.modelValidate U)) none
  let parameters ← readField fields "parameters" JsonObject.read none
  let signals ← readField fields "signals" (readList SignalDefinition.modelValidate) none
  let position ← readField fields "position" PositionRules.modelValidate none
  let execution ← readField fields "execution" ExecutionAssumptions.modelValidate none
  let implementation ← readField fields "implementation" StrategyImplementation.modelValidate none
  let benchmark ← readField fields "benchmark"
    (readOptional (InstrumentSnapshot.modelValidate U)) (some none)
  (CanonicalStrategyDefinition.validate timeframe instruments parameters signals position execution
    implementation benchmark).toOption

/-! ### Stored values -/

/-- A dumped value, as the column returns its canonical form. -/
def stored (j : Json) : Json := j.canonicalize.reread

theorem stored_wellFormed {j : Json} (h : j.WellFormed) : (stored j).WellFormed :=
  Json.wellFormed_reread _ (Json.wellFormed_canonicalize j h)

theorem stored_fields (fields : Json.Fields) : ∃ fields' : Json.Fields,
    stored (.obj fields) = .obj fields' ∧ fields'.Perm (fields.map fun p => (p.1, stored p.2)) := by
  refine ⟨_, by rw [stored, Json.canonicalize, Json.reread], ?_⟩
  have hmap : (Json.rereadFields (Json.canonicalizeFields fields)) =
      fields.map fun p => (p.1, stored p.2) := by
    rw [Json.rereadFields_eq, Json.canonicalizeFields_eq, List.map_map]
    rfl
  rw [← hmap]
  refine (Json.jsonbKeys_perm _).trans ?_
  rw [Json.rereadFields_eq, Json.rereadFields_eq]
  exact (Json.sortKeys_perm _).map _

/-- A stored record has its keys, each with its stored value. -/
theorem stored_record {keys : List String} (hkeys : keys.Nodup) (vs : List Json)
    (hv : vs.length = keys.length) : ∃ fields : Json.Fields,
      stored (.obj (keys.zip vs)) = .obj fields ∧ readFields keys (.obj fields) = some fields ∧
      ∀ p ∈ keys.zip vs, fields.lookup p.1 = some (stored p.2) := by
  obtain ⟨fields, hobj, hperm⟩ := stored_fields (keys.zip vs)
  have hfst : (keys.zip vs).map (·.1) = keys := List.map_fst_zip (by omega)
  have hmapped : ((keys.zip vs).map fun p => (p.1, stored p.2)).map (·.1) = keys := by
    rw [List.map_map]
    exact hfst
  have hkeys' : (fields.map (·.1)).Perm keys := hmapped ▸ hperm.map (·.1)
  refine ⟨fields, hobj, ?_, fun p hp => ?_⟩
  · have hall : (fields.all fun p => p.1 ∈ keys) = true := by
      rw [List.all_eq_true]
      intro p hp
      have hmem := hkeys'.subset (List.mem_map_of_mem (f := fun p => p.1) hp)
      exact decide_eq_true hmem
    rw [readFields, if_pos hall]
  · have hmem : (p.1, stored p.2) ∈ fields :=
      hperm.symm.subset (List.mem_map_of_mem (f := fun p => (p.1, stored p.2)) hp)
    exact Json.lookup_of_mem (hkeys'.nodup_iff.mpr hkeys) hmem

@[simp] theorem stored_str (s : String) : stored (.str s) = .str s := rfl
@[simp] theorem stored_bool (b : Bool) : stored (.bool b) = .bool b := rfl
@[simp] theorem stored_null : stored .null = .null := rfl

@[simp] theorem stored_natJson (n : ℕ) : stored (natJson n) = natJson n := by
  show Json.number (Number.int n).reread = _
  rw [reread_int]
  rfl

theorem stored_arr (items : List Json) : stored (.arr items) = .arr (items.map stored) := by
  rw [stored, Json.canonicalize, Json.reread, Json.canonicalizeItems_eq, Json.rereadItems_eq,
    List.map_map]
  rfl

@[simp] theorem readText_str (s : String) : readText (.str s) = some s := rfl
@[simp] theorem readBool_bool (b : Bool) : readBool (.bool b) = some b := rfl
@[simp] theorem readInt_natJson (n : ℕ) : readInt (natJson n) = some (n : ℤ) := rfl

@[simp] theorem readNat_natJson (n : ℕ) : readNat (natJson n) = some n := by
  rw [readNat, readInt_natJson, Option.bind_some, if_pos (Int.natCast_nonneg n), Int.toNat_natCast]

@[simp] theorem readField_some {α : Type} {fields : Json.Fields} {key : String}
    {read : Json → Option α} {default : Option α} {j : Json} (h : fields.lookup key = some j) :
    readField fields key read default = read j := by
  rw [readField, h]

/-! ### Floats -/

/-- The column forgets the sign of zero. -/
def PyFloat.unsigned (f : PyFloat) : PyFloat := if f.digits = 0 then positiveZero else f

theorem PyFloat.unsigned_eq_iff {f : PyFloat} : PyFloat.unsigned f = f ↔ ¬ f.NegativeZero := by
  unfold PyFloat.unsigned
  split
  · rename_i hzero
    constructor
    · rintro h ⟨hnegative, _⟩
      rw [← h] at hnegative
      cases hnegative
    · intro h
      have hpositive : f.negative = false := by
        by_contra hnegative
        exact h ⟨Bool.eq_true_of_not_eq_false hnegative, hzero⟩
      have hexponent : f.exponent = 0 := by
        rcases f.normal with hdigits | ⟨_, h⟩
        · rw [hzero] at hdigits
          exact (hdigits rfl).elim
        · exact h
      exact PyFloat.ext_of hpositive.symm hzero.symm hexponent.symm
  · rename_i hne
    exact ⟨fun _ h => hne h.2, fun _ => rfl⟩

theorem PyFloat.nonnegative_unsigned {f : PyFloat} (h : PyFloat.nonnegative f = true) :
    PyFloat.nonnegative (PyFloat.unsigned f) = true := by
  unfold PyFloat.unsigned
  split
  · decide
  · exact h

/-- A large fee comes back as an int, which is accepted. -/
theorem readFloat_stored (f : PyFloat) :
    readFloat (stored (.number (.float f))) = some (PyFloat.unsigned f) := by
  show readFloat (.number (Number.float f).reread) = _
  by_cases hzero : f.digits = 0
  · rw [PyFloat.reread_zero hzero, PyFloat.unsigned, if_pos hzero]
    rfl
  · rw [PyFloat.unsigned, if_neg hzero]
    by_cases hlarge : f.Large
    · have he : f.exponent = 0 + (f.exponent.toNat : ℤ) := by
        have hnonneg := hlarge.2.2
        omega
      have hpow : (0 : ℕ) < f.digits * 10 ^ f.exponent.toNat :=
        Nat.mul_pos (Nat.pos_of_ne_zero hzero) (Nat.pow_pos (by decide))
      have hvalue := PyFloat.ofDecimal_mul_pow hzero he
      rw [PyFloat.reread_large hlarge]
      cases hnegative : f.negative
      · rw [hnegative] at hvalue
        simp only [Bool.false_eq_true, if_false, readFloat, Int.natAbs_natCast]
        rw [decide_eq_false (by omega), hvalue]
      · rw [hnegative] at hvalue
        simp only [if_true, readFloat, Int.natAbs_neg, Int.natAbs_natCast]
        rw [decide_eq_true (by omega), hvalue]
    · rw [PyFloat.reread_plain (fun h => hzero h.2) hlarge]
      rfl

/-! ### Objects -/

theorem JsonObject.read_eq {j : Json} {o : JsonObject} (h : j = o.modelDump) :
    JsonObject.read j = some o := by
  rw [h, JsonObject.modelDump, JsonObject.read, dif_pos o.wellFormed]

/-- A nested object that was stored and read without a validator. -/
def JsonObject.stored (o : JsonObject) : JsonObject :=
  ⟨entries (Strategies.stored o.modelDump), entries_wellFormed (stored_wellFormed o.wellFormed)⟩

theorem JsonObject.stored_modelDump (o : JsonObject) :
    o.stored.modelDump = Strategies.stored o.modelDump := by
  obtain ⟨fields, hobj, _⟩ := stored_fields o.fields
  have hstored : Strategies.stored o.modelDump = .obj fields := hobj
  show Json.obj (entries (Strategies.stored o.modelDump)) = _
  rw [hstored]
  rfl

/-- One whose validator canonicalizes. -/
def JsonObject.canonical (o : JsonObject) : JsonObject :=
  ⟨entries o.modelDump.canonicalize,
    entries_wellFormed (Json.wellFormed_canonicalize _ o.wellFormed)⟩

theorem JsonObject.canonical_modelDump (o : JsonObject) :
    o.canonical.modelDump = o.modelDump.canonicalize := by
  show Json.obj (entries (Json.obj o.fields).canonicalize) = (Json.obj o.fields).canonicalize
  rw [Json.canonicalize]
  rfl

theorem JsonObject.read_stored (o : JsonObject) :
    JsonObject.read (Strategies.stored o.modelDump) = some o.stored :=
  JsonObject.read_eq o.stored_modelDump.symm

theorem JsonObject.readCanonical_stored (path : String) (o : JsonObject) :
    JsonObject.readCanonical path (Strategies.stored o.modelDump) = some o.stored.canonical := by
  rw [JsonObject.readCanonical, o.read_stored, Option.bind_some, canonicalizeJson_ofJson,
    ← o.stored_modelDump]
  exact JsonObject.read_eq o.stored.canonical_modelDump.symm

theorem JsonObject.fields_stored (o : JsonObject) : o.stored.fields.length = o.fields.length := by
  obtain ⟨fields, hobj, hperm⟩ := Strategies.stored_fields o.fields
  have hdump : o.stored.modelDump = .obj fields := o.stored_modelDump.trans hobj
  rw [JsonObject.modelDump, Json.obj.injEq] at hdump
  rw [hdump, hperm.length_eq, List.length_map]

theorem JsonObject.fields_canonical (o : JsonObject) :
    o.canonical.fields.length = o.fields.length := by
  have hdump := o.canonical_modelDump
  rw [JsonObject.modelDump, JsonObject.modelDump, Json.canonicalize, Json.obj.injEq] at hdump
  rw [hdump, (Json.sortKeys_perm _).length_eq, Json.canonicalizeFields_eq, List.length_map]

theorem JsonObject.nonempty_stored {o : JsonObject} (h : o.fields ≠ []) :
    o.stored.canonical.fields ≠ [] := by
  rw [← List.length_pos_iff, JsonObject.fields_canonical, JsonObject.fields_stored,
    List.length_pos_iff]
  exact h

/-! ### Models -/

/-- The form that the validators give a snapshot. -/
structure InstrumentSnapshot.Normalized (U : CaseMapping) (i : InstrumentSnapshot) : Prop where
  positive : 0 < i.assetId
  texts : ∀ s ∈ [i.symbol, i.exchange, i.assetType], U.upper (strip s) = s ∧ s ≠ ""

/-- The length check passes also for the normalized texts. -/
def InstrumentSnapshot.Fits (i : InstrumentSnapshot) : Prop :=
  ∀ s ∈ [i.symbol, i.exchange, i.assetType], s.length ≤ 50

instance (i : InstrumentSnapshot) : Decidable i.Fits := inferInstanceAs (Decidable (∀ _ ∈ _, _))

theorem strip_strip (s : String) : strip (strip s) = strip s := by
  rw [strip, strip, String.toList_ofList, Candles.strip_strip]

theorem validateText_normalized {normalize : String → String} {s : String} (h : normalize s = s)
    (hne : s ≠ "") (maxLength : ℕ) :
    validateText maxLength normalize s = if s.length ≤ maxLength then some s else none := by
  rw [validateText]
  by_cases hlength : s.length ≤ maxLength
  · have hbounds : ¬ (s = "" ∨ maxLength < s.length) := by
      rintro (hempty | hlt)
      · exact hne hempty
      · omega
    rw [if_neg hbounds, h, if_neg hne, if_pos hlength]
  · rw [if_pos (Or.inr (by omega)), if_neg hlength]

theorem validateText_some {maxLength : ℕ} {normalize : String → String} {s t : String}
    (h : validateText maxLength normalize s = some t) : t = normalize s ∧ t ≠ "" := by
  rw [validateText] at h
  split_ifs at h with hbounds hempty
  cases h
  exact ⟨rfl, hempty⟩

theorem InstrumentSnapshot.normalized_of_validate {U : CaseMapping} {z : ℤ} {s e t : String}
    {i : InstrumentSnapshot} (h : InstrumentSnapshot.validate U z s e t = some i) :
    i.Normalized U ∧ i.assetId = z.toNat ∧ i.symbol = U.upper (strip s) ∧
      i.exchange = U.upper (strip e) ∧ i.assetType = U.upper (strip t) := by
  have hnormal : ∀ s : String, U.upper (strip (U.upper (strip s))) = U.upper (strip s) := by
    intro s
    rw [U.strip_upper, U.upper_upper]
  rw [InstrumentSnapshot.validate] at h
  split_ifs at h with hpositive
  · cases h
  obtain ⟨symbol, hsymbol, h⟩ := Option.bind_eq_some_iff.mp h
  obtain ⟨exchange, hexchange, h⟩ := Option.bind_eq_some_iff.mp h
  obtain ⟨assetType, htype, h⟩ := Option.bind_eq_some_iff.mp h
  cases h
  obtain ⟨hs, hs'⟩ := validateText_some hsymbol
  obtain ⟨he, he'⟩ := validateText_some hexchange
  obtain ⟨ht, ht'⟩ := validateText_some htype
  refine ⟨⟨by show 0 < z.toNat; omega, ?_⟩, rfl, hs, he, ht⟩
  simp only [List.mem_cons, List.not_mem_nil, or_false, forall_eq_or_imp, forall_eq]
  exact ⟨⟨by rw [hs, hnormal], hs'⟩, ⟨by rw [he, hnormal], he'⟩, by rw [ht, hnormal], ht'⟩

theorem InstrumentSnapshot.validate_normalized {U : CaseMapping} {i : InstrumentSnapshot}
    (h : i.Normalized U) : InstrumentSnapshot.validate U i.assetId i.symbol i.exchange i.assetType =
      if i.Fits then some i else none := by
  have hpositive : ¬ (i.assetId : ℤ) ≤ 0 := by
    have := h.positive
    omega
  have htexts := h.texts
  simp only [List.mem_cons, List.not_mem_nil, or_false, forall_eq_or_imp, forall_eq] at htexts
  obtain ⟨⟨hs, hs'⟩, ⟨he, he'⟩, ht, ht'⟩ := htexts
  rw [InstrumentSnapshot.validate, if_neg hpositive, validateText_normalized hs hs',
    validateText_normalized he he', validateText_normalized ht ht']
  simp only [InstrumentSnapshot.Fits, List.mem_cons, List.not_mem_nil, or_false, forall_eq_or_imp,
    forall_eq]
  by_cases h1 : i.symbol.length ≤ 50
  · by_cases h2 : i.exchange.length ≤ 50
    · by_cases h3 : i.assetType.length ≤ 50
      · simp [h1, h2, h3]
      · simp [h1, h2, h3]
    · simp [h1, h2]
  · simp [h1]

theorem InstrumentSnapshot.modelValidate_stored {U : CaseMapping} {i : InstrumentSnapshot}
    (h : i.Normalized U) : InstrumentSnapshot.modelValidate U (stored i.modelDump) =
      if i.Fits then some i else none := by
  have hkeys : InstrumentSnapshot.keys.Nodup := by decide
  obtain ⟨fields, hobj, hfields, hlookup⟩ := stored_record hkeys
    [natJson i.assetId, .str i.symbol, .str i.exchange, .str i.assetType] rfl
  have hstored : stored i.modelDump = .obj fields := hobj
  have hid := hlookup ("asset_id", natJson i.assetId) (by simp [InstrumentSnapshot.keys])
  have hsymbol := hlookup ("symbol", .str i.symbol) (by simp [InstrumentSnapshot.keys])
  have hexchange := hlookup ("exchange", .str i.exchange) (by simp [InstrumentSnapshot.keys])
  have htype := hlookup ("asset_type", .str i.assetType) (by simp [InstrumentSnapshot.keys])
  rw [← InstrumentSnapshot.validate_normalized h, hstored, InstrumentSnapshot.modelValidate, hfields]
  simp only [Option.bind_eq_bind, Option.bind_some, readField_some hid, readField_some hsymbol,
    readField_some hexchange, readField_some htype, stored_natJson, stored_str, readInt_natJson,
    readText_str]

theorem isSpace_of_identifier {c : Char}
    (h : (c.isLower || c.isDigit || decide (c = '_') || decide (c = '-')) = true) :
    Candles.isSpace c = false := by
  have hrange : 45 ≤ c.toNat ∧ c.toNat ≤ 122 := by
    simp only [Bool.or_eq_true, decide_eq_true_eq] at h
    rcases h with ((h | h) | rfl) | rfl
    · have hlower : (decide (97 ≤ c.val) && decide (c.val ≤ 122)) = true := h
      rw [Bool.and_eq_true, decide_eq_true_eq, decide_eq_true_eq] at hlower
      have h1 : 97 ≤ c.toNat := hlower.1
      have h2 : c.toNat ≤ 122 := hlower.2
      omega
    · have hdigit : (decide (48 ≤ c.val) && decide (c.val ≤ 57)) = true := h
      rw [Bool.and_eq_true, decide_eq_true_eq, decide_eq_true_eq] at hdigit
      have h1 : 48 ≤ c.toNat := hdigit.1
      have h2 : c.toNat ≤ 57 := hdigit.2
      omega
    · decide
    · decide
  rw [Bool.eq_false_iff, Candles.isSpace]
  simp only [Bool.or_eq_true, Bool.and_eq_true, decide_eq_true_eq, ne_eq]
  omega

theorem strip_of_not_space {cs : List Char} (h : ∀ c ∈ cs, Candles.isSpace c = false) :
    Candles.strip cs = cs := by
  have hdrop : ∀ ds : List Char, (∀ c ∈ ds, Candles.isSpace c = false) →
      ds.dropWhile Candles.isSpace = ds := by
    intro ds hds
    rw [List.dropWhile_eq_self_iff]
    intro hpos
    rw [hds _ (List.getElem_mem hpos)]
    decide
  rw [Candles.strip, hdrop cs h, hdrop cs.reverse fun c hc => h c (List.mem_reverse.mp hc),
    List.reverse_reverse]

theorem identifier_chars {s : String} (h : isIdentifier s = true) :
    s.toList ≠ [] ∧ s.toList.length ≤ 64 ∧ ∀ c ∈ s.toList,
      (c.isLower || c.isDigit || decide (c = '_') || decide (c = '-')) = true := by
  rw [isIdentifier] at h
  cases hs : s.toList with
  | nil =>
    rw [hs] at h
    cases h
  | cons c rest =>
    rw [hs] at h
    simp only [Bool.and_eq_true, decide_eq_true_eq, List.all_eq_true] at h
    obtain ⟨⟨hlower, hlength⟩, hrest⟩ := h
    have hbound : (c :: rest).length ≤ 64 := by
      rw [List.length_cons]
      omega
    refine ⟨List.cons_ne_nil _ _, hbound, fun d hd => ?_⟩
    rcases List.mem_cons.mp hd with rfl | hd
    · rw [hlower]
      rfl
    · exact hrest d hd

theorem strip_identifier {s : String} (h : isIdentifier s = true) : strip s = s := by
  have hchars := (identifier_chars h).2.2
  rw [strip, strip_of_not_space fun c hc => isSpace_of_identifier (hchars c hc), String.ofList_toList]

theorem length_identifier {s : String} (h : isIdentifier s = true) : s ≠ "" ∧ s.length ≤ 64 := by
  obtain ⟨hne, hlength, _⟩ := identifier_chars h
  refine ⟨?_, by rwa [String.length_toList] at hlength⟩
  rintro rfl
  exact hne rfl

theorem validateIdentifier_eq {s : String} (h : isIdentifier s = true) :
    validateIdentifier s = some s := by
  obtain ⟨hne, hlength⟩ := length_identifier h
  have hbounds : ¬ (s = "" ∨ 64 < s.length) := by
    rintro (hempty | hlt)
    · exact hne hempty
    · omega
  rw [validateIdentifier, if_neg hbounds, strip_identifier h, if_pos h]

theorem StrategyImplementation.modelValidate_stored (i : StrategyImplementation) :
    StrategyImplementation.modelValidate (stored i.modelDump) = some i := by
  have hkeys : StrategyImplementation.keys.Nodup := by decide
  obtain ⟨fields, hobj, hfields, hlookup⟩ := stored_record hkeys
    [.str (ImplementationKind.value i.kind), .str i.identifier, .str i.revision] rfl
  have hstored : stored i.modelDump = .obj fields := hobj
  have hkind := hlookup ("kind", .str (ImplementationKind.value i.kind))
    (by simp [StrategyImplementation.keys])
  have hidentifier := hlookup ("identifier", .str i.identifier)
    (by simp [StrategyImplementation.keys])
  have hrevision := hlookup ("revision", .str i.revision) (by simp [StrategyImplementation.keys])
  have henum : readEnum [.declarative, .external] ImplementationKind.value
      (.str (ImplementationKind.value i.kind)) = some i.kind := by
    cases i.kind <;> rfl
  have htext : validateText 128 strip i.revision = some i.revision := by
    rw [validateText_normalized i.revised.1 i.revised.2.1, if_pos i.revised.2.2]
  have hvalid := And.intro i.identified i.revised
  rw [hstored, StrategyImplementation.modelValidate, hfields]
  simp only [Option.bind_eq_bind, Option.bind_some, readField_some hkind,
    readField_some hidentifier, readField_some hrevision, stored_str, henum, readText_str,
    validateIdentifier_eq i.identified, htext, dif_pos hvalid]

/-- A signal that was stored and read again. -/
def SignalDefinition.reread (s : SignalDefinition) : SignalDefinition :=
  { s with
    definition := s.definition.stored.canonical
    nonempty := JsonObject.nonempty_stored s.nonempty }

theorem SignalDefinition.modelValidate_stored (s : SignalDefinition) :
    SignalDefinition.modelValidate (stored s.modelDump) = some s.reread := by
  have hkeys : SignalDefinition.keys.Nodup := by decide
  obtain ⟨fields, hobj, hfields, hlookup⟩ := stored_record hkeys
    [.str s.signalId, .str (SignalRole.value s.role), .str (SignalDirection.value s.direction),
      natJson s.priority, s.definition.modelDump] rfl
  have hstored : stored s.modelDump = .obj fields := hobj
  have hid := hlookup ("signal_id", .str s.signalId) (by simp [SignalDefinition.keys])
  have hrole := hlookup ("role", .str (SignalRole.value s.role)) (by simp [SignalDefinition.keys])
  have hdirection := hlookup ("direction", .str (SignalDirection.value s.direction))
    (by simp [SignalDefinition.keys])
  have hpriority := hlookup ("priority", natJson s.priority) (by simp [SignalDefinition.keys])
  have hdefinition := hlookup ("definition", s.definition.modelDump)
    (by simp [SignalDefinition.keys])
  have hrole' : readEnum [.entry, .exit] SignalRole.value (.str (SignalRole.value s.role)) =
      some s.role := by
    cases s.role <;> rfl
  have hdirection' : readEnum [.long, .short, .flat] SignalDirection.value
      (.str (SignalDirection.value s.direction)) = some s.direction := by
    cases s.direction <;> rfl
  have hvalid : isIdentifier s.signalId = true ∧ s.priority ≤ 1000000 ∧
      s.definition.stored.canonical.fields ≠ [] ∧ (s.role = .exit ↔ s.direction = .flat) :=
    ⟨s.identified, s.bounded, JsonObject.nonempty_stored s.nonempty, s.coherent⟩
  rw [hstored, SignalDefinition.modelValidate, hfields]
  simp only [Option.bind_eq_bind, Option.bind_some, readField_some hid, readField_some hrole,
    readField_some hdirection, readField_some hpriority, readField_some hdefinition, stored_str,
    stored_natJson, readText_str, readNat_natJson, validateIdentifier_eq s.identified, hrole',
    hdirection', JsonObject.readCanonical_stored, dif_pos hvalid]
  rfl

def PositionRules.reread (p : PositionRules) : PositionRules :=
  { p with
    sizing := p.sizing.stored.canonical
    nonempty := JsonObject.nonempty_stored p.nonempty }

theorem PositionRules.modelValidate_stored (p : PositionRules) :
    PositionRules.modelValidate (stored p.modelDump) = some p.reread := by
  have hkeys : PositionRules.keys.Nodup := by decide
  obtain ⟨fields, hobj, hfields, hlookup⟩ := stored_record hkeys
    [.str (PositionMode.value p.mode), natJson p.maxOpenPositions, .bool p.allowReversal,
      p.sizing.modelDump] rfl
  have hstored : stored p.modelDump = .obj fields := hobj
  have hmode := hlookup ("mode", .str (PositionMode.value p.mode)) (by simp [PositionRules.keys])
  have hmax := hlookup ("max_open_positions", natJson p.maxOpenPositions)
    (by simp [PositionRules.keys])
  have hreversal := hlookup ("allow_reversal", .bool p.allowReversal) (by simp [PositionRules.keys])
  have hsizing := hlookup ("sizing", p.sizing.modelDump) (by simp [PositionRules.keys])
  have hmode' : readEnum [.longOnly, .shortOnly, .longShort] PositionMode.value
      (.str (PositionMode.value p.mode)) = some p.mode := by
    cases p.mode <;> rfl
  have hvalid : (1 ≤ p.maxOpenPositions ∧ p.maxOpenPositions ≤ 10000) ∧
      p.sizing.stored.canonical.fields ≠ [] := ⟨p.bounded, JsonObject.nonempty_stored p.nonempty⟩
  rw [hstored, PositionRules.modelValidate, hfields]
  simp only [Option.bind_eq_bind, Option.bind_some, readField_some hmode, readField_some hmax,
    readField_some hreversal, readField_some hsizing, stored_str, stored_natJson, stored_bool,
    readNat_natJson, readBool_bool, hmode', JsonObject.readCanonical_stored, dif_pos hvalid]
  rfl

def ExecutionAssumptions.reread (e : ExecutionAssumptions) : ExecutionAssumptions :=
  { e with
    feeBps := PyFloat.unsigned e.feeBps
    slippageBps := PyFloat.unsigned e.slippageBps
    charged := ⟨PyFloat.nonnegative_unsigned e.charged.1, PyFloat.nonnegative_unsigned e.charged.2⟩ }

theorem ExecutionAssumptions.modelValidate_stored (e : ExecutionAssumptions) :
    ExecutionAssumptions.modelValidate (stored e.modelDump) = some e.reread := by
  have hkeys : ExecutionAssumptions.keys.Nodup := by decide
  obtain ⟨fields, hobj, hfields, hlookup⟩ := stored_record hkeys
    [.str (ExecutionTiming.value e.timing), .str e.orderType.value, .number (.float e.feeBps),
      .number (.float e.slippageBps), natJson e.latencyMs] rfl
  have hstored : stored e.modelDump = .obj fields := hobj
  have htiming := hlookup ("timing", .str (ExecutionTiming.value e.timing))
    (by simp [ExecutionAssumptions.keys])
  have horder := hlookup ("order_type", .str e.orderType.value)
    (by simp [ExecutionAssumptions.keys])
  have hfee := hlookup ("fee_bps", .number (.float e.feeBps)) (by simp [ExecutionAssumptions.keys])
  have hslippage := hlookup ("slippage_bps", .number (.float e.slippageBps))
    (by simp [ExecutionAssumptions.keys])
  have hlatency := hlookup ("latency_ms", natJson e.latencyMs) (by simp [ExecutionAssumptions.keys])
  have htiming' : readEnum [.barClose, .nextBarOpen] ExecutionTiming.value
      (.str (ExecutionTiming.value e.timing)) = some e.timing := by
    cases e.timing <;> rfl
  have horder' : readEnum [.market, .limit] OrderType.value (.str e.orderType.value) =
      some e.orderType := by
    cases e.orderType <;> rfl
  have hvalid : PyFloat.nonnegative (PyFloat.unsigned e.feeBps) = true ∧
      PyFloat.nonnegative (PyFloat.unsigned e.slippageBps) = true := e.reread.charged
  rw [hstored, ExecutionAssumptions.modelValidate, hfields]
  simp only [Option.bind_eq_bind, Option.bind_some, readField_some htiming, readField_some horder,
    readField_some hfee, readField_some hslippage, readField_some hlatency, stored_str,
    stored_natJson, readNat_natJson, readFloat_stored, htiming', horder', dif_pos hvalid]
  rfl

/-! ### Canonical definitions -/

theorem mapM_stored {α : Type} {dump : α → Json} {read : Json → Option α} {f : α → α}
    (h : ∀ a, read (stored (dump a)) = some (f a)) (xs : List α) :
    readList read (stored (.arr (xs.map dump))) = some (xs.map f) := by
  rw [stored_arr, readList, List.map_map]
  induction xs with
  | nil => rfl
  | cons x rest ih =>
    rw [List.map_cons, List.mapM_cons, ih, Function.comp_apply, h]
    rfl

theorem mapM_snapshots {U : CaseMapping} {is : List InstrumentSnapshot}
    (h : ∀ i ∈ is, i.Normalized U) :
    readList (InstrumentSnapshot.modelValidate U) (stored (.arr (is.map (·.modelDump)))) =
      if ∀ i ∈ is, i.Fits then some is else none := by
  rw [stored_arr, readList, List.map_map]
  induction is with
  | nil => simp
  | cons i rest ih =>
    obtain ⟨hi, hrest⟩ := List.forall_mem_cons.mp h
    rw [List.map_cons, List.mapM_cons, ih hrest, Function.comp_apply,
      InstrumentSnapshot.modelValidate_stored hi]
    by_cases hfits : i.Fits
    · by_cases hall : ∀ j ∈ rest, j.Fits
      · rw [if_pos hfits, if_pos hall, if_pos (List.forall_mem_cons.mpr ⟨hfits, hall⟩)]
        rfl
      · rw [if_pos hfits, if_neg hall, if_neg fun h => hall (List.forall_mem_cons.mp h).2]
        rfl
    · rw [if_neg hfits, if_neg fun h => hfits (List.forall_mem_cons.mp h).1]
      rfl

theorem readOptional_snapshot {U : CaseMapping} {b : Option InstrumentSnapshot}
    (h : ∀ i ∈ b, i.Normalized U) :
    readOptional (InstrumentSnapshot.modelValidate U)
        (stored (optionJson InstrumentSnapshot.modelDump b)) =
      if ∀ i ∈ b, i.Fits then some b else none := by
  cases b with
  | none => simp [optionJson, readOptional]
  | some i =>
    have hi : i.Normalized U := h i rfl
    have hread : readOptional (InstrumentSnapshot.modelValidate U) (stored i.modelDump) =
        (InstrumentSnapshot.modelValidate U (stored i.modelDump)).map some := by
      obtain ⟨fields, hobj, _⟩ := stored_fields
        [("asset_id", natJson i.assetId), ("symbol", .str i.symbol), ("exchange", .str i.exchange),
          ("asset_type", .str i.assetType)]
      have hstored : stored i.modelDump = .obj fields := hobj
      rw [hstored]
      rfl
    rw [optionJson, hread, InstrumentSnapshot.modelValidate_stored hi]
    by_cases hfits : i.Fits <;> simp [hfits]

namespace CanonicalStrategyDefinition
variable (d : CanonicalStrategyDefinition)

def snapshots : List InstrumentSnapshot := d.universe ++ d.benchmark.toList

theorem forall_snapshots {P : InstrumentSnapshot → Prop} : (∀ i ∈ d.snapshots, P i) ↔
    (∀ i ∈ d.universe, P i) ∧ ∀ i ∈ d.benchmark, P i := by
  rw [snapshots, List.forall_mem_append]
  simp only [Option.mem_toList]
  rfl

theorem pairwise_reread : (d.signals.map (·.reread)).Pairwise SignalDefinition.le := by
  rw [List.pairwise_map]
  exact d.ordered

/-- A definition that was stored and read again. -/
def reread : CanonicalStrategyDefinition :=
  { d with
    parameters := d.parameters.stored
    signals := d.signals.map (·.reread)
    position := d.position.reread
    execution := d.execution.reread
    nonempty := ⟨d.nonempty.1, fun h => d.nonempty.2 (List.map_eq_nil_iff.mp h)⟩
    ordered := d.pairwise_reread }

theorem validate_self : validate d.timeframe d.universe d.parameters d.signals d.position
    d.execution d.implementation d.benchmark = .ok d := by
  have hunique : (d.universe.map (·.assetId)).Nodup := d.sorted.imp ne_of_lt
  rw [validate, dif_pos d.nonempty, if_neg (not_not.mpr hunique), dif_pos d.sorted,
    dif_pos d.ordered]

theorem modelValidate_stored {U : CaseMapping} (h : ∀ i ∈ d.snapshots, i.Normalized U) :
    modelValidate U (stored d.modelDump) =
      if ∀ i ∈ d.snapshots, i.Fits then some d.reread else none := by
  have huniverse : ∀ i ∈ d.universe, i.Normalized U := fun i hi => h i (List.mem_append_left _ hi)
  have hbenchmark : ∀ i ∈ d.benchmark, i.Normalized U := fun i hi =>
    h i (List.mem_append_right _ (Option.mem_toList.mpr hi))
  have hkeys : CanonicalStrategyDefinition.keys.Nodup := by decide
  obtain ⟨fields, hobj, hfields, hlookup⟩ := stored_record hkeys
    [.str schemaVersion, .str d.timeframe.value, .arr (d.universe.map (·.modelDump)),
      d.parameters.modelDump, .arr (d.signals.map (·.modelDump)), d.position.modelDump,
      d.execution.modelDump, d.implementation.modelDump,
      optionJson InstrumentSnapshot.modelDump d.benchmark] rfl
  have hstored : stored d.modelDump = .obj fields := hobj
  have hschema := hlookup ("schema_version", .str schemaVersion) (by simp [keys])
  have htimeframe := hlookup ("timeframe", .str d.timeframe.value) (by simp [keys])
  have hinstruments := hlookup ("universe", .arr (d.universe.map (·.modelDump))) (by simp [keys])
  have hparameters := hlookup ("parameters", d.parameters.modelDump) (by simp [keys])
  have hsignals := hlookup ("signals", .arr (d.signals.map (·.modelDump))) (by simp [keys])
  have hposition := hlookup ("position", d.position.modelDump) (by simp [keys])
  have hexecution := hlookup ("execution", d.execution.modelDump) (by simp [keys])
  have himpl := hlookup ("implementation", d.implementation.modelDump) (by simp [keys])
  have hbench := hlookup ("benchmark", optionJson InstrumentSnapshot.modelDump d.benchmark)
    (by simp [keys])
  have hschema' : readEnum [()] (fun _ => schemaVersion) (.str schemaVersion) = some () := by decide
  have htimeframe' : readEnum [.oneMinute, .fiveMinutes, .fifteenMinutes, .oneHour, .fourHours,
      .oneDay] StrategyTimeframe.value (.str d.timeframe.value) = some d.timeframe := by
    cases d.timeframe <;> rfl
  have hsplit := d.forall_snapshots (P := InstrumentSnapshot.Fits)
  rw [hstored, modelValidate, hfields]
  simp only [Option.bind_eq_bind, Option.bind_some, readField_some hschema,
    readField_some htimeframe, readField_some hinstruments, readField_some hparameters,
    readField_some hsignals, readField_some hposition, readField_some hexecution,
    readField_some himpl, readField_some hbench, stored_str, hschema', htimeframe',
    mapM_snapshots huniverse, JsonObject.read_stored,
    mapM_stored SignalDefinition.modelValidate_stored, PositionRules.modelValidate_stored,
    ExecutionAssumptions.modelValidate_stored, StrategyImplementation.modelValidate_stored,
    readOptional_snapshot hbenchmark, hsplit]
  by_cases hu : ∀ i ∈ d.universe, i.Fits
  · by_cases hb : ∀ i ∈ d.benchmark, i.Fits
    · rw [if_pos hu, if_pos hb, if_pos ⟨hu, hb⟩]
      exact congrArg Except.toOption d.reread.validate_self
    · have hnot : ¬ ((∀ i ∈ d.universe, i.Fits) ∧ ∀ i ∈ d.benchmark, i.Fits) := fun h => hb h.2
      rw [if_pos hu, if_neg hb, if_neg hnot]
      rfl
  · have hnot : ¬ ((∀ i ∈ d.universe, i.Fits) ∧ ∀ i ∈ d.benchmark, i.Fits) := fun h => hu h.1
    rw [if_neg hu, if_neg hnot]
    rfl

end CanonicalStrategyDefinition

/-! ### What survives -/

def JsonObject.Survives (o : JsonObject) : Prop := o.modelDump.Survives

theorem JsonObject.same_stored_iff (o : JsonObject) :
    o.stored.same Json.exactly o = true ↔ o.Survives := by
  have hwf : o.modelDump.WellFormed := o.wellFormed
  have hcanonical := Json.wellFormed_canonicalize _ hwf
  calc o.stored.same Json.exactly o = true
      ↔ Json.same Json.exactly (Strategies.stored o.modelDump) o.modelDump = true := by
        rw [JsonObject.same, o.stored_modelDump]
    _ ↔ (Strategies.stored o.modelDump).canonicalize = o.modelDump.canonicalize :=
        (Json.canonicalize_eq_iff _ _ (stored_wellFormed hwf) hwf).symm
    _ ↔ o.modelDump.canonicalize.reread.canonicalize = o.modelDump.canonicalize.canonicalize := by
        rw [Json.canonicalize_canonicalize, Strategies.stored]
    _ ↔ o.modelDump.canonicalize.Survives := Json.canonicalize_reread_iff _ hcanonical
    _ ↔ o.Survives := Json.survives_canonicalize _

theorem JsonObject.same_canonical_iff (o p : JsonObject) :
    o.canonical.same Json.exactly p = true ↔ o.same Json.exactly p = true := by
  have ho : o.modelDump.WellFormed := o.wellFormed
  have hp : p.modelDump.WellFormed := p.wellFormed
  rw [JsonObject.same, JsonObject.same, o.canonical_modelDump,
    ← Json.canonicalize_eq_iff _ _ (Json.wellFormed_canonicalize _ ho) hp,
    ← Json.canonicalize_eq_iff _ _ ho hp, Json.canonicalize_canonicalize]

theorem JsonObject.survives_of_same {o p : JsonObject} (h : o.same Json.exactly p = true) :
    o.Survives ↔ p.Survives := by
  have ho : o.modelDump.WellFormed := o.wellFormed
  have hp : p.modelDump.WellFormed := p.wellFormed
  rw [JsonObject.same, ← Json.canonicalize_eq_iff _ _ ho hp] at h
  rw [JsonObject.Survives, JsonObject.Survives, ← Json.survives_canonicalize, h,
    Json.survives_canonicalize]

theorem SignalDefinition.same_reread_iff (s : SignalDefinition) :
    s.reread.Same Json.exactly s ↔ s.definition.Survives := by
  rw [← s.definition.same_stored_iff, ← JsonObject.same_canonical_iff]
  exact ⟨fun h => h.definition, fun h => ⟨rfl, rfl, rfl, rfl, h⟩⟩

theorem PositionRules.same_reread_iff (p : PositionRules) :
    p.reread.Same Json.exactly p ↔ p.sizing.Survives := by
  rw [← p.sizing.same_stored_iff, ← JsonObject.same_canonical_iff]
  exact ⟨fun h => h.sizing, fun h => ⟨rfl, rfl, rfl, h⟩⟩

theorem ExecutionAssumptions.same_reread_iff (e : ExecutionAssumptions) :
    e.reread.Same Json.exactly e ↔ ¬ e.feeBps.NegativeZero ∧ ¬ e.slippageBps.NegativeZero := by
  rw [← PyFloat.unsigned_eq_iff, ← PyFloat.unsigned_eq_iff]
  constructor
  · intro h
    exact ⟨of_decide_eq_true h.feeBps, of_decide_eq_true h.slippageBps⟩
  · rintro ⟨hfee, hslippage⟩
    exact ⟨rfl, rfl, decide_eq_true hfee, decide_eq_true hslippage, rfl⟩

/-- No float of the definition changes in the column. -/
structure CanonicalStrategyDefinition.Survives (d : CanonicalStrategyDefinition) : Prop where
  parameters : d.parameters.Survives
  signals : ∀ s ∈ d.signals, s.definition.Survives
  sizing : d.position.sizing.Survives
  charges : ¬ d.execution.feeBps.NegativeZero ∧ ¬ d.execution.slippageBps.NegativeZero

namespace CanonicalStrategyDefinition
variable {d e f : CanonicalStrategyDefinition}

theorem same_reread_iff : d.reread.Same d ↔ d.Survives := by
  have hsignals : List.Forall₂ (SignalDefinition.Same Json.exactly) (d.signals.map (·.reread))
      d.signals ↔ ∀ s ∈ d.signals, s.definition.Survives := by
    rw [List.forall₂_map_left_iff, List.forall₂_same]
    simp only [SignalDefinition.same_reread_iff]
  constructor
  · intro h
    exact ⟨d.parameters.same_stored_iff.mp h.parameters, hsignals.mp h.signals,
      d.position.same_reread_iff.mp h.position, d.execution.same_reread_iff.mp h.execution⟩
  · intro h
    exact ⟨rfl, rfl, d.parameters.same_stored_iff.mpr h.parameters, hsignals.mpr h.signals,
      d.position.same_reread_iff.mpr h.sizing, d.execution.same_reread_iff.mpr h.charges, rfl, rfl⟩

theorem same_iff_text : d.Same e ↔ d.canonicalJson = e.canonicalJson := by
  rw [canonicalJson_eq_iff, same_modelDump]

theorem Same.survives (h : d.Same e) (hs : d.Survives) : e.Survives := by
  refine ⟨(JsonObject.survives_of_same h.parameters).mp hs.parameters, fun t ht => ?_,
    (JsonObject.survives_of_same h.position.sizing).mp hs.sizing, ?_⟩
  · obtain ⟨k, hk, rfl⟩ := List.mem_iff_getElem.mp ht
    have hk' : k < d.signals.length := h.signals.length_eq ▸ hk
    have hsame := h.signals.get hk' hk
    exact (JsonObject.survives_of_same hsame.definition).mp (hs.signals _ (List.getElem_mem hk'))
  · have hfee : d.execution.feeBps = e.execution.feeBps := of_decide_eq_true h.execution.feeBps
    have hslippage : d.execution.slippageBps = e.execution.slippageBps :=
      of_decide_eq_true h.execution.slippageBps
    rw [← hfee, ← hslippage]
    exact hs.charges

theorem Same.snapshots (h : d.Same e) : d.snapshots = e.snapshots := by
  rw [CanonicalStrategyDefinition.snapshots, CanonicalStrategyDefinition.snapshots, h.universe,
    h.benchmark]

end CanonicalStrategyDefinition

end Quantive.Strategies
