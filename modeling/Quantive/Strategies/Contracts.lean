import Quantive.Candles.StagedPath
import Quantive.Json.Text
import Quantive.LiveStrategy.Contracts

/-!
# Strategy definitions

`strategies/contracts.py`: what an author submits, and the canonical definition that is hashed and
persisted. The values inside `parameters`, `definition` and `sizing` are JSON of any depth; a
value that the pydantic models reject cannot be built.
-/

namespace Quantive.Strategies
open LiveStrategy (StrategyTimeframe SignalRole SignalDirection PositionMode ExecutionTiming
  ImplementationKind)

/-! ### `_canonicalize_json` -/

inductive PyKey where
  | str (s : String)
  | other

/-- A Python value; a dict has a key once. -/
inductive PyValue where
  | none
  | bool (b : Bool)
  | int (z : ℤ)
  | float (f : PyFloat)
  | nonFinite
  | str (s : String)
  | list (items : List PyValue)
  | tuple (items : List PyValue)
  | dict (fields : List (PyKey × PyValue))
  | other (typeName : String)

/-- The first error of a list of results, or all of them. -/
def sequence {α : Type} : List (Except String α) → Except String (List α)
  | [] => .ok []
  | r :: rest => do
    let a ← r
    let others ← sequence rest
    pure (a :: others)

/-- The results of a dict, its keys in sorted order. -/
def sequenceFields (fields : List (String × Except String Json)) : Except String Json.Fields :=
  sequence ((fields.insertionSort fun p q => p.1 ≤ q.1).map fun p => p.2.map fun j => (p.1, j))

mutual

/-- `_canonicalize_json`, `contracts.py:75-94`. -/
def canonicalizeJson (path : String) : PyValue → Except String Json
  | .none => .ok .null
  | .bool b => .ok (.bool b)
  | .int z => .ok (.number (.int z))
  | .float f => .ok (.number (.float f))
  | .nonFinite => .error (path ++ " must not contain NaN or infinity")
  | .str s => .ok (.str s)
  | .list items => (sequence (canonicalizeItems path 0 items)).map .arr
  | .tuple items => (sequence (canonicalizeItems path 0 items)).map .arr
  | .dict fields =>
    match canonicalizeFields path fields with
    | none => .error (path ++ " object keys must be strings")
    | some results => (sequenceFields results).map .obj
  | .other typeName => .error (path ++ " must contain JSON values only, not " ++ typeName)

def canonicalizeItems (path : String) (index : ℕ) : List PyValue → List (Except String Json)
  | [] => []
  | v :: rest => canonicalizeJson (path ++ "[" ++ toString index ++ "]") v ::
      canonicalizeItems path (index + 1) rest

/-- `none` when a key is no string. -/
def canonicalizeFields (path : String) :
    List (PyKey × PyValue) → Option (List (String × Except String Json))
  | [] => some []
  | (.other, _) :: _ => none
  | (.str key, v) :: rest =>
    (canonicalizeFields path rest).map fun results =>
      (key, canonicalizeJson (path ++ "." ++ key) v) :: results

end

mutual

/-- The Python value of a JSON value. -/
def ofJson : Json → PyValue
  | .null => .none
  | .bool b => .bool b
  | .number (.int z) => .int z
  | .number (.float f) => .float f
  | .str s => .str s
  | .arr items => .list (ofJsonItems items)
  | .obj fields => .dict (ofJsonFields fields)

def ofJsonItems : List Json → List PyValue
  | [] => []
  | j :: rest => ofJson j :: ofJsonItems rest

def ofJsonFields : Json.Fields → List (PyKey × PyValue)
  | [] => []
  | (key, j) :: rest => (.str key, ofJson j) :: ofJsonFields rest

end

theorem sequence_ok {α : Type} (xs : List α) : sequence (xs.map .ok) = .ok xs := by
  induction xs with
  | nil => rfl
  | cons x xs ih => rw [List.map_cons, sequence, ih]; rfl

theorem sequenceFields_ok (fields : Json.Fields) :
    sequenceFields (fields.map fun p => (p.1, .ok p.2)) = .ok (Json.sortKeys fields) := by
  have hsort : (fields.map fun p => (p.1, (.ok p.2 : Except String Json))).insertionSort
      (fun p q => p.1 ≤ q.1) = (Json.sortKeys fields).map fun p => (p.1, .ok p.2) :=
    (List.map_insertionSort (fun p q : String × Json => p.1 ≤ q.1)
      (fun p q : String × Except String Json => p.1 ≤ q.1) (fun p => (p.1, .ok p.2)) fields
      fun _ _ _ _ => Iff.rfl).symm
  rw [sequenceFields, hsort, List.map_map]
  exact sequence_ok (Json.sortKeys fields)

mutual

/-- A JSON value is accepted, and its keys are sorted. -/
theorem canonicalizeJson_ofJson (path : String) (j : Json) :
    canonicalizeJson path (ofJson j) = .ok j.canonicalize := by
  cases j with
  | number n => cases n <;> rfl
  | arr items =>
    rw [ofJson, canonicalizeJson, canonicalizeItems_ofJson path 0 items, sequence_ok]
    rfl
  | obj fields =>
    rw [ofJson, canonicalizeJson, canonicalizeFields_ofJson path fields]
    show (sequenceFields _).map Json.obj = _
    rw [sequenceFields_ok]
    rfl
  | _ => rfl

theorem canonicalizeItems_ofJson (path : String) (index : ℕ) (items : List Json) :
    canonicalizeItems path index (ofJsonItems items) = (Json.canonicalizeItems items).map .ok := by
  cases items with
  | nil => rfl
  | cons j rest =>
    rw [ofJsonItems, canonicalizeItems, canonicalizeJson_ofJson _ j,
      canonicalizeItems_ofJson path (index + 1) rest]
    rfl

theorem canonicalizeFields_ofJson (path : String) (fields : Json.Fields) :
    canonicalizeFields path (ofJsonFields fields) =
      some ((Json.canonicalizeFields fields).map fun p => (p.1, .ok p.2)) := by
  cases fields with
  | nil => rfl
  | cons p rest =>
    obtain ⟨key, j⟩ := p
    rw [ofJsonFields, canonicalizeFields, canonicalizeJson_ofJson _ j,
      canonicalizeFields_ofJson path rest]
    rfl

end

mutual

/-- A dict has a key once. -/
def PyValue.WellFormed : PyValue → Prop
  | .list items => WellFormedItems items
  | .tuple items => WellFormedItems items
  | .dict fields => (∀ keys : List String, fields.map (·.1) = keys.map .str → keys.Nodup) ∧
      WellFormedFields fields
  | _ => True

def WellFormedItems : List PyValue → Prop
  | [] => True
  | v :: rest => v.WellFormed ∧ WellFormedItems rest

def WellFormedFields : List (PyKey × PyValue) → Prop
  | [] => True
  | (_, v) :: rest => v.WellFormed ∧ WellFormedFields rest

end

theorem sequence_eq_ok {α : Type} {rs : List (Except String α)} {xs : List α}
    (h : sequence rs = .ok xs) : rs = xs.map .ok := by
  induction rs generalizing xs with
  | nil =>
    cases h
    rfl
  | cons r rest ih =>
    cases r with
    | error e => cases h
    | ok a =>
      cases hrest : sequence rest with
      | error e =>
        rw [sequence, hrest] at h
        cases h
      | ok others =>
        rw [sequence, hrest] at h
        cases h
        rw [ih hrest]
        rfl

/-- The fields of an accepted dict are the accepted fields, in another order. -/
theorem sequenceFields_eq_ok {results : List (String × Except String Json)} {fields : Json.Fields}
    (h : sequenceFields results = .ok fields) :
    (fields.map fun p => (p.1, (.ok p.2 : Except String Json))).Perm results := by
  have hsorted := sequence_eq_ok h
  have hperm : (results.insertionSort fun p q => p.1 ≤ q.1).Perm results :=
    List.perm_insertionSort _ _
  refine List.Perm.trans ?_ hperm
  -- a result that is accepted is the result of its field
  have hfields : ∀ (rs : List (String × Except String Json)) (fs : Json.Fields),
      (rs.map fun p => p.2.map fun j => (p.1, j)) = fs.map .ok →
      fs.map (fun p => (p.1, (.ok p.2 : Except String Json))) = rs := by
    intro rs
    induction rs with
    | nil =>
      intro fs hfs
      cases fs with
      | nil => rfl
      | cons p fs => cases hfs
    | cons r rs ih =>
      intro fs hfs
      cases fs with
      | nil => cases hfs
      | cons p fs =>
        obtain ⟨key, result⟩ := r
        obtain ⟨hhead, htail⟩ := List.cons.inj hfs
        cases result with
        | error e => cases hhead
        | ok j =>
          cases hhead
          exact congrArg _ (ih fs htail)
  exact (hfields _ _ hsorted) ▸ List.Perm.refl _

mutual

/-- What the validators accept is well formed. -/
theorem canonicalizeJson_wellFormed (path : String) (v : PyValue) (hv : v.WellFormed) {j : Json}
    (h : canonicalizeJson path v = .ok j) : j.WellFormed := by
  have hitems : ∀ items : List PyValue, (∀ (r : Json), .ok r ∈ canonicalizeItems path 0 items →
      r.WellFormed) → (sequence (canonicalizeItems path 0 items)).map Json.arr = .ok j →
      j.WellFormed := by
    intro items hall h
    cases hsequence : sequence (canonicalizeItems path 0 items) with
    | error e =>
      rw [hsequence] at h
      cases h
    | ok xs =>
      rw [hsequence] at h
      cases h
      refine Json.wellFormedItems_iff.mpr fun x hx => hall x ?_
      rw [sequence_eq_ok hsequence]
      exact List.mem_map_of_mem hx
  cases v with
  | list items =>
    exact hitems items (canonicalizeItems_wellFormed path 0 items hv) h
  | tuple items =>
    exact hitems items (canonicalizeItems_wellFormed path 0 items hv) h
  | dict fields =>
    rw [canonicalizeJson] at h
    cases hfields : canonicalizeFields path fields with
    | none =>
      rw [hfields] at h
      cases h
    | some results =>
      replace h : (sequenceFields results).map Json.obj = .ok j := by
        rw [hfields] at h
        exact h
      obtain ⟨hkeys, hall⟩ := canonicalizeFields_wellFormed path fields hv.2 hfields
      cases hsequence : sequenceFields results with
      | error e =>
        rw [hsequence] at h
        cases h
      | ok fs =>
        rw [hsequence] at h
        cases h
        have hperm := sequenceFields_eq_ok hsequence
        constructor
        · have hnodup := hv.1 (results.map (·.1)) hkeys
          rw [← (hperm.map (·.1)).nodup_iff, List.map_map] at hnodup
          exact hnodup
        · refine Json.wellFormedFields_iff.mpr fun p hp => hall (p.1, .ok p.2) ?_ p.2 rfl
          exact hperm.subset (List.mem_map_of_mem (f := fun p => (p.1, Except.ok p.2)) hp)
  | none => cases h; trivial
  | bool b => cases h; trivial
  | int z => cases h; trivial
  | float f => cases h; trivial
  | nonFinite => cases h
  | str s => cases h; trivial
  | other typeName => cases h

theorem canonicalizeItems_wellFormed (path : String) (index : ℕ) (items : List PyValue)
    (hv : WellFormedItems items) (r : Json) (hr : .ok r ∈ canonicalizeItems path index items) :
    r.WellFormed := by
  cases items with
  | nil => cases hr
  | cons v rest =>
    rw [canonicalizeItems] at hr
    rcases List.mem_cons.mp hr with hhead | hrest
    · exact canonicalizeJson_wellFormed _ v hv.1 hhead.symm
    · exact canonicalizeItems_wellFormed path (index + 1) rest hv.2 r hrest

theorem canonicalizeFields_wellFormed (path : String) (fields : List (PyKey × PyValue))
    (hv : WellFormedFields fields) {results : List (String × Except String Json)}
    (h : canonicalizeFields path fields = some results) :
    fields.map (·.1) = (results.map (·.1)).map .str ∧
      ∀ p ∈ results, ∀ j, p.2 = .ok j → j.WellFormed := by
  cases fields with
  | nil =>
    cases h
    exact ⟨rfl, fun p hp => by cases hp⟩
  | cons p rest =>
    obtain ⟨key, v⟩ := p
    cases key with
    | other => cases h
    | str key =>
      rw [canonicalizeFields] at h
      obtain ⟨others, hothers, rfl⟩ := Option.map_eq_some_iff.mp h
      obtain ⟨hkeys, hall⟩ := canonicalizeFields_wellFormed path rest hv.2 hothers
      refine ⟨congrArg (PyKey.str key :: ·) hkeys, fun q hq j hj => ?_⟩
      rcases List.mem_cons.mp hq with rfl | hq
      · exact canonicalizeJson_wellFormed _ v hv.1 hj
      · exact hall q hq j hj

end

/-- A dict of JSON values, as the validators return it. -/
structure JsonObject where
  fields : Json.Fields
  wellFormed : (Json.obj fields).WellFormed

/-- The fields of an object. -/
def entries : Json → Json.Fields
  | .obj fields => fields
  | _ => []

theorem entries_wellFormed {j : Json} (h : j.WellFormed) : (Json.obj (entries j)).WellFormed := by
  cases j with
  | obj fields => exact h
  | _ => exact ⟨List.nodup_nil, trivial⟩

/-- The validators of `parameters`, `definition` and `sizing`, each with its path. -/
def JsonObject.validate (path : String) (fields : List (PyKey × PyValue))
    (h : (PyValue.dict fields).WellFormed) : Except String JsonObject :=
  match hcanonical : canonicalizeJson path (.dict fields) with
  | .error message => .error message
  | .ok j => .ok ⟨entries j, entries_wellFormed (canonicalizeJson_wellFormed path _ h hcanonical)⟩

/-! ### Models -/

inductive OrderType where
  | market | limit
  deriving DecidableEq, Repr

/-- `^[a-z][a-z0-9_-]{0,63}$` -/
def isIdentifier (s : String) : Bool :=
  match s.toList with
  | [] => false
  | c :: rest => c.isLower && rest.length ≤ 63 &&
      rest.all fun d => d.isLower || d.isDigit || d = '_' || d = '-'

/-- `str.strip` -/
def strip (s : String) : String := String.ofList (Candles.strip s.toList)

/-- `str.upper`: the upper-case mapping of Unicode. -/
structure CaseMapping where
  upper : String → String
  upper_upper : ∀ s, upper (upper s) = upper s
  strip_upper : ∀ s, strip (upper (strip s)) = upper (strip s)

theorem toUpper_toNat (c : Char) :
    c.toUpper.toNat = if 97 ≤ c.toNat ∧ c.toNat ≤ 122 then c.toNat - 32 else c.toNat := by
  unfold Char.toUpper
  by_cases h : c.val ≥ 'a'.val ∧ c.val ≤ 'z'.val
  · have hrange : 97 ≤ c.toNat ∧ c.toNat ≤ 122 := h
    have hadd : (c.val + ('A'.val - 'a'.val)).toNat = (c.val.toNat + 4294967264) % 2 ^ 32 :=
      UInt32.toNat_add c.val ('A'.val - 'a'.val)
    have hlow : 97 ≤ c.val.toNat := hrange.1
    have hhigh : c.val.toNat ≤ 122 := hrange.2
    rw [dif_pos h, if_pos hrange]
    show (c.val + ('A'.val - 'a'.val)).toNat = c.val.toNat - 32
    omega
  · have hrange : ¬ (97 ≤ c.toNat ∧ c.toNat ≤ 122) := h
    rw [dif_neg h, if_neg hrange]

/-- Upper case on ASCII letters. -/
def asciiUpper (s : String) : String := String.ofList (s.toList.map Char.toUpper)

def asciiCases : CaseMapping where
  upper := asciiUpper
  upper_upper s := by
    have htwice : ∀ c : Char, c.toUpper.toUpper = c.toUpper := by
      intro c
      have hnat : c.toUpper.toUpper.toNat = c.toUpper.toNat := by
        rw [toUpper_toNat c.toUpper, toUpper_toNat c]
        split_ifs <;> omega
      exact Char.ext (UInt32.toNat_inj.mp hnat)
    rw [asciiUpper, asciiUpper, String.toList_ofList, List.map_map,
      show Char.toUpper ∘ Char.toUpper = Char.toUpper from funext htwice]
  strip_upper s := by
    have hspace : ∀ c : Char, Candles.isSpace c.toUpper = Candles.isSpace c := by
      intro c
      unfold Candles.isSpace
      rw [toUpper_toNat, Bool.eq_iff_iff]
      simp only [Bool.or_eq_true, Bool.and_eq_true, decide_eq_true_eq]
      split_ifs <;> omega
    rw [asciiUpper, strip, strip, String.toList_ofList, String.toList_ofList,
      Candles.strip_map hspace, Candles.strip_strip]

structure InstrumentSnapshot where
  assetId : ℕ
  symbol : String
  exchange : String
  assetType : String
  deriving DecidableEq

/-- A text field: the length that pydantic checks, and the validator after it. -/
def validateText (maxLength : ℕ) (normalize : String → String) (s : String) : Option String :=
  if s = "" ∨ maxLength < s.length then none
  else if normalize s = "" then none
  else some (normalize s)

/-- `InstrumentSnapshot(…)`; `none` is the `ValidationError`. -/
def InstrumentSnapshot.validate (U : CaseMapping) (assetId : ℤ) (symbol exchange assetType : String) :
    Option InstrumentSnapshot := do
  let text := validateText 50 fun s => U.upper (strip s)
  if assetId ≤ 0 then none
  some ⟨assetId.toNat, ← text symbol, ← text exchange, ← text assetType⟩

structure StrategyImplementation where
  kind : ImplementationKind
  identifier : String
  revision : String
  identified : isIdentifier identifier = true := by decide
  revised : strip revision = revision ∧ revision ≠ "" ∧ revision.length ≤ 128 := by decide
  deriving DecidableEq

structure SignalDefinition where
  signalId : String
  role : SignalRole
  direction : SignalDirection
  priority : ℕ := 100
  definition : JsonObject
  identified : isIdentifier signalId = true := by decide
  bounded : priority ≤ 1000000 := by decide
  nonempty : definition.fields ≠ []
  coherent : role = .exit ↔ direction = .flat := by decide

structure PositionRules where
  mode : PositionMode
  maxOpenPositions : ℕ := 1
  allowReversal : Bool := false
  sizing : JsonObject
  bounded : 1 ≤ maxOpenPositions ∧ maxOpenPositions ≤ 10000 := by decide
  nonempty : sizing.fields ≠ []

/-- `value >= 0.0`, which negative zero passes. -/
def PyFloat.nonnegative (f : PyFloat) : Bool := !f.negative || f.digits = 0

structure ExecutionAssumptions where
  timing : ExecutionTiming
  orderType : OrderType
  feeBps : PyFloat
  slippageBps : PyFloat
  latencyMs : ℕ := 0
  charged : PyFloat.nonnegative feeBps = true ∧ PyFloat.nonnegative slippageBps = true := by decide
  deriving DecidableEq

def PositionMode.allows : PositionMode → SignalDirection → Bool
  | .longOnly, direction => direction = .long
  | .shortOnly, direction => direction = .short
  | .longShort, direction => direction = .long || direction = .short

/-- A validated `StrategyDefinitionInput`. -/
structure StrategyDefinitionInput where
  timeframe : StrategyTimeframe
  universeAssetIds : List ℕ
  parameters : JsonObject
  signals : List SignalDefinition
  position : PositionRules
  execution : ExecutionAssumptions
  implementation : StrategyImplementation
  benchmarkAssetId : Option ℕ := none
  nonempty : universeAssetIds ≠ [] ∧ signals ≠ []
  positive : ∀ id ∈ universeAssetIds, 0 < id
  unique : universeAssetIds.Nodup
  identified : (signals.map (·.signalId)).Nodup
  compatible : ∀ s ∈ signals, s.role = .entry → PositionMode.allows position.mode s.direction = true

/-- The sort key `(priority, signal_id)`. -/
def SignalDefinition.le (s t : SignalDefinition) : Prop :=
  s.priority < t.priority ∨ s.priority = t.priority ∧ s.signalId ≤ t.signalId

instance (s t : SignalDefinition) : Decidable (s.le t) := inferInstanceAs (Decidable (_ ∨ _ ∧ _))

/-- The definition that is hashed and persisted; `sorted` and `ordered` are
`validate_canonical_universe`. -/
structure CanonicalStrategyDefinition where
  timeframe : StrategyTimeframe
  «universe» : List InstrumentSnapshot
  parameters : JsonObject
  signals : List SignalDefinition
  position : PositionRules
  execution : ExecutionAssumptions
  implementation : StrategyImplementation
  benchmark : Option InstrumentSnapshot
  nonempty : «universe» ≠ [] ∧ signals ≠ []
  sorted : («universe».map (·.assetId)).Pairwise (· < ·)
  ordered : signals.Pairwise SignalDefinition.le

/-- The validator of the canonical definition. -/
def CanonicalStrategyDefinition.validate (timeframe : StrategyTimeframe)
    («universe» : List InstrumentSnapshot) (parameters : JsonObject) (signals : List SignalDefinition)
    (position : PositionRules) (execution : ExecutionAssumptions)
    (implementation : StrategyImplementation) (benchmark : Option InstrumentSnapshot) :
    Except String CanonicalStrategyDefinition :=
  if nonempty : «universe» ≠ [] ∧ signals ≠ [] then
    if ¬ («universe».map (·.assetId)).Nodup then
      .error "canonical universe asset ids must be unique"
    else if sorted : («universe».map (·.assetId)).Pairwise (· < ·) then
      if ordered : signals.Pairwise SignalDefinition.le then
        .ok { timeframe, «universe», parameters, signals, position, execution, implementation,
              benchmark, nonempty, sorted, ordered }
      else .error "canonical signals must be sorted by priority then signal_id"
    else .error "canonical universe must be sorted by asset_id"
  else .error "Tuple should have at least 1 item after validation"

/-- `CanonicalStrategyDefinition.from_input`, `contracts.py:318-349`. -/
def CanonicalStrategyDefinition.fromInput (definition : StrategyDefinitionInput)
    (assetsById : ℕ → Option InstrumentSnapshot) : Except String CanonicalStrategyDefinition := do
  let required := definition.universeAssetIds ++ definition.benchmarkAssetId.toList
  let missing := (required.dedup.filter fun id => (assetsById id).isNone).insertionSort (· ≤ ·)
  if missing ≠ [] then .error ("strategy references unknown assets: " ++ toString missing)
  CanonicalStrategyDefinition.validate definition.timeframe
    ((definition.universeAssetIds.insertionSort (· ≤ ·)).filterMap assetsById)
    definition.parameters (definition.signals.insertionSort SignalDefinition.le)
    definition.position definition.execution definition.implementation
    (definition.benchmarkAssetId.bind assetsById)

/-! ### The canonical text -/

def SignalRole.value : SignalRole → String
  | .entry => "entry"
  | .exit => "exit"

def SignalDirection.value : SignalDirection → String
  | .long => "long"
  | .short => "short"
  | .flat => "flat"

def PositionMode.value : PositionMode → String
  | .longOnly => "long_only"
  | .shortOnly => "short_only"
  | .longShort => "long_short"

def ExecutionTiming.value : ExecutionTiming → String
  | .barClose => "bar_close"
  | .nextBarOpen => "next_bar_open"

def OrderType.value : OrderType → String
  | .market => "market"
  | .limit => "limit"

def ImplementationKind.value : ImplementationKind → String
  | .declarative => "declarative"
  | .external => "external"

def natJson (n : ℕ) : Json := .number (.int n)

/-! The field names of each model, and its `model_dump(mode="json")`. -/

def InstrumentSnapshot.keys : List String := ["asset_id", "symbol", "exchange", "asset_type"]

def SignalDefinition.keys : List String :=
  ["signal_id", "role", "direction", "priority", "definition"]

def PositionRules.keys : List String := ["mode", "max_open_positions", "allow_reversal", "sizing"]

def ExecutionAssumptions.keys : List String :=
  ["timing", "order_type", "fee_bps", "slippage_bps", "latency_ms"]

def StrategyImplementation.keys : List String := ["kind", "identifier", "revision"]

def CanonicalStrategyDefinition.keys : List String :=
  ["schema_version", "timeframe", "universe", "parameters", "signals", "position", "execution",
    "implementation", "benchmark"]

def InstrumentSnapshot.modelDump (i : InstrumentSnapshot) : Json := .obj
  [("asset_id", natJson i.assetId), ("symbol", .str i.symbol), ("exchange", .str i.exchange),
    ("asset_type", .str i.assetType)]

def JsonObject.modelDump (o : JsonObject) : Json := .obj o.fields

def SignalDefinition.modelDump (s : SignalDefinition) : Json := .obj
  [("signal_id", .str s.signalId), ("role", .str (SignalRole.value s.role)),
    ("direction", .str (SignalDirection.value s.direction)), ("priority", natJson s.priority),
    ("definition", s.definition.modelDump)]

def PositionRules.modelDump (p : PositionRules) : Json := .obj
  [("mode", .str (PositionMode.value p.mode)), ("max_open_positions", natJson p.maxOpenPositions),
    ("allow_reversal", .bool p.allowReversal), ("sizing", p.sizing.modelDump)]

def ExecutionAssumptions.modelDump (e : ExecutionAssumptions) : Json := .obj
  [("timing", .str (ExecutionTiming.value e.timing)), ("order_type", .str e.orderType.value),
    ("fee_bps", .number (.float e.feeBps)), ("slippage_bps", .number (.float e.slippageBps)),
    ("latency_ms", natJson e.latencyMs)]

def StrategyImplementation.modelDump (i : StrategyImplementation) : Json := .obj
  [("kind", .str (ImplementationKind.value i.kind)), ("identifier", .str i.identifier),
    ("revision", .str i.revision)]

def optionJson {α : Type} (dump : α → Json) : Option α → Json
  | none => .null
  | some a => dump a

/-- `STRATEGY_DEFINITION_SCHEMA_VERSION` -/
def schemaVersion : String := "1"

namespace CanonicalStrategyDefinition
variable (d : CanonicalStrategyDefinition)

def modelDump : Json := .obj
  [("schema_version", .str schemaVersion), ("timeframe", .str d.timeframe.value),
    ("universe", .arr (d.universe.map (·.modelDump))), ("parameters", d.parameters.modelDump),
    ("signals", .arr (d.signals.map (·.modelDump))), ("position", d.position.modelDump),
    ("execution", d.execution.modelDump), ("implementation", d.implementation.modelDump),
    ("benchmark", optionJson InstrumentSnapshot.modelDump d.benchmark)]

/-- `canonical_payload`: `_canonicalize_json` raises nothing on a dumped model. -/
def canonicalPayload : Json := d.modelDump.canonicalize

theorem canonicalPayload_eq :
    canonicalizeJson "$" (ofJson d.modelDump) = .ok d.canonicalPayload :=
  canonicalizeJson_ofJson "$" d.modelDump

def canonicalJson : String := Json.dumpsSorted d.canonicalPayload

end CanonicalStrategyDefinition

/-! ### Dumped models are well formed -/

theorem JsonObject.modelDump_wellFormed (o : JsonObject) : o.modelDump.WellFormed := o.wellFormed

theorem InstrumentSnapshot.modelDump_wellFormed (i : InstrumentSnapshot) :
    i.modelDump.WellFormed := by
  have hkeys : InstrumentSnapshot.keys.Nodup := by decide
  exact ⟨hkeys, trivial, trivial, trivial, trivial, trivial⟩

theorem SignalDefinition.modelDump_wellFormed (s : SignalDefinition) : s.modelDump.WellFormed := by
  have hkeys : SignalDefinition.keys.Nodup := by decide
  exact ⟨hkeys, trivial, trivial, trivial, trivial, s.definition.modelDump_wellFormed, trivial⟩

theorem PositionRules.modelDump_wellFormed (p : PositionRules) : p.modelDump.WellFormed := by
  have hkeys : PositionRules.keys.Nodup := by decide
  exact ⟨hkeys, trivial, trivial, trivial, p.sizing.modelDump_wellFormed, trivial⟩

theorem ExecutionAssumptions.modelDump_wellFormed (e : ExecutionAssumptions) :
    e.modelDump.WellFormed := by
  have hkeys : ExecutionAssumptions.keys.Nodup := by decide
  exact ⟨hkeys, trivial, trivial, trivial, trivial, trivial, trivial⟩

theorem StrategyImplementation.modelDump_wellFormed (i : StrategyImplementation) :
    i.modelDump.WellFormed := by
  have hkeys : StrategyImplementation.keys.Nodup := by decide
  exact ⟨hkeys, trivial, trivial, trivial, trivial⟩

theorem CanonicalStrategyDefinition.modelDump_wellFormed (d : CanonicalStrategyDefinition) :
    d.modelDump.WellFormed := by
  have hkeys : CanonicalStrategyDefinition.keys.Nodup := by decide
  have hbenchmark : (optionJson InstrumentSnapshot.modelDump d.benchmark).WellFormed := by
    cases d.benchmark with
    | none => trivial
    | some i => exact i.modelDump_wellFormed
  refine ⟨hkeys, trivial, trivial, ?_, d.parameters.modelDump_wellFormed, ?_,
    d.position.modelDump_wellFormed, d.execution.modelDump_wellFormed,
    d.implementation.modelDump_wellFormed, hbenchmark, trivial⟩
  · refine Json.wellFormedItems_iff.mpr fun j hj => ?_
    obtain ⟨i, _, rfl⟩ := List.mem_map.mp hj
    exact i.modelDump_wellFormed
  · refine Json.wellFormedItems_iff.mpr fun j hj => ?_
    obtain ⟨s, _, rfl⟩ := List.mem_map.mp hj
    exact s.modelDump_wellFormed

/-- Two definitions have one canonical text exactly when their dumps are the same. -/
theorem canonicalJson_eq_iff {d d' : CanonicalStrategyDefinition} :
    d.canonicalJson = d'.canonicalJson ↔
      Json.same Json.exactly d.modelDump d'.modelDump = true := by
  have hd := d.modelDump_wellFormed
  have hd' := d'.modelDump_wellFormed
  have hpayload := Json.wellFormed_canonicalize _ hd
  have hpayload' := Json.wellFormed_canonicalize _ hd'
  calc d.canonicalJson = d'.canonicalJson
      ↔ Json.same Json.exactly d.canonicalPayload d'.canonicalPayload = true :=
        Json.dumpsSorted_eq_iff hpayload hpayload'
    _ ↔ d.canonicalPayload.canonicalize = d'.canonicalPayload.canonicalize :=
        (Json.canonicalize_eq_iff _ _ hpayload hpayload').symm
    _ ↔ d.modelDump.canonicalize = d'.modelDump.canonicalize := by
        rw [CanonicalStrategyDefinition.canonicalPayload,
          CanonicalStrategyDefinition.canonicalPayload, Json.canonicalize_canonicalize,
          Json.canonicalize_canonicalize]
    _ ↔ Json.same Json.exactly d.modelDump d'.modelDump = true :=
        Json.canonicalize_eq_iff _ _ hd hd'

end Quantive.Strategies
