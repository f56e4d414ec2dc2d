import Mathlib.Data.List.Forall2
import Quantive.Strategies.Contracts

/-!
# The identity of a strategy

The canonical text of a definition does not depend on the order in which its author wrote assets,
signals and keys, and on nothing else.
-/

namespace Quantive.Strategies
open LiveStrategy (StrategyTimeframe SignalRole SignalDirection PositionMode ExecutionTiming
  ImplementationKind)

/-! ### Sameness of submitted definitions -/

section
variable (eqFloat : PyFloat → PyFloat → Bool)

def JsonObject.same (a b : JsonObject) : Bool := Json.same eqFloat a.modelDump b.modelDump

structure SignalDefinition.Same (s t : SignalDefinition) : Prop where
  signalId : s.signalId = t.signalId
  role : s.role = t.role
  direction : s.direction = t.direction
  priority : s.priority = t.priority
  definition : s.definition.same eqFloat t.definition = true

structure PositionRules.Same (p q : PositionRules) : Prop where
  mode : p.mode = q.mode
  maxOpenPositions : p.maxOpenPositions = q.maxOpenPositions
  allowReversal : p.allowReversal = q.allowReversal
  sizing : p.sizing.same eqFloat q.sizing = true

structure ExecutionAssumptions.Same (e f : ExecutionAssumptions) : Prop where
  timing : e.timing = f.timing
  orderType : e.orderType = f.orderType
  feeBps : eqFloat e.feeBps f.feeBps = true
  slippageBps : eqFloat e.slippageBps f.slippageBps = true
  latencyMs : e.latencyMs = f.latencyMs

/-- Equal up to the order of the asset ids, of the signals, and of the keys of nested objects;
nested values are compared with their types. -/
structure StrategyDefinitionInput.SameUpToOrder (a b : StrategyDefinitionInput) : Prop where
  timeframe : a.timeframe = b.timeframe
  universeAssetIds : a.universeAssetIds.Perm b.universeAssetIds
  parameters : a.parameters.same eqFloat b.parameters = true
  signals : ∃ signals, a.signals.Perm signals ∧
    List.Forall₂ (SignalDefinition.Same eqFloat) signals b.signals
  position : a.position.Same eqFloat b.position
  execution : a.execution.Same eqFloat b.execution
  implementation : a.implementation = b.implementation
  benchmarkAssetId : a.benchmarkAssetId = b.benchmarkAssetId

end

/-! ### Sameness of dumps -/

theorem same_natJson {m n : ℕ} : Json.same Json.exactly (natJson m) (natJson n) = true ↔ m = n := by
  simp [natJson, Json.same, Json.sameNumber]

theorem same_str {s t : String} : Json.same Json.exactly (.str s) (.str t) = true ↔ s = t := by
  simp [Json.same]

theorem same_bool {b c : Bool} : Json.same Json.exactly (.bool b) (.bool c) = true ↔ b = c := by
  simp [Json.same]

theorem same_float {f g : PyFloat} :
    Json.same Json.exactly (.number (.float f)) (.number (.float g)) = true ↔
      Json.exactly f g = true := by
  rw [Json.same, Json.sameNumber]

theorem InstrumentSnapshot.same_modelDump {i j : InstrumentSnapshot} :
    Json.same Json.exactly i.modelDump j.modelDump = true ↔ i = j := by
  have hkeys : InstrumentSnapshot.keys.Nodup := by decide
  have hrecord := Json.same_record (E := Json.exactly) hkeys
    [natJson i.assetId, .str i.symbol, .str i.exchange, .str i.assetType]
    [natJson j.assetId, .str j.symbol, .str j.exchange, .str j.assetType] rfl rfl
  refine hrecord.trans ?_
  simp only [List.forall₂_cons, List.Forall₂.nil, same_natJson, same_str, and_true]
  constructor
  · rintro ⟨hid, hsymbol, hexchange, htype⟩
    cases i
    cases j
    cases hid
    cases hsymbol
    cases hexchange
    cases htype
    rfl
  · rintro rfl
    exact ⟨rfl, rfl, rfl, rfl⟩

theorem SignalRole.value_inj {r q : SignalRole} :
    SignalRole.value r = SignalRole.value q ↔ r = q := by
  cases r <;> cases q <;> decide

theorem SignalDirection.value_inj {d e : SignalDirection} :
    SignalDirection.value d = SignalDirection.value e ↔ d = e := by
  cases d <;> cases e <;> decide

theorem PositionMode.value_inj {m n : PositionMode} :
    PositionMode.value m = PositionMode.value n ↔ m = n := by
  cases m <;> cases n <;> decide

theorem ExecutionTiming.value_inj {t u : ExecutionTiming} :
    ExecutionTiming.value t = ExecutionTiming.value u ↔ t = u := by
  cases t <;> cases u <;> decide

theorem OrderType.value_inj {o p : OrderType} : o.value = p.value ↔ o = p := by
  cases o <;> cases p <;> decide

theorem ImplementationKind.value_inj {k l : ImplementationKind} :
    ImplementationKind.value k = ImplementationKind.value l ↔ k = l := by
  cases k <;> cases l <;> decide

theorem StrategyTimeframe.value_inj {f g : StrategyTimeframe} : f.value = g.value ↔ f = g := by
  cases f <;> cases g <;> decide

theorem SignalDefinition.same_modelDump {s t : SignalDefinition} :
    Json.same Json.exactly s.modelDump t.modelDump = true ↔ s.Same Json.exactly t := by
  have hkeys : SignalDefinition.keys.Nodup := by decide
  have hrecord := Json.same_record (E := Json.exactly) hkeys
    [.str s.signalId, .str (SignalRole.value s.role), .str (SignalDirection.value s.direction),
      natJson s.priority, s.definition.modelDump]
    [.str t.signalId, .str (SignalRole.value t.role), .str (SignalDirection.value t.direction),
      natJson t.priority, t.definition.modelDump] rfl rfl
  refine hrecord.trans ?_
  simp only [List.forall₂_cons, List.Forall₂.nil, same_natJson, same_str, and_true,
    SignalRole.value_inj, SignalDirection.value_inj]
  constructor
  · rintro ⟨hid, hrole, hdirection, hpriority, hdefinition⟩
    exact ⟨hid, hrole, hdirection, hpriority, hdefinition⟩
  · intro h
    exact ⟨h.signalId, h.role, h.direction, h.priority, h.definition⟩

theorem PositionRules.same_modelDump {p q : PositionRules} :
    Json.same Json.exactly p.modelDump q.modelDump = true ↔ p.Same Json.exactly q := by
  have hkeys : PositionRules.keys.Nodup := by decide
  have hrecord := Json.same_record (E := Json.exactly) hkeys
    [.str (PositionMode.value p.mode), natJson p.maxOpenPositions, .bool p.allowReversal,
      p.sizing.modelDump]
    [.str (PositionMode.value q.mode), natJson q.maxOpenPositions, .bool q.allowReversal,
      q.sizing.modelDump] rfl rfl
  refine hrecord.trans ?_
  simp only [List.forall₂_cons, List.Forall₂.nil, same_natJson, same_str, same_bool, and_true,
    PositionMode.value_inj]
  constructor
  · rintro ⟨hmode, hmax, hreversal, hsizing⟩
    exact ⟨hmode, hmax, hreversal, hsizing⟩
  · intro h
    exact ⟨h.mode, h.maxOpenPositions, h.allowReversal, h.sizing⟩

theorem ExecutionAssumptions.same_modelDump {e f : ExecutionAssumptions} :
    Json.same Json.exactly e.modelDump f.modelDump = true ↔ e.Same Json.exactly f := by
  have hkeys : ExecutionAssumptions.keys.Nodup := by decide
  have hrecord := Json.same_record (E := Json.exactly) hkeys
    [.str (ExecutionTiming.value e.timing), .str e.orderType.value, .number (.float e.feeBps),
      .number (.float e.slippageBps), natJson e.latencyMs]
    [.str (ExecutionTiming.value f.timing), .str f.orderType.value, .number (.float f.feeBps),
      .number (.float f.slippageBps), natJson f.latencyMs] rfl rfl
  refine hrecord.trans ?_
  simp only [List.forall₂_cons, List.Forall₂.nil, same_natJson, same_str, same_float, and_true,
    ExecutionTiming.value_inj, OrderType.value_inj]
  constructor
  · rintro ⟨htiming, horder, hfee, hslippage, hlatency⟩
    exact ⟨htiming, horder, hfee, hslippage, hlatency⟩
  · intro h
    exact ⟨h.timing, h.orderType, h.feeBps, h.slippageBps, h.latencyMs⟩

theorem StrategyImplementation.same_modelDump {i j : StrategyImplementation} :
    Json.same Json.exactly i.modelDump j.modelDump = true ↔ i = j := by
  have hkeys : StrategyImplementation.keys.Nodup := by decide
  have hrecord := Json.same_record (E := Json.exactly) hkeys
    [.str (ImplementationKind.value i.kind), .str i.identifier, .str i.revision]
    [.str (ImplementationKind.value j.kind), .str j.identifier, .str j.revision] rfl rfl
  refine hrecord.trans ?_
  simp only [List.forall₂_cons, List.Forall₂.nil, same_str, and_true, ImplementationKind.value_inj]
  constructor
  · rintro ⟨hkind, hidentifier, hrevision⟩
    cases i
    cases j
    cases hkind
    cases hidentifier
    cases hrevision
    rfl
  · rintro rfl
    exact ⟨rfl, rfl, rfl⟩

theorem same_benchmark {b c : Option InstrumentSnapshot} :
    Json.same Json.exactly (optionJson InstrumentSnapshot.modelDump b)
      (optionJson InstrumentSnapshot.modelDump c) = true ↔ b = c := by
  cases b with
  | none =>
    cases c with
    | none => exact ⟨fun _ => rfl, fun _ => by simp [optionJson, Json.same]⟩
    | some j => simp [optionJson, Json.same, InstrumentSnapshot.modelDump]
  | some i =>
    cases c with
    | none => simp [optionJson, Json.same, InstrumentSnapshot.modelDump]
    | some j =>
      rw [optionJson, optionJson, InstrumentSnapshot.same_modelDump, Option.some.injEq]

theorem same_list {α : Type} {dump : α → Json} {R : α → α → Prop}
    (h : ∀ a b, Json.same Json.exactly (dump a) (dump b) = true ↔ R a b) {xs ys : List α} :
    Json.same Json.exactly (.arr (xs.map dump)) (.arr (ys.map dump)) = true ↔
      List.Forall₂ R xs ys := by
  rw [Json.same, Json.sameItems_iff, List.forall₂_map_left_iff, List.forall₂_map_right_iff]
  simp only [h]

/-- What the dump of a canonical definition tells. -/
structure CanonicalStrategyDefinition.Same (d e : CanonicalStrategyDefinition) : Prop where
  timeframe : d.timeframe = e.timeframe
  «universe» : d.universe = e.universe
  parameters : d.parameters.same Json.exactly e.parameters = true
  signals : List.Forall₂ (SignalDefinition.Same Json.exactly) d.signals e.signals
  position : d.position.Same Json.exactly e.position
  execution : d.execution.Same Json.exactly e.execution
  implementation : d.implementation = e.implementation
  benchmark : d.benchmark = e.benchmark

theorem CanonicalStrategyDefinition.same_modelDump {d e : CanonicalStrategyDefinition} :
    Json.same Json.exactly d.modelDump e.modelDump = true ↔ d.Same e := by
  have hkeys : CanonicalStrategyDefinition.keys.Nodup := by decide
  have hrecord := Json.same_record (E := Json.exactly) hkeys
    [.str schemaVersion, .str d.timeframe.value, .arr (d.universe.map (·.modelDump)),
      d.parameters.modelDump, .arr (d.signals.map (·.modelDump)), d.position.modelDump,
      d.execution.modelDump, d.implementation.modelDump,
      optionJson InstrumentSnapshot.modelDump d.benchmark]
    [.str schemaVersion, .str e.timeframe.value, .arr (e.universe.map (·.modelDump)),
      e.parameters.modelDump, .arr (e.signals.map (·.modelDump)), e.position.modelDump,
      e.execution.modelDump, e.implementation.modelDump,
      optionJson InstrumentSnapshot.modelDump e.benchmark] rfl rfl
  refine hrecord.trans ?_
  simp only [List.forall₂_cons, List.Forall₂.nil, and_true, same_str, true_and,
    StrategyTimeframe.value_inj, same_list fun _ _ => InstrumentSnapshot.same_modelDump,
    same_list fun _ _ => SignalDefinition.same_modelDump, PositionRules.same_modelDump,
    ExecutionAssumptions.same_modelDump, StrategyImplementation.same_modelDump, same_benchmark,
    List.forall₂_eq_eq_eq]
  constructor
  · rintro ⟨htimeframe, huniverse, hparameters, hsignals, hposition, hexecution, himpl, hbenchmark⟩
    exact ⟨htimeframe, huniverse, hparameters, hsignals, hposition, hexecution, himpl, hbenchmark⟩
  · intro h
    exact ⟨h.timeframe, h.universe, h.parameters, h.signals, h.position, h.execution,
      h.implementation, h.benchmark⟩

/-! ### Submitted definitions -/

instance : Std.Total SignalDefinition.le where
  total s t := by
    rcases lt_trichotomy s.priority t.priority with h | h | h
    · exact .inl (.inl h)
    · rcases le_total s.signalId t.signalId with hle | hle
      · exact .inl (.inr ⟨h, hle⟩)
      · exact .inr (.inr ⟨h.symm, hle⟩)
    · exact .inr (.inl h)

instance : IsTrans SignalDefinition SignalDefinition.le where
  trans s t u hst htu := by
    rcases hst with hst | ⟨hst, hle⟩
    · rcases htu with htu | ⟨htu, _⟩
      · exact .inl (hst.trans htu)
      · exact .inl (htu ▸ hst)
    · rcases htu with htu | ⟨htu, hle'⟩
      · exact .inl (hst ▸ htu)
      · exact .inr ⟨hst.trans htu, hle.trans hle'⟩

/-- A definition that is accepted. -/
structure CanonicalStrategyDefinition.Resolves (d : CanonicalStrategyDefinition)
    (a : StrategyDefinitionInput) (assetsById : ℕ → Option InstrumentSnapshot) : Prop where
  known : ∀ id ∈ a.universeAssetIds ++ a.benchmarkAssetId.toList, (assetsById id).isSome = true
  timeframe : d.timeframe = a.timeframe
  «universe» : d.universe = (a.universeAssetIds.insertionSort (· ≤ ·)).filterMap assetsById
  parameters : d.parameters = a.parameters
  signals : d.signals = a.signals.insertionSort SignalDefinition.le
  position : d.position = a.position
  execution : d.execution = a.execution
  implementation : d.implementation = a.implementation
  benchmark : d.benchmark = a.benchmarkAssetId.bind assetsById

theorem CanonicalStrategyDefinition.resolves {a : StrategyDefinitionInput}
    {assetsById : ℕ → Option InstrumentSnapshot} {d : CanonicalStrategyDefinition}
    (h : CanonicalStrategyDefinition.fromInput a assetsById = .ok d) : d.Resolves a assetsById := by
  simp only [fromInput] at h
  split_ifs at h with hmissing
  · cases h
  have hknown : ∀ id ∈ a.universeAssetIds ++ a.benchmarkAssetId.toList,
      (assetsById id).isSome = true := by
    intro id hid
    rw [ne_eq, not_not] at hmissing
    have hfilter := (List.perm_insertionSort (· ≤ ·) _).symm.trans (.of_eq hmissing)
    rw [List.perm_nil, List.filter_eq_nil_iff] at hfilter
    have hsome := hfilter id (List.mem_dedup.mpr hid)
    rwa [Option.isNone_iff_eq_none, ← ne_eq, ← Option.isSome_iff_ne_none] at hsome
  simp only [validate] at h
  split_ifs at h
  cases h
  exact ⟨hknown, rfl, rfl, rfl, rfl, rfl, rfl, rfl, rfl⟩

section
variable {a b : StrategyDefinitionInput} {assetsById : ℕ → Option InstrumentSnapshot}
  {d e : CanonicalStrategyDefinition}
  (hassets : ∀ id i, assetsById id = some i → i.assetId = id)

include hassets in
theorem ids_filterMap (ids : List ℕ) (h : ∀ id ∈ ids, (assetsById id).isSome = true) :
    (ids.filterMap assetsById).map (·.assetId) = ids := by
  induction ids with
  | nil => rfl
  | cons id rest ih =>
    obtain ⟨i, hi⟩ := Option.isSome_iff_exists.mp (h id List.mem_cons_self)
    rw [List.filterMap_cons_some hi, List.map_cons, hassets id i hi,
      ih fun id' hid' => h id' (List.mem_cons_of_mem _ hid')]

include hassets in
theorem universe_eq_iff (hd : d.Resolves a assetsById) (he : e.Resolves b assetsById) :
    d.universe = e.universe ↔ a.universeAssetIds.Perm b.universeAssetIds := by
  have hids : ∀ {c : StrategyDefinitionInput} {f : CanonicalStrategyDefinition},
      f.Resolves c assetsById →
      f.universe.map (·.assetId) = c.universeAssetIds.insertionSort (· ≤ ·) := by
    intro c f hf
    rw [hf.universe]
    refine ids_filterMap hassets _ fun id hid => hf.known id (List.mem_append_left _ ?_)
    exact (List.perm_insertionSort _ _).subset hid
  constructor
  · intro h
    have hsorted := (hids hd).symm.trans ((congrArg _ h).trans (hids he))
    exact ((List.perm_insertionSort _ _).symm.trans (.of_eq hsorted)).trans
      (List.perm_insertionSort _ _)
  · intro h
    have hperm := (List.perm_insertionSort (· ≤ ·) a.universeAssetIds).trans
      (h.trans (List.perm_insertionSort (· ≤ ·) b.universeAssetIds).symm)
    have hsorted := hperm.eq_of_pairwise (fun _ _ _ _ hle hle' => le_antisymm hle hle')
      (List.pairwise_insertionSort _ _) (List.pairwise_insertionSort _ _)
    rw [hd.universe, he.universe, hsorted]

include hassets in
theorem benchmark_eq_iff (hd : d.Resolves a assetsById) (he : e.Resolves b assetsById) :
    d.benchmark = e.benchmark ↔ a.benchmarkAssetId = b.benchmarkAssetId := by
  have hid : ∀ {c : StrategyDefinitionInput} {f : CanonicalStrategyDefinition},
      f.Resolves c assetsById → f.benchmark.map (·.assetId) = c.benchmarkAssetId := by
    intro c f hf
    have hknown := hf.known
    rw [hf.benchmark]
    cases hbenchmark : c.benchmarkAssetId with
    | none => rfl
    | some id =>
      rw [hbenchmark] at hknown
      have hmem : id ∈ c.universeAssetIds ++ (some id).toList :=
        List.mem_append_right _ (List.mem_singleton.mpr rfl)
      obtain ⟨i, hi⟩ := Option.isSome_iff_exists.mp (hknown id hmem)
      rw [Option.bind_some, hi, Option.map_some, hassets id i hi]
  constructor
  · intro h
    rw [← hid hd, ← hid he, h]
  · intro h
    rw [hd.benchmark, he.benchmark, h]

end

theorem SignalDefinition.le_of_same {s s' t t' : SignalDefinition} (hs : s.Same Json.exactly s')
    (ht : t.Same Json.exactly t') (h : s'.le t') : s.le t := by
  rwa [SignalDefinition.le, hs.priority, ht.priority, hs.signalId, ht.signalId]

theorem pairwise_of_forall₂ {signals signals' : List SignalDefinition}
    (h : List.Forall₂ (SignalDefinition.Same Json.exactly) signals signals')
    (hsorted : signals'.Pairwise SignalDefinition.le) : signals.Pairwise SignalDefinition.le := by
  induction h with
  | nil => exact List.Pairwise.nil
  | @cons s s' rest rest' hs hrest ih =>
    obtain ⟨hhead, htail⟩ := List.pairwise_cons.mp hsorted
    refine List.pairwise_cons.mpr ⟨fun t ht => ?_, ih htail⟩
    obtain ⟨k, hk, rfl⟩ := List.mem_iff_getElem.mp ht
    have hk' : k < rest'.length := hrest.length_eq ▸ hk
    exact SignalDefinition.le_of_same hs (hrest.get hk hk') (hhead _ (List.getElem_mem hk'))

/-- One order sorts signals whose ids are distinct. -/
theorem insertionSort_signals {signals signals' : List SignalDefinition}
    (hunique : (signals.map (·.signalId)).Nodup) (hperm : signals.Perm signals')
    (hsorted : signals'.Pairwise SignalDefinition.le) :
    signals.insertionSort SignalDefinition.le = signals' := by
  have hsort := (List.perm_insertionSort SignalDefinition.le signals).trans hperm
  refine hsort.eq_of_pairwise (fun s t hs ht hle hle' => ?_) (List.pairwise_insertionSort _ _) hsorted
  have hid : s.signalId = t.signalId := by
    rcases hle with hlt | ⟨heq, hle⟩
    · rcases hle' with hlt' | ⟨heq', _⟩
      · exact absurd hlt (Nat.lt_asymm hlt')
      · exact absurd hlt (heq' ▸ lt_irrefl _)
    · rcases hle' with hlt' | ⟨_, hle'⟩
      · exact absurd hlt' (heq ▸ lt_irrefl _)
      · exact le_antisymm hle hle'
  have hs' := (List.perm_insertionSort SignalDefinition.le signals).subset hs
  exact List.inj_on_of_nodup_map hunique hs' (hperm.symm.subset ht) hid

theorem signals_iff {a b : StrategyDefinitionInput} :
    List.Forall₂ (SignalDefinition.Same Json.exactly)
        (a.signals.insertionSort SignalDefinition.le)
        (b.signals.insertionSort SignalDefinition.le) ↔
      ∃ signals, a.signals.Perm signals ∧
        List.Forall₂ (SignalDefinition.Same Json.exactly) signals b.signals := by
  have hperm : ∀ signals : List SignalDefinition,
      (signals.insertionSort SignalDefinition.le).Perm signals := List.perm_insertionSort _
  constructor
  · intro h
    have hcomp : Relation.Comp (List.Forall₂ (SignalDefinition.Same Json.exactly)) List.Perm
        (a.signals.insertionSort SignalDefinition.le) b.signals := ⟨_, h, hperm b.signals⟩
    rw [List.forall₂_comp_perm_eq_perm_comp_forall₂] at hcomp
    obtain ⟨signals, hsignals, hsame⟩ := hcomp
    exact ⟨signals, (hperm a.signals).symm.trans hsignals, hsame⟩
  · rintro ⟨signals, hsignals, hsame⟩
    have hcomp : Relation.Comp (List.Forall₂ (SignalDefinition.Same Json.exactly)) List.Perm
        signals (b.signals.insertionSort SignalDefinition.le) :=
      ⟨b.signals, hsame, (hperm b.signals).symm⟩
    rw [List.forall₂_comp_perm_eq_perm_comp_forall₂] at hcomp
    obtain ⟨ordered, hordered, hsame'⟩ := hcomp
    have hsorted := pairwise_of_forall₂ hsame' (List.pairwise_insertionSort _ b.signals)
    rw [insertionSort_signals a.identified (hsignals.trans hordered) hsorted]
    exact hsame'

/-- Two definitions resolved with the same snapshots have one canonical text exactly when they are
the same up to the order of assets, signals and keys. -/
theorem CanonicalStrategyDefinition.fromInput_identity (a b : StrategyDefinitionInput)
    (assetsById : ℕ → Option InstrumentSnapshot)
    (hassets : ∀ id i, assetsById id = some i → i.assetId = id) {d e : CanonicalStrategyDefinition}
    (hd : fromInput a assetsById = .ok d) (he : fromInput b assetsById = .ok e) :
    d.canonicalJson = e.canonicalJson ↔ a.SameUpToOrder Json.exactly b := by
  have hd := resolves hd
  have he := resolves he
  rw [canonicalJson_eq_iff, same_modelDump]
  constructor
  · intro h
    refine ⟨?_, (universe_eq_iff hassets hd he).mp h.universe, ?_, ?_, ?_, ?_, ?_,
      (benchmark_eq_iff hassets hd he).mp h.benchmark⟩
    · rw [← hd.timeframe, ← he.timeframe, h.timeframe]
    · rw [← hd.parameters, ← he.parameters, h.parameters]
    · rw [← signals_iff, ← hd.signals, ← he.signals]
      exact h.signals
    · rw [← hd.position, ← he.position]
      exact h.position
    · rw [← hd.execution, ← he.execution]
      exact h.execution
    · rw [← hd.implementation, ← he.implementation, h.implementation]
  · intro h
    refine ⟨?_, (universe_eq_iff hassets hd he).mpr h.universeAssetIds, ?_, ?_, ?_, ?_, ?_,
      (benchmark_eq_iff hassets hd he).mpr h.benchmarkAssetId⟩
    · rw [hd.timeframe, he.timeframe, h.timeframe]
    · rw [hd.parameters, he.parameters, h.parameters]
    · rw [hd.signals, he.signals, signals_iff]
      exact h.signals
    · rw [hd.position, he.position]
      exact h.position
    · rw [hd.execution, he.execution]
      exact h.execution
    · rw [hd.implementation, he.implementation, h.implementation]

/-! A definition whose assets are written in either order, and one charged a negative zero. -/

def lookbackOf (n : ℤ) : JsonObject := ⟨[("lookback", .number (.int n))],
  List.nodup_singleton _, trivial, trivial⟩

theorem default_priority : 100 ≤ 1000000 := by decide

theorem one_position : 1 ≤ 1 ∧ 1 ≤ 10000 := by decide

theorem entry_coherent :
    LiveStrategy.SignalRole.entry = .exit ↔ LiveStrategy.SignalDirection.long = .flat := by
  decide

def momentumEntry : SignalDefinition where
  signalId := "enter"
  role := .entry
  direction := .long
  bounded := default_priority
  definition := lookbackOf 20
  nonempty := List.cons_ne_nil _ _
  coherent := entry_coherent

def positiveZero : PyFloat := ⟨false, 0, 0, PyFloat.zero_normal⟩

def negativeZero : PyFloat := ⟨true, 0, 0, PyFloat.zero_normal⟩

def momentum : StrategyDefinitionInput where
  timeframe := .oneHour
  universeAssetIds := [2, 1]
  parameters := lookbackOf 20
  signals := [momentumEntry]
  position := { mode := .longOnly, sizing := lookbackOf 1, bounded := one_position
                nonempty := List.cons_ne_nil _ _ }
  execution := { timing := .barClose, orderType := .market, feeBps := positiveZero,
                 slippageBps := positiveZero }
  implementation := { kind := .declarative, identifier := "momentum", revision := "1" }
  nonempty := ⟨List.cons_ne_nil _ _, List.cons_ne_nil _ _⟩
  positive := by decide
  unique := by decide
  identified := List.nodup_singleton _
  compatible := by simp [momentumEntry, PositionMode.allows]

def reordered : StrategyDefinitionInput :=
  { momentum with
    universeAssetIds := [1, 2]
    nonempty := ⟨List.cons_ne_nil _ _, List.cons_ne_nil _ _⟩
    positive := by decide
    unique := by decide }

def negativeFee : StrategyDefinitionInput :=
  { momentum with
    execution := { momentum.execution with
      feeBps := negativeZero
      charged := by decide } }

def bitcoin (id : ℕ) : Option InstrumentSnapshot := some ⟨id, "BTCUSDT", "BINANCE", "CRYPTO"⟩

def canonicalMomentum (execution : ExecutionAssumptions) : CanonicalStrategyDefinition where
  timeframe := .oneHour
  «universe» := [⟨1, "BTCUSDT", "BINANCE", "CRYPTO"⟩, ⟨2, "BTCUSDT", "BINANCE", "CRYPTO"⟩]
  parameters := lookbackOf 20
  signals := [momentumEntry]
  position := momentum.position
  execution := execution
  implementation := momentum.implementation
  benchmark := none
  nonempty := ⟨List.cons_ne_nil _ _, List.cons_ne_nil _ _⟩
  sorted := by decide
  ordered := List.pairwise_singleton _ _

theorem fromInput_identity_reordered : momentum.SameUpToOrder Json.exactly reordered :=
  (CanonicalStrategyDefinition.fromInput_identity momentum reordered bitcoin
    (fun id i h => by cases h; rfl) (d := canonicalMomentum momentum.execution)
    (e := canonicalMomentum momentum.execution) rfl rfl).mp rfl

/-- Equal fees, one of them a negative zero, give two texts. -/
theorem canonicalJson_negative_zero :
    ¬ ∀ (a b : StrategyDefinitionInput) (assetsById : ℕ → Option InstrumentSnapshot)
      (d e : CanonicalStrategyDefinition), (∀ id i, assetsById id = some i → i.assetId = id) →
      CanonicalStrategyDefinition.fromInput a assetsById = .ok d →
      CanonicalStrategyDefinition.fromInput b assetsById = .ok e →
      (d.canonicalJson = e.canonicalJson ↔ a.SameUpToOrder PyFloat.eq b) := by
  intro h
  have hiff := h momentum negativeFee bitcoin (canonicalMomentum momentum.execution)
    (canonicalMomentum negativeFee.execution) (fun id i h => by cases h; rfl) rfl rfl
  have hobject : ∀ n, (lookbackOf n).same PyFloat.eq (lookbackOf n) = true := by
    intro n
    simp [JsonObject.same, JsonObject.modelDump, lookbackOf, Json.same, Json.sameFields,
      Json.sameNumber]
  have hsame : momentum.SameUpToOrder PyFloat.eq negativeFee := by
    refine ⟨rfl, List.Perm.refl _, hobject 20, ⟨_, List.Perm.refl _, ?_⟩, ?_, ?_, rfl, rfl⟩
    · exact .cons ⟨rfl, rfl, rfl, rfl, hobject 20⟩ .nil
    · exact ⟨rfl, rfl, rfl, hobject 1⟩
    · exact ⟨rfl, rfl, by decide, by decide, rfl⟩
  have htext := hiff.mpr hsame
  rw [canonicalJson_eq_iff, CanonicalStrategyDefinition.same_modelDump] at htext
  exact absurd htext.execution.feeBps (by decide)

end Quantive.Strategies
