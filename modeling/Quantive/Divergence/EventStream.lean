import Quantive.Divergence.Removal
import Quantive.Divergence.Service
import Quantive.LiveStrategy.Positions

/-!
# One event stream on both sides

The input that `_build_input` makes of a reference and a live log that hold the same events.
-/

namespace Quantive.Divergence

open LiveStrategy (PositionState StrategyEventType LiveStrategyEvent LiveCandle)

/-- Sequences of events as `evaluate_live_candle` gives them, candle by candle. -/
inductive Emitted : List LiveStrategyEvent → Prop
  | nil : Emitted []
  | candle {events : List LiveStrategyEvent} (definition : LiveStrategy.CanonicalStrategyDefinition)
      (candle : LiveCandle) (state : LiveStrategy.LiveStrategyState) (canOpen : Bool)
      {outcome : LiveStrategy.LiveEvaluationOutcome}
      (evaluated : LiveStrategy.evaluateLiveCandle definition candle state.positionState
        state.lastCandleTimestamp canOpen = .ok outcome)
      (before : Emitted events) : Emitted (events ++ outcome.events.map (LiveStrategy.eventOf candle))

/-- What both tables store of an event. -/
structure StreamEvent where
  assetId : ℕ
  eventType : StrategyEventType
  eventTime : ℤ
  signalId : Option String
  positionState : Option PositionState
  deriving DecidableEq

def ofLive (e : LiveStrategyEvent) : StreamEvent :=
  ⟨e.assetId, e.eventType, e.eventTime, some e.signalId, some e.positionState⟩

def BacktestSignalRecord.event (r : BacktestSignalRecord) : StreamEvent :=
  ⟨r.assetId, r.eventType, r.eventTime, r.signalId, r.positionState⟩

def LiveEventRow.event (r : LiveEventRow) : StreamEvent :=
  ⟨r.assetId, r.eventType, r.eventTime, some r.signalId, some r.positionState⟩

def SignalPoint.event (p : SignalPoint) : StreamEvent :=
  ⟨p.assetId, p.eventType, p.eventTime, p.signalId, p.positionState⟩

/-- The reference stores exactly the events, under sequence numbers of any order. -/
def ReferenceHolds (rows : ComparisonRows) (runId : String) (events : List LiveStrategyEvent) : Prop :=
  ((rows.backtestSignals.filter fun r => r.runId = runId).map (·.event)).Perm (events.map ofLive)

/-- The live log stores exactly the events, under uuids of any order. -/
def LogHolds (rows : ComparisonRows) (activationId : ℕ) (events : List LiveStrategyEvent) : Prop :=
  ((rows.liveEvents.filter fun r => r.activationId = activationId).map (·.event)).Perm
    (events.map ofLive)

/-- A stream that is not empty has a signal event: every evaluation with events starts with one. -/
theorem Emitted.signal {events : List LiveStrategyEvent} (h : Emitted events) (hne : events ≠ []) :
    ∃ e ∈ events, e.eventType = .signal := by
  induction h with
  | nil => exact absurd rfl hne
  | @candle before definition candle state canOpen outcome evaluated hbefore ih =>
    by_cases hb : before = []
    · rcases LiveStrategy.evaluateLiveCandle_cases evaluated with hstill | ⟨-, -, -, signal, -, ht⟩
      · exact absurd (by simp [hb, hstill.2.2]) hne
      · refine ⟨LiveStrategy.eventOf candle ⟨.signal, signal.signalId, state.positionState⟩, ?_, rfl⟩
        rw [hb, List.nil_append]
        refine List.mem_map_of_mem ?_
        generalize outcome.positionAfter = after at ht
        generalize outcome.events = generated at ht
        cases ht <;> simp
    · obtain ⟨e, he, hsignal⟩ := ih hb
      exact ⟨e, List.mem_append_left _ he, hsignal⟩

/-! ### The input -/

theorem mapM_map {α β γ ε : Type} {f : α → Except ε β} {g : β → γ} {h : α → γ}
    (hfg : ∀ x y, f x = .ok y → g y = h x) {xs : List α} {ys : List β} (hrun : xs.mapM f = .ok ys) :
    ys.map g = xs.map h := by
  induction xs generalizing ys with
  | nil =>
    have hnil : ys = [] := (Except.ok.inj hrun).symm
    simp [hnil]
  | cons x xs ih =>
    rw [List.mapM_cons] at hrun
    cases hx : f x with
    | error e => simp [hx, bind, Except.bind] at hrun
    | ok y =>
      cases hrest : xs.mapM f with
      | error e => simp [hx, hrest, bind, Except.bind] at hrun
      | ok zs =>
        have hys : ys = y :: zs := by
          simpa [hx, hrest, bind, Except.bind, pure, Except.pure] using hrun.symm
        rw [hys, List.map_cons, List.map_cons, hfg x y hx, ih hrest]

theorem signalPoint_event {assetId : ℕ} {eventType : StrategyEventType} {eventTime : ℤ}
    {signalId : Option String} {positionState : Option PositionState} {sourceId : String}
    {p : SignalPoint}
    (h : signalPoint assetId eventType eventTime signalId positionState sourceId = .ok p) :
    p.event = ⟨assetId, eventType, eventTime, signalId, positionState⟩ := by
  unfold signalPoint validated at h
  split at h
  · rw [← Except.ok.inj h]
    rfl
  · cases h

section
variable {limit : ℕ} {rows : ComparisonRows} {supplement : ComparisonSupplement}
  {events : List LiveStrategyEvent}

theorem boundedRows_ok {α : Type} {records kept : List α} (h : boundedRows limit records = .ok kept) :
    kept = records := by
  unfold boundedRows at h
  split at h
  · cases h
  · exact (Except.ok.inj h).symm

/-- The events of the window are all events. -/
def InWindow (supplement : ComparisonSupplement) (events : List LiveStrategyEvent) : Prop :=
  ∀ e ∈ events, supplement.contains e.eventTime = true

/-- The reference side of the input holds the stream. -/
theorem backtestSignals_events {runId : String} (hin : InWindow supplement events)
    (hholds : ReferenceHolds rows runId events) {es : List SignalPoint}
    (h : backtestSignals limit rows supplement runId = .ok es) :
    (es.map SignalPoint.event).Perm (events.map ofLive) := by
  unfold backtestSignals at h
  cases hb : boundedRows limit (backtestSignalRows rows supplement runId) with
  | error e => simp [hb, bind, Except.bind] at h
  | ok records =>
    have hmap : records.mapM (backtestSignal runId) = .ok es := by
      simpa [hb, bind, Except.bind] using h
    rw [mapM_map (h := BacktestSignalRecord.event) (fun r p hp => signalPoint_event hp) hmap,
      boundedRows_ok hb]
    have hwindow : (rows.backtestSignals.filter fun r =>
        r.runId = runId && supplement.contains r.eventTime) =
        rows.backtestSignals.filter fun r => r.runId = runId := by
      refine List.filter_congr fun r hr => ?_
      by_cases hrun : r.runId = runId
      · have hmem : r.event ∈ events.map ofLive :=
          hholds.mem_iff.mp (List.mem_map_of_mem (List.mem_filter.mpr ⟨hr, by simpa using hrun⟩))
        obtain ⟨e, he, heq⟩ := List.mem_map.mp hmem
        have htime : e.eventTime = r.eventTime := congrArg StreamEvent.eventTime heq
        simp [hrun, ← htime, hin e he]
      · simp [hrun]
    have hsorted := List.perm_insertionSort
      (fun r s : BacktestSignalRecord =>
        r.eventTime < s.eventTime ∨ r.eventTime = s.eventTime ∧ r.sequence ≤ s.sequence)
      (rows.backtestSignals.filter fun r => r.runId = runId && supplement.contains r.eventTime)
    exact ((hsorted.trans (List.Perm.of_eq hwindow)).map _).trans hholds

/-- The observed side of the input holds it too. -/
theorem liveEvents_events {activationId : ℕ} (hin : InWindow supplement events)
    (hholds : LogHolds rows activationId events) {os : List SignalPoint}
    (h : liveEvents limit rows supplement activationId = .ok os) :
    (os.map SignalPoint.event).Perm (events.map ofLive) := by
  unfold liveEvents at h
  cases hb : boundedRows limit (liveEventRows rows supplement activationId) with
  | error e => simp [hb, bind, Except.bind] at h
  | ok records =>
    have hmap : records.mapM liveEvent = .ok os := by
      simpa [hb, bind, Except.bind] using h
    rw [mapM_map (h := LiveEventRow.event) (fun r p hp => signalPoint_event hp) hmap,
      boundedRows_ok hb]
    have hwindow : (rows.liveEvents.filter fun r =>
        r.activationId = activationId && supplement.contains r.eventTime) =
        rows.liveEvents.filter fun r => r.activationId = activationId := by
      refine List.filter_congr fun r hr => ?_
      by_cases hrun : r.activationId = activationId
      · have hmem : r.event ∈ events.map ofLive :=
          hholds.mem_iff.mp (List.mem_map_of_mem (List.mem_filter.mpr ⟨hr, by simpa using hrun⟩))
        obtain ⟨e, he, heq⟩ := List.mem_map.mp hmem
        have htime : e.eventTime = r.eventTime := congrArg StreamEvent.eventTime heq
        simp [hrun, ← htime, hin e he]
      · simp [hrun]
    have hsorted := List.perm_insertionSort
      (fun r s : LiveEventRow =>
        r.eventTime < s.eventTime ∨ r.eventTime = s.eventTime ∧ r.id ≤ s.id)
      (rows.liveEvents.filter fun r => r.activationId = activationId && supplement.contains r.eventTime)
    exact ((hsorted.trans (List.Perm.of_eq hwindow)).map _).trans hholds

theorem checked_ok {i j : ComparisonInput} (h : checked i = .ok j) : j = i := by
  unfold checked at h
  split at h
  · exact (Except.ok.inj h).symm
  · cases h

/-- The signals and positions of a built input. -/
theorem buildInput_parts {activation : ActivationRow} {reference : BacktestResult}
    {input : ComparisonInput} (hpositions : supplement.observedPositions = [])
    (h : buildInput limit rows supplement activation reference = .ok input) :
    backtestSignals limit rows supplement reference.runId = .ok input.expectedSignals ∧
      liveEvents limit rows supplement activation.id = .ok input.observedSignals ∧
      input.expectedPositions = input.expectedSignals.filterMap expectedPosition ∧
      input.observedPositions = input.observedSignals.filterMap observedPosition := by
  unfold buildInput at h
  cases hs : backtestSignals limit rows supplement reference.runId with
  | error e => simp [hs, bind, Except.bind] at h
  | ok es =>
    cases hl : liveEvents limit rows supplement activation.id with
    | error e => simp [hs, hl, bind, Except.bind] at h
    | ok os =>
      cases hob : liveObservations limit rows supplement activation.id with
      | error e => simp [hs, hl, hob, bind, Except.bind] at h
      | ok observations =>
        cases hx : backtestExecutions limit rows supplement reference.runId with
        | error e => simp [hs, hl, hob, hx, bind, Except.bind] at h
        | ok executions =>
          cases hp : windowPerformance supplement reference with
          | error e => simp [hs, hl, hob, hx, hp, bind, Except.bind] at h
          | ok performance =>
            simp only [hs, hl, hob, hx, hp, hpositions, bind, Except.bind] at h
            rw [checked_ok h]
            exact ⟨rfl, rfl, rfl, by simp⟩

/-! ### The positions -/

/-- The asset of the position that an event gives the expected side. -/
def StreamEvent.expectedAsset (e : StreamEvent) : Option ℕ := e.positionState.map fun _ => e.assetId

/-- The asset of the position that it gives the observed side. -/
def StreamEvent.observedAsset (e : StreamEvent) : Option ℕ :=
  if e.eventType = .entry ∨ e.eventType = .exit then e.expectedAsset else none

theorem expectedPosition_assets (ps : List SignalPoint) :
    (ps.filterMap expectedPosition).map (·.assetId) =
      (ps.map SignalPoint.event).filterMap StreamEvent.expectedAsset := by
  rw [List.map_filterMap, List.filterMap_map]
  refine List.filterMap_congr fun p _ => ?_
  cases h : p.positionState <;>
    simp [expectedPosition, StreamEvent.expectedAsset, SignalPoint.event, h]

theorem observedPosition_assets (ps : List SignalPoint) :
    (ps.filterMap observedPosition).map (·.assetId) =
      (ps.map SignalPoint.event).filterMap StreamEvent.observedAsset := by
  rw [List.map_filterMap, List.filterMap_map]
  refine List.filterMap_congr fun p _ => ?_
  by_cases ht : p.eventType = .entry ∨ p.eventType = .exit
  · cases h : p.positionState <;>
      simp [observedPosition, expectedPosition, StreamEvent.observedAsset,
        StreamEvent.expectedAsset, SignalPoint.event, h, ht]
  · simp [observedPosition, StreamEvent.observedAsset, SignalPoint.event, ht]

theorem length_filter_key (ps : List PositionPoint) (a : ℕ) :
    (ps.filter fun p => p.key = [.number a]).length = (ps.map (·.assetId)).count a := by
  rw [List.count, List.countP_map, List.countP_eq_length_filter]
  congr 1
  refine List.filter_congr fun p _ => ?_
  simp [PositionPoint.key, beq_eq_decide]

theorem expectedAssets_ofLive (es : List LiveStrategyEvent) :
    (es.map ofLive).filterMap StreamEvent.expectedAsset = es.map (·.assetId) := by
  rw [List.filterMap_map, ← List.filterMap_eq_map]
  rfl

/-- A signal event gives the expected side a position and the observed side none. -/
theorem observedAssets_lt {es : List LiveStrategyEvent} {e : LiveStrategyEvent} (he : e ∈ es)
    (hsignal : e.eventType = .signal) :
    ((es.map ofLive).filterMap StreamEvent.observedAsset).count e.assetId <
      (es.map (·.assetId)).count e.assetId := by
  have hsub : ∀ xs : List LiveStrategyEvent,
      ((xs.map ofLive).filterMap StreamEvent.observedAsset).count e.assetId ≤
        (xs.map (·.assetId)).count e.assetId := by
    intro xs
    rw [← expectedAssets_ofLive]
    induction xs with
    | nil => simp
    | cons x xs ih =>
      by_cases ht : x.eventType = .entry ∨ x.eventType = .exit
      · have hsome : StreamEvent.observedAsset (ofLive x) = some x.assetId := by
          simp [StreamEvent.observedAsset, StreamEvent.expectedAsset, ofLive, ht]
        have hexp : StreamEvent.expectedAsset (ofLive x) = some x.assetId := rfl
        simp only [List.map_cons, List.filterMap_cons, hsome, hexp, List.count_cons]
        omega
      · have hnone : StreamEvent.observedAsset (ofLive x) = none := by
          simp [StreamEvent.observedAsset, ofLive, ht]
        have hexp : StreamEvent.expectedAsset (ofLive x) = some x.assetId := rfl
        simp only [List.map_cons, List.filterMap_cons, hnone, hexp, List.count_cons]
        omega
  obtain ⟨before, after, rfl⟩ := List.append_of_mem he
  have hnone : StreamEvent.observedAsset (ofLive e) = none := by
    simp [StreamEvent.observedAsset, ofLive, hsignal]
  have hb := hsub before
  have ha := hsub after
  simp only [List.map_append, List.map_cons, List.filterMap_append, List.filterMap_cons, hnone,
    List.count_append, List.count_cons_self]
  omega

/-- A key with more expected than observed positions leaves one alone. -/
theorem exists_expectedOnly {es os : List PositionPoint} {m : KeyedPairing.Matching PositionPoint}
    {a : ℕ} (hm : pairPoints (·.timestamp) PositionPoint.key es os = .ok m)
    (hlt : (os.map (·.assetId)).count a < (es.map (·.assetId)).count a) :
    ∃ x, x ∈ m.expectedOnly := by
  obtain ⟨r, s, u, hr, hs, -, rfl⟩ := pairPoints_spec hm
  obtain ⟨hrperm, -⟩ := chronological_spec hr
  obtain ⟨hsperm, -⟩ := chronological_spec hs
  have hdrop := (KeyedPairing.matched_pairUp PositionPoint.key r s [.number a]).expectedOnly
  have hr' := length_filter_key r a
  have hs' := length_filter_key s a
  rw [(hrperm.map _).count_eq] at hr'
  rw [(hsperm.map _).count_eq] at hs'
  have hlength := congrArg List.length hdrop
  rw [List.length_drop] at hlength
  have hpos : 0 < ((KeyedPairing.pairUp PositionPoint.key r s).expectedOnly.filter
      fun x => x.key = [.number a]).length := by omega
  obtain ⟨x, hx⟩ := List.exists_mem_of_length_pos hpos
  exact ⟨x, List.mem_of_mem_filter hx⟩

theorem comparePositions_only {i : ComparisonInput} {p : List DivergenceFinding}
    (h : comparePositions i = .ok p) :
    ∃ m, pairPoints (·.timestamp) PositionPoint.key i.expectedPositions i.observedPositions = .ok m ∧
      ∀ y ∈ m.expectedOnly, missingPosition i y ∈ p := by
  unfold comparePositions at h
  cases hm : pairPoints (·.timestamp) PositionPoint.key i.expectedPositions i.observedPositions with
  | error e => simp [hm, bind, Except.bind] at h
  | ok m =>
    cases hp : m.pairs.mapM (positionPair i) with
    | error e => simp [hm, hp, bind, Except.bind] at h
    | ok fss =>
      simp only [hm, hp, bind, Except.bind, pure, Except.pure, Except.ok.injEq] at h
      refine ⟨m, rfl, fun y hy => ?_⟩
      have hin : missingPosition i y ∈ m.expectedOnly.map (missingPosition i) :=
        List.mem_map_of_mem hy
      simp [← h, hin]

/-- Without signals and positions there is nothing to report about them. -/
theorem category_of_empty {i : ComparisonInput} {fs : List DivergenceFinding}
    (hall : allFindings i = .ok fs) (hes : i.expectedSignals = []) (hos : i.observedSignals = [])
    (hep : i.expectedPositions = []) (hop : i.observedPositions = []) :
    ∀ f ∈ fs, f.category ≠ "signal" ∧ f.category ≠ "position" := by
  obtain ⟨s, c, x, p, m, hs, hc, hx, hp, hm, rfl⟩ := allFindings_parts hall
  have hsnil : s = [] := by
    have hrun : compareSignals i = .ok [] := by
      unfold compareSignals
      rw [hes, hos]
      rfl
    exact Except.ok.inj (hs.symm.trans hrun)
  have hpnil : p = [] := by
    have hrun : comparePositions i = .ok [] := by
      unfold comparePositions
      rw [hep, hop]
      rfl
    exact Except.ok.inj (hp.symm.trans hrun)
  intro f hf
  rw [hsnil, hpnil] at hf
  simp only [List.append_nil, List.mem_append] at hf
  rcases hf with (((h | h) | h) | h) | h
  · obtain ⟨category, hlist, hissued⟩ := issued_identity h
    have hnone : ∀ name ∈ ["coverage", "strategy_identity", "strategy_state"],
        name ≠ "signal" ∧ name ≠ "position" := by decide
    rw [hissued.category]
    exact hnone category hlist
  · obtain ⟨issue, -, rfl⟩ := List.mem_map.mp h
    by_cases ht : issue.divergenceType = .evaluatorFailure <;> simp [issueFinding, finding, ht]
  · rw [(yields_candles c hc f h).category]
    decide
  · rw [(yields_executions x hx f h).category]
    decide
  · rw [(yields_performance m hm f h).category]
    decide

end

/-- When both sides hold one stream of events, the comparison is silent about signals and positions
exactly when the stream is empty. -/
theorem sameStream_silent_iff (digest : FindingPayload → ℕ) (limit : ℕ) (rows : ComparisonRows)
    (activation : ActivationRow) (reference : BacktestResult) (supplement : ComparisonSupplement)
    (events : List LiveStrategyEvent) (input : ComparisonInput) (result : ComparisonResult)
    (hemitted : Emitted events) (hwindow : InWindow supplement events)
    (hreference : ReferenceHolds rows reference.runId events)
    (hlog : LogHolds rows activation.id events) (hpositions : supplement.observedPositions = [])
    (hbuilt : buildInput limit rows supplement activation reference = .ok input)
    (hdigest : CollisionFree digest input) (hresult : compare input digest = .ok result) :
    (∀ f ∈ result.findings, f.category ≠ "signal" ∧ f.category ≠ "position") ↔ events = [] := by
  obtain ⟨hes, hos, hep, hop⟩ := buildInput_parts hpositions hbuilt
  have hexpected := backtestSignals_events hwindow hreference hes
  have hobserved := liveEvents_events hwindow hlog hos
  cases hall : allFindings input with
  | error e => simp [compare, hall, bind, Except.bind] at hresult
  | ok fs =>
    have heq : resultOf input digest fs = result := by
      simpa [compare, hall, bind, Except.bind, pure, Except.pure] using hresult
    constructor
    · intro hsilent
      by_contra hne
      obtain ⟨e, he, hsignal⟩ := hemitted.signal hne
      obtain ⟨s, c, x, p, m, -, -, -, hp, -, hfs⟩ := allFindings_parts hall
      obtain ⟨n, hn, honly⟩ := comparePositions_only hp
      have hcount : (input.observedPositions.map (·.assetId)).count e.assetId <
          (input.expectedPositions.map (·.assetId)).count e.assetId := by
        rw [hep, hop, expectedPosition_assets, observedPosition_assets,
          (hexpected.filterMap _).count_eq, (hobserved.filterMap _).count_eq, expectedAssets_ofLive]
        exact observedAssets_lt he hsignal
      obtain ⟨y, hy⟩ := exists_expectedOnly hn hcount
      have hin : missingPosition input y ∈ fs := by
        rw [hfs]
        simp only [List.mem_append]
        exact Or.inl (Or.inr (honly y hy))
      have hfound : missingPosition input y ∈ result.findings := by
        rw [← heq]
        exact ((hdigest.determined hall).findings.2 _).mpr hin
      exact (hsilent _ hfound).2 rfl
    · rintro rfl f hf
      have hnone : ∀ ps : List SignalPoint, (ps.map SignalPoint.event).Perm ([] : List StreamEvent) →
          ps = [] := fun ps h => by simpa using h
      have hes' := hnone _ hexpected
      have hos' := hnone _ hobserved
      rw [← heq] at hf
      refine category_of_empty hall hes' hos' ?_ ?_ f (mem_of_findings hf)
      · rw [hep, hes']
        rfl
      · rw [hop, hos']
        rfl

/-! ### One entry -/

/-- A candle above the threshold of `LiveStrategy.crossing`. -/
def risingCandle : LiveCandle where
  assetId := 1
  timestamp := minute
  «open» := 2
  high := 2
  low := 2
  close := 2
  volume := 0
  valid := by decide +kernel

def risingEvents : List LiveStrategyEvent :=
  [⟨1, minute, minute, .signal, "crossing", .flat⟩, ⟨1, minute, minute, .entry, "crossing", .long⟩]

def risingRows : ComparisonRows where
  backtestSignals :=
    [⟨"reference", 1, 1, .signal, minute, some "crossing", some .flat⟩,
      ⟨"reference", 2, 1, .entry, minute, some "crossing", some .long⟩]
  liveEvents := [⟨8, 5, 1, .signal, minute, "crossing", .flat⟩, ⟨3, 5, 1, .entry, minute, "crossing", .long⟩]

def sampleActivation : ActivationRow := ⟨5, sampleIdentity, sampleIdentity.strategyDefinitionHash⟩

def sampleReference : BacktestResult where
  runId := "reference"
  identity := sampleIdentity
  resultHash := "result"
  dataSource := "database"
  dataVersion := "1"
  dataCoverageFingerprint := none
  startTime := 0
  endTime := day
  totalReturn := none
  maxDrawdown := none
  annualizedVolatility := none
  tradeCount := 0
  winningTradeCount := 0
  benchmarkReturn := none

def sampleSupplement : ComparisonSupplement where
  policy := zeroTolerance
  windowStart := 0
  windowEnd := hour

def risingInput : ComparisonInput :=
  match buildInput 10 risingRows sampleSupplement sampleActivation sampleReference with
  | .ok input => input
  | .error _ => quietHour

theorem risingEvents_emitted : Emitted risingEvents := by
  have hrun : LiveStrategy.evaluateLiveCandle (LiveStrategy.crossing false) risingCandle .flat none true =
      .ok { status := .evaluated, positionBefore := .flat, positionAfter := .long,
            signalId := some "crossing",
            events := [⟨.signal, "crossing", .flat⟩, ⟨.entry, "crossing", .long⟩] } := by
    decide +kernel
  exact Emitted.candle (LiveStrategy.crossing false) risingCandle { assetId := 1 } true hrun .nil

theorem risingInput_built :
    buildInput 10 risingRows sampleSupplement sampleActivation sampleReference = .ok risingInput := by
  rfl

/-- A fingerprint that tells findings of different explanations apart. -/
def textDigest (p : FindingPayload) : ℕ := p.explanation.length

def risingFindings : List DivergenceFinding :=
  match allFindings risingInput with
  | .ok fs => fs
  | .error _ => []

theorem risingInput_findings : allFindings risingInput = .ok risingFindings := by rfl

/-- The fingerprints of the three findings differ. -/
theorem risingInput_free : CollisionFree textDigest risingInput := by
  intro fs hfs
  rw [Except.ok.inj (hfs.symm.trans risingInput_findings)]
  decide +kernel

theorem rising_reference : ReferenceHolds risingRows sampleReference.runId risingEvents :=
  List.Perm.refl _

theorem rising_log : LogHolds risingRows sampleActivation.id risingEvents := List.Perm.refl _

theorem rising_window : InWindow sampleSupplement risingEvents := by
  unfold InWindow
  decide

/-- One entry on both sides, and two findings about its position. -/
theorem risingStream_diverges :
    Emitted risingEvents ∧ InWindow sampleSupplement risingEvents ∧
      ReferenceHolds risingRows sampleReference.runId risingEvents ∧
      LogHolds risingRows sampleActivation.id risingEvents ∧
      buildInput 10 risingRows sampleSupplement sampleActivation sampleReference = .ok risingInput ∧
      compare risingInput textDigest = .ok (resultOf risingInput textDigest risingFindings) ∧
      ((resultOf risingInput textDigest risingFindings).findings.filter
        fun f => f.category = "position").length = 2 :=
  ⟨risingEvents_emitted, rising_window, rising_reference, rising_log, risingInput_built, by rfl,
    by decide +kernel⟩

theorem risingStream_silent_iff :
    (∀ f ∈ (resultOf risingInput textDigest risingFindings).findings,
      f.category ≠ "signal" ∧ f.category ≠ "position") ↔ risingEvents = [] :=
  sameStream_silent_iff textDigest 10 risingRows sampleActivation sampleReference sampleSupplement
    risingEvents risingInput _ risingEvents_emitted rising_window rising_reference rising_log rfl
    risingInput_built risingInput_free (by rfl)

end Quantive.Divergence
