import Mathlib.Data.List.Chain
import Quantive.LiveStrategy.Positions

/-!
# Exactly-once evaluation

An evaluated candle is aligned, behind the cursor and no gap away from it, so it is the next
one; and only an evaluated candle moves the cursor. Along every run the committed evaluations
of an asset are therefore one contiguous series that ends at its cursor.
-/

namespace Quantive.LiveStrategy

/-- The open times of an asset's evaluated candles, in evaluation order. -/
def evaluatedTimes (observations : List LiveStrategyObservation) (assetId : ℕ) : List ℤ :=
  (observations.filter fun o => o.assetId = assetId && o.status = .evaluated).map
    (·.candleTimestamp)

/-- No candle is evaluated twice and none in between is skipped. -/
def ExactlyOnce (rt : LiveRuntime) : Prop :=
  ∀ assetId, (evaluatedTimes rt.observations assetId).Nodup ∧
    (evaluatedTimes rt.observations assetId).IsChain
      fun t t' => t' = t + rt.definition.timeframe.interval

/-- The evaluations of every asset are a contiguous series that ends at the cursor. -/
structure Contiguous (rt : LiveRuntime) : Prop where
  chain : ∀ assetId, (evaluatedTimes rt.observations assetId).IsChain
    fun t t' => t' = t + rt.definition.timeframe.interval
  aligned : ∀ assetId, ∀ t ∈ evaluatedTimes rt.observations assetId,
    t % rt.definition.timeframe.interval = 0
  cursor : ∀ state ∈ rt.states,
    state.lastCandleTimestamp = (evaluatedTimes rt.observations state.assetId).getLast?

/-- The next multiple of an interval. -/
theorem eq_add_interval {interval last t : ℤ} (hpos : 0 < interval) (hlast : last % interval = 0)
    (ht : t % interval = 0) (hlt : last < t) (hle : t ≤ last + interval) : t = last + interval := by
  obtain ⟨a, rfl⟩ := Int.dvd_of_emod_eq_zero hlast
  obtain ⟨b, rfl⟩ := Int.dvd_of_emod_eq_zero ht
  have hab : a < b := lt_of_mul_lt_mul_left hlt (le_of_lt hpos)
  have hle' : interval * b ≤ interval * (a + 1) := by
    rw [Int.mul_add, Int.mul_one]
    exact hle
  have hba : b ≤ a + 1 := le_of_mul_le_mul_left hle' hpos
  have hb : b = a + 1 := by omega
  rw [hb, Int.mul_add, Int.mul_one]

/-- A contiguous series does not repeat. -/
theorem nodup_of_chain {interval : ℤ} (hpos : 0 < interval) {times : List ℤ}
    (h : times.IsChain fun t t' => t' = t + interval) : times.Nodup := by
  have hlt : times.IsChain fun t t' => t < t' := h.imp fun t t' he => by omega
  exact hlt.pairwise.imp fun hab => ne_of_lt hab

theorem candleRejected_status {d : CanonicalStrategyDefinition} {candle : LiveCandle}
    {last : Option ℤ} {r : LiveEvaluationStatus × Option LiveError}
    (h : candleRejected d candle last = some r) : r.1 ≠ .evaluated := by
  unfold candleRejected at h
  cases last with
  | none =>
    split_ifs at h <;> cases h <;> simp
  | some last =>
    dsimp only at h
    split_ifs at h <;> cases h <;> simp

/-- What the evaluator evaluates is due. -/
theorem evaluateGuarded_due {rt : LiveRuntime} {state : LiveStrategyState} {candle : LiveCandle}
    (h : (evaluateGuarded rt.definition rt.activation state candle).status = .evaluated) :
    Due rt.definition state candle := by
  unfold evaluateGuarded evaluateLiveCandle at h
  cases hr : candleRejected rt.definition candle state.lastCandleTimestamp with
  | none => exact candleRejected_none hr
  | some r =>
    simp only [hr] at h
    exact absurd h (candleRejected_status hr)

/-- One more observation of an asset. -/
theorem evaluatedTimes_append (observations : List LiveStrategyObservation)
    (o : LiveStrategyObservation) (assetId : ℕ) :
    evaluatedTimes (observations ++ [o]) assetId = evaluatedTimes observations assetId ++
      if o.assetId = assetId ∧ o.status = .evaluated then [o.candleTimestamp] else [] := by
  unfold evaluatedTimes
  rw [List.filter_append, List.map_append]
  congr 1
  by_cases hid : o.assetId = assetId
  · by_cases hst : o.status = .evaluated <;> simp [hid, hst]
  · simp [hid]

theorem recordState_cursor (o : LiveEvaluationOutcome) (candle : LiveCandle) (reading : Reading)
    (state : LiveStrategyState) :
    (recordState o candle reading state).lastCandleTimestamp =
      if o.status = .evaluated then some candle.timestamp else state.lastCandleTimestamp := by
  unfold recordState
  by_cases h : o.status = .evaluated
  · by_cases hp : o.positionAfter = o.positionBefore <;> simp [h, hp]
  · simp [h]

variable {isoformat : ℤ → String}

theorem contiguous_evaluate {stored work : LiveRuntime} {state : LiveStrategyState}
    {candle : LiveCandle} (reading : Reading) (hs : state ∈ work.states)
    (hc : candle.assetId = state.assetId) (hw : Contiguous work) :
    Contiguous (evaluateAndPersist isoformat stored work state candle reading).1 := by
  rcases evaluateAndPersist_cases isoformat stored work state candle reading with
    h | ⟨-, -, attempt, -, h⟩
  · rw [h]
    exact hw
  rw [h]
  have hdue := @evaluateGuarded_due work state candle
  generalize evaluateGuarded work.definition work.activation state candle = o at hdue ⊢
  have htimes : ∀ assetId, evaluatedTimes (work.observations ++
      [observationOf candle o attempt reading]) assetId = evaluatedTimes work.observations assetId ++
        if candle.assetId = assetId ∧ o.status = .evaluated then [candle.timestamp] else [] :=
    fun assetId => evaluatedTimes_append _ _ assetId
  by_cases hst : o.status = .evaluated
  swap
  · -- Only an evaluated candle joins the series or moves the cursor.
    have hsame : ∀ assetId, evaluatedTimes (work.observations ++
        [observationOf candle o attempt reading]) assetId = evaluatedTimes work.observations assetId := by
      intro assetId
      rw [htimes, if_neg (fun h => hst h.2), List.append_nil]
    refine ⟨fun assetId => ?_, fun assetId => ?_, fun t ht => ?_⟩
    · exact (hsame assetId).symm ▸ hw.chain assetId
    · exact (hsame assetId).symm ▸ hw.aligned assetId
    · show _ = (evaluatedTimes _ _).getLast?
      rw [hsame]
      rcases mem_setState ht with rfl | ⟨ht, -⟩
      · rw [recordState_cursor, if_neg hst, recordState_assetId]
        exact hw.cursor state hs
      · exact hw.cursor t ht
  · obtain ⟨-, haligned, hnext⟩ := hdue hst
    have hmod : candle.timestamp % work.definition.timeframe.interval = 0 := by
      simpa [isTimeframeAligned] using haligned
    refine ⟨fun assetId => ?_, fun assetId t ht => ?_, fun t ht => ?_⟩
    · show (evaluatedTimes _ _).IsChain _
      rw [htimes]
      by_cases hid : candle.assetId = assetId
      · rw [if_pos ⟨hid, hst⟩, List.isChain_append]
        refine ⟨hw.chain assetId, List.isChain_singleton _, fun last hlast next hnext' => ?_⟩
        obtain rfl : next = candle.timestamp := by simpa using hnext'.symm
        have hcursor := hw.cursor state hs
        rw [← hc, hid] at hcursor
        have hlast' : state.lastCandleTimestamp = some last := hcursor.trans hlast
        obtain ⟨hlt, hle⟩ := hnext last hlast'
        exact eq_add_interval work.definition.timeframe.interval_pos
          (hw.aligned assetId last (List.mem_of_mem_getLast? hlast)) hmod hlt hle
      · rw [if_neg (fun h => hid h.1), List.append_nil]
        exact hw.chain assetId
    · change t ∈ evaluatedTimes _ assetId at ht
      rw [htimes] at ht
      rcases List.mem_append.mp ht with ht | ht
      · exact hw.aligned assetId t ht
      · split at ht
        · rw [List.mem_singleton.mp ht]
          exact hmod
        · cases ht
    · show _ = (evaluatedTimes _ _).getLast?
      rw [htimes]
      rcases mem_setState ht with rfl | ⟨ht, hne⟩
      · rw [recordState_cursor, if_pos hst, recordState_assetId, if_pos ⟨hc, hst⟩,
          List.getLast?_concat]
      · rw [recordState_assetId] at hne
        rw [if_neg (fun h => hne (h.1.symm.trans hc)), List.append_nil]
        exact hw.cursor t ht

theorem contiguous_step {s t : LiveSession} {a : LiveAction}
    (hs : Contiguous s.stored ∧ Contiguous s.work) (hst : LiveStep isoformat s a t) :
    Contiguous t.stored ∧ Contiguous t.work := by
  cases hst with
  | evaluate hmem hc => exact ⟨hs.1, contiguous_evaluate _ hmem hc hs.2⟩
  | cursor => exact ⟨hs.1, hs.2.chain, hs.2.aligned, hs.2.cursor⟩
  | fail => exact ⟨hs.1, hs.2.chain, hs.2.aligned, hs.2.cursor⟩
  | commit => exact ⟨hs.2, hs.2⟩
  | rollback => exact ⟨hs.1, hs.1⟩
  | @deactivate rt now =>
    have hdeactivated : Contiguous (deactivate now rt) := by
      unfold deactivate
      by_cases ha : rt.activation.status = .active
      · rw [if_neg (not_not_intro ha)]
        refine ⟨hs.1.chain, hs.1.aligned, fun t ht => ?_⟩
        obtain ⟨u, hu, rfl⟩ := List.mem_map.mp ht
        exact hs.1.cursor u hu
      · rw [if_pos ha]
        exact hs.1
    exact ⟨hdeactivated, hdeactivated⟩

/-- Along every run the committed evaluations of every asset are contiguous, each candle once. -/
theorem evaluated_exactly_once {digest : CanonicalStrategyDefinition → String} {s : LiveSession}
    (h : LiveReachable isoformat digest (fun _ _ => True) s) : ExactlyOnce s.stored := by
  obtain ⟨version, configuration, now, rt, hrt, hrun⟩ := h
  rw [activate_ok hrt] at hrun
  have hnew : Contiguous (newRuntime version configuration now) := by
    refine ⟨fun _ => List.isChain_nil, fun _ t ht => ?_, fun state hs => ?_⟩
    · simp [newRuntime, evaluatedTimes] at ht
    · simp only [newRuntime, List.mem_map] at hs
      obtain ⟨id, -, rfl⟩ := hs
      rfl
  have hcontiguous := hrun.invariant (I := fun s => Contiguous s.stored ∧ Contiguous s.work)
    (fun _ _ _ hs _ hst => contiguous_step hs hst) ⟨hnew, hnew⟩
  intro assetId
  have hchain := hcontiguous.1.chain assetId
  exact ⟨nodup_of_chain s.stored.definition.timeframe.interval_pos hchain, hchain⟩

/-- The two assets of a first cycle are each evaluated once. -/
theorem crossing_evaluated_once : ∃ rt n, crossingCycle false = some (rt, n) ∧
    evaluatedTimes rt.observations 1 = [minute] ∧ ExactlyOnce rt := by
  have hcycle : ∃ r, crossingCycle false = some r ∧ evaluatedTimes r.1.observations 1 = [minute] := by
    have h : (crossingCycle false).map (fun r => evaluatedTimes r.1.observations 1) =
        some [minute] := by decide +kernel
    simpa [Option.map_eq_some_iff] using h
  obtain ⟨⟨rt, n⟩, hrt, htimes⟩ := hcycle
  have hrun := processActivation_run (crossing_rows false) hrt
  exact ⟨rt, n, hrt, htimes, evaluated_exactly_once (crossing_reachable hrun)⟩

end Quantive.LiveStrategy
