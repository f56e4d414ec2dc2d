import Quantive.Backtests.Validated
import Quantive.Strategies.StoredModels

/-!
# What the schema takes of what the contract accepts

A validated result whose references hold meets the CHECK constraints of its tables, and its numbers are
stored as they are. What the contract accepts and the schema does not are integers of more than 32 bits,
NUL characters, amounts of more digits in front of the point than their column has, and positive amounts
that the decimal context has rounded to zero.
-/

namespace Quantive.Backtests
open LiveStrategy (StrategyTimeframe)
open Strategies (JsonObject CanonicalStrategyDefinition isIdentifier)

/-! ### Rows -/

/-- What is left to the columns of a trade. -/
structure Trade.Fits (t : Trade) : Prop where
  sequence : t.sequence < 2 ^ 31
  asset : t.assetId < 2 ^ 31
  amounts : ∀ d ∈ t.amounts, |d.value| < 10 ^ 16
  metadata : t.metadata.modelDump.storable = true

/-- The prices and the quantity of a trade, after the context has rounded them. -/
def Trade.Positive (t : Trade) : Prop :=
  0 < t.entryPrice.value ∧ 0 < t.exitPrice.value ∧ 0 < t.quantity.value

def Trade.stored (t : Trade) : StoredTrade where
  sequence := t.sequence
  assetId := t.assetId
  direction := t.direction
  entryTime := t.entryTime
  exitTime := t.exitTime
  entryPrice := t.entryPrice.value
  exitPrice := t.exitPrice.value
  quantity := t.quantity.value
  grossPnl := t.grossPnl.value
  netPnl := t.netPnl.value
  feesPaid := t.feesPaid.value
  slippagePaid := t.slippagePaid.value
  entrySignalId := t.entrySignalId
  exitSignalId := t.exitSignalId
  metadata := t.metadata.modelDump.reread

theorem storableText_identifier {s : String} (h : isIdentifier s = true) : Json.storableText s = true := by
  unfold Json.storableText
  rw [List.all_eq_true]
  intro c hc
  have hchar := (Strategies.identifier_chars h).2.2 c hc
  simp only [bne_iff_ne, ne_eq]
  intro hzero
  have hc0 : c = Char.ofNat 0 := by rw [← hzero, Char.ofNat_toNat]
  rw [hc0] at hchar
  exact absurd hchar (by decide)

/-- A column of signal ids takes the ids of a definition. -/
theorem signalColumn_iff {o p : Option String} (h : ∀ id ∈ o, isIdentifier id = true) :
    nullable (textColumn 64) o = .ok p ↔ p = o := by
  have hcolumn : ∀ id ∈ o, ∀ t, textColumn 64 id = .ok t ↔ True ∧ t = id := fun id hid t => by
    rw [textColumn_iff]
    simp only [storableText_identifier (h id hid), (Strategies.length_identifier (h id hid)).2, and_self]
  rw [nullable_iff hcolumn, Option.map_id']
  simp only [implies_true, true_and]

theorem Trade.columns_iff {t : Trade} {u : StoredTrade} (h : t.Validated)
    (hentry : ∀ id ∈ t.entrySignalId, isIdentifier id = true)
    (hexit : ∀ id ∈ t.exitSignalId, isIdentifier id = true) :
    Trade.columns t = .ok u ↔ t.Fits ∧ u = t.stored := by
  have hplaces := h.places
  simp only [Trade.amounts, List.forall_mem_cons] at hplaces
  obtain ⟨hp1, hp2, hp3, hp4, hp5, hp6, hp7, -⟩ := hplaces
  unfold Trade.columns
  simp only [column_bind_iff, column_pure_iff, integerColumn_iff, amountColumn_iff hp1,
    amountColumn_iff hp2, amountColumn_iff hp3, amountColumn_iff hp4, amountColumn_iff hp5,
    amountColumn_iff hp6, amountColumn_iff hp7, signalColumn_iff hentry, signalColumn_iff hexit,
    jsonColumn_iff, and_assoc, exists_and_left, exists_eq_left]
  constructor
  · rintro ⟨-, hsequence, -, hasset, h1, h2, h3, h4, h5, h6, h7, hmetadata, rfl⟩
    refine ⟨⟨hsequence, hasset, ?_, hmetadata⟩, rfl⟩
    simp only [Trade.amounts, List.forall_mem_cons]
    exact ⟨h1, h2, h3, h4, h5, h6, h7, fun d hd => by cases hd⟩
  · rintro ⟨hfits, rfl⟩
    have hamounts := hfits.amounts
    simp only [Trade.amounts, List.forall_mem_cons] at hamounts
    obtain ⟨h1, h2, h3, h4, h5, h6, h7, -⟩ := hamounts
    have hsequence : 0 < t.sequence := h.sequence
    have hasset := h.asset
    exact ⟨by omega, hfits.sequence, by omega, hfits.asset, h1, h2, h3, h4, h5, h6, h7, hfits.metadata, rfl⟩

theorem Trade.dataOnly_columns (t : Trade) : DataOnly (Trade.columns t) := by
  unfold Trade.columns
  simp only [dataOnly_bind, dataOnly_pure, dataOnly_integerColumn, dataOnly_amountColumn,
    dataOnly_jsonColumn, dataOnly_nullable (dataOnly_textColumn 64), implies_true, and_self]

theorem Trade.Validated.checks {t : Trade} (h : t.Validated) : t.stored.Checks ↔ t.Positive := by
  have hsequence : 0 < t.sequence := h.sequence
  exact ⟨fun hchecks => hchecks.2.2.2.1,
    fun hpositive => ⟨hsequence, h.direction, h.timeline, hpositive, h.costs⟩⟩

theorem Trade.insert_iff {refs : References} {t : Trade} {u : StoredTrade} (h : t.Validated)
    (hentry : ∀ id ∈ t.entrySignalId, isIdentifier id = true)
    (hexit : ∀ id ∈ t.exitSignalId, isIdentifier id = true) :
    Trade.insert refs t = .ok u ↔ (t.Fits ∧ t.Positive ∧ refs.asset t.assetId = true) ∧ u = t.stored := by
  rw [Trade.insert, insertRow_iff, Trade.columns_iff h hentry hexit, ← h.checks]
  constructor
  · rintro ⟨⟨hfits, rfl⟩, hchecks, href⟩
    exact ⟨⟨hfits, hchecks, href⟩, rfl⟩
  · rintro ⟨⟨hfits, hchecks, href⟩, rfl⟩
    exact ⟨⟨hfits, rfl⟩, hchecks, href⟩

theorem Trade.insert_error {refs : References} {t : Trade} {e : ColumnError} (h : t.Validated)
    (hentry : ∀ id ∈ t.entrySignalId, isIdentifier id = true)
    (hexit : ∀ id ∈ t.exitSignalId, isIdentifier id = true) (hfail : Trade.insert refs t = .error e) :
    e = .data ∧ ¬ t.Fits ∨ e = .integrity ∧ ¬ (t.Positive ∧ refs.asset t.assetId = true) := by
  rcases insertRow_error t.dataOnly_columns hfail with ⟨rfl, hcolumns⟩ | ⟨rfl, v, hv, hconstraints⟩
  · exact .inl ⟨rfl, fun hfits => hcolumns _ ((Trade.columns_iff h hentry hexit).mpr ⟨hfits, rfl⟩)⟩
  · obtain ⟨-, rfl⟩ := (Trade.columns_iff h hentry hexit).mp hv
    exact .inr ⟨rfl, fun hboth => hconstraints ⟨h.checks.mpr hboth.1, hboth.2⟩⟩

/-- What is left to the columns of a signal. -/
structure Signal.Fits (s : Signal) : Prop where
  sequence : s.sequence < 2 ^ 31
  asset : s.assetId < 2 ^ 31
  payload : s.payload.modelDump.storable = true

def Signal.stored (s : Signal) : StoredSignal where
  sequence := s.sequence
  assetId := s.assetId
  eventType := s.eventType
  eventTime := s.eventTime
  observedAt := s.observedAt
  signalId := s.signalId
  positionState := s.positionState
  payload := s.payload.modelDump.reread

theorem Signal.columns_iff {s : Signal} {u : StoredSignal} (h : s.Validated)
    (hid : ∀ id ∈ s.signalId, isIdentifier id = true) :
    Signal.columns s = .ok u ↔ s.Fits ∧ u = s.stored := by
  unfold Signal.columns
  simp only [column_bind_iff, column_pure_iff, integerColumn_iff, signalColumn_iff hid,
    jsonColumn_iff, and_assoc, exists_and_left, exists_eq_left]
  constructor
  · rintro ⟨-, hsequence, -, hasset, hpayload, rfl⟩
    exact ⟨⟨hsequence, hasset, hpayload⟩, rfl⟩
  · rintro ⟨hfits, rfl⟩
    have hsequence : 0 < s.sequence := h.sequence
    have hasset := h.asset
    exact ⟨by omega, hfits.sequence, by omega, hfits.asset, hfits.payload, rfl⟩

theorem Signal.dataOnly_columns (s : Signal) : DataOnly (Signal.columns s) := by
  unfold Signal.columns
  simp only [dataOnly_bind, dataOnly_pure, dataOnly_integerColumn, dataOnly_jsonColumn,
    dataOnly_nullable (dataOnly_textColumn 64), implies_true, and_self]

theorem Signal.Validated.checks {s : Signal} (h : s.Validated) : s.stored.Checks := by
  have hsequence : 0 < s.sequence := h.sequence
  exact ⟨hsequence, h.observed⟩

theorem Signal.insert_iff {refs : References} {s : Signal} {u : StoredSignal} (h : s.Validated)
    (hid : ∀ id ∈ s.signalId, isIdentifier id = true) :
    Signal.insert refs s = .ok u ↔ (s.Fits ∧ refs.asset s.assetId = true) ∧ u = s.stored := by
  rw [Signal.insert, insertRow_iff, Signal.columns_iff h hid]
  constructor
  · rintro ⟨⟨hfits, rfl⟩, -, href⟩
    exact ⟨⟨hfits, href⟩, rfl⟩
  · rintro ⟨⟨hfits, href⟩, rfl⟩
    exact ⟨⟨hfits, rfl⟩, h.checks, href⟩

theorem Signal.insert_error {refs : References} {s : Signal} {e : ColumnError} (h : s.Validated)
    (hid : ∀ id ∈ s.signalId, isIdentifier id = true) (hfail : Signal.insert refs s = .error e) :
    e = .data ∧ ¬ s.Fits ∨ e = .integrity ∧ ¬ refs.asset s.assetId = true := by
  rcases insertRow_error s.dataOnly_columns hfail with ⟨rfl, hcolumns⟩ | ⟨rfl, v, hv, hconstraints⟩
  · exact .inl ⟨rfl, fun hfits => hcolumns _ ((Signal.columns_iff h hid).mpr ⟨hfits, rfl⟩)⟩
  · obtain ⟨-, rfl⟩ := (Signal.columns_iff h hid).mp hv
    exact .inr ⟨rfl, fun href => hconstraints ⟨h.checks, href⟩⟩

def BacktestMetrics.stored (m : BacktestMetrics Dec) : BacktestMetrics ℚ where
  totalReturn := m.totalReturn.map Dec.value
  maxDrawdown := m.maxDrawdown.map Dec.value
  annualizedVolatility := m.annualizedVolatility.map Dec.value
  sharpeRatio := m.sharpeRatio.map Dec.value
  sortinoRatio := m.sortinoRatio.map Dec.value
  calmarRatio := m.calmarRatio.map Dec.value
  valueAtRisk := m.valueAtRisk.map Dec.value
  exposure := m.exposure.value
  benchmarkReturn := m.benchmarkReturn.map Dec.value
  benchmarkExcessReturn := m.benchmarkExcessReturn.map Dec.value
  tradeCount := m.tradeCount
  winningTradeCount := m.winningTradeCount
  losingTradeCount := m.losingTradeCount
  breakevenTradeCount := m.breakevenTradeCount
  feesPaid := m.feesPaid.value
  slippagePaid := m.slippagePaid.value

/-- What is left to the columns of the metrics. -/
structure BacktestMetrics.Fits (m : BacktestMetrics Dec) : Prop where
  ratios : ∀ d ∈ m.ratios, |d.value| < 10 ^ 12
  costs : |m.feesPaid.value| < 10 ^ 16 ∧ |m.slippagePaid.value| < 10 ^ 16

theorem BacktestMetrics.columns_iff {m : BacktestMetrics Dec} {v : BacktestMetrics ℚ} (h : m.Validated)
    (hcount : m.tradeCount < 2 ^ 31) : m.columns = .ok v ↔ m.Fits ∧ v = m.stored := by
  have hratio {o : Option Dec} (ho : ∀ d ∈ o, d ∈ m.ratios) {p : Option ℚ} :
      nullable ratioColumn o = .ok p ↔ (∀ d ∈ o, |d.value| < 10 ^ 12) ∧ p = o.map Dec.value :=
    nullable_iff fun d hd _ => ratioColumn_iff (h.ratios d (ho d hd))
  have hmem : ∀ d, d ∈ m.totalReturn ∨ d ∈ m.maxDrawdown ∨ d ∈ m.annualizedVolatility ∨
      d ∈ m.sharpeRatio ∨ d ∈ m.sortinoRatio ∨ d ∈ m.calmarRatio ∨ d ∈ m.valueAtRisk ∨ d = m.exposure ∨
      d ∈ m.benchmarkReturn ∨ d ∈ m.benchmarkExcessReturn ↔ d ∈ m.ratios := fun d => by
    simp only [BacktestMetrics.ratios, List.mem_append, Option.mem_toList, Option.mem_def, List.mem_singleton,
      or_assoc]
  have hexposure := h.ratios m.exposure ((hmem _).mp (by simp))
  obtain ⟨h0, h1, h2, h3⟩ := h.counts
  have htotal := h.total
  unfold BacktestMetrics.columns
  simp only [column_bind_iff, column_pure_iff, integerColumn_iff, ratioColumn_iff hexposure,
    amountColumn_iff h.costPlaces.1, amountColumn_iff h.costPlaces.2,
    hratio fun d hd => (hmem d).mp (.inl hd),
    hratio fun d hd => (hmem d).mp (.inr (.inl hd)),
    hratio fun d hd => (hmem d).mp (.inr (.inr (.inl hd))),
    hratio fun d hd => (hmem d).mp (.inr (.inr (.inr (.inl hd)))),
    hratio fun d hd => (hmem d).mp (.inr (.inr (.inr (.inr (.inl hd))))),
    hratio fun d hd => (hmem d).mp (.inr (.inr (.inr (.inr (.inr (.inl hd)))))),
    hratio fun d hd => (hmem d).mp (.inr (.inr (.inr (.inr (.inr (.inr (.inl hd))))))),
    hratio fun d hd => (hmem d).mp (.inr (.inr (.inr (.inr (.inr (.inr (.inr (.inr (.inl hd))))))))),
    hratio fun d hd => (hmem d).mp (.inr (.inr (.inr (.inr (.inr (.inr (.inr (.inr (.inr hd))))))))),
    and_assoc, exists_and_left, exists_eq_left]
  constructor
  · rintro ⟨r1, r2, r3, r4, r5, r6, r7, r8, r9, r10, -, -, -, -, -, -, -, -, hfees, hslippage, rfl⟩
    refine ⟨⟨fun d hd => ?_, hfees, hslippage⟩, rfl⟩
    rcases (hmem d).mpr hd with hd | hd | hd | hd | hd | hd | hd | rfl | hd | hd
    · exact r1 d hd
    · exact r2 d hd
    · exact r3 d hd
    · exact r4 d hd
    · exact r5 d hd
    · exact r6 d hd
    · exact r7 d hd
    · exact r8
    · exact r9 d hd
    · exact r10 d hd
  · rintro ⟨hfits, rfl⟩
    have hall (d : Dec) (hd : d ∈ m.ratios) := hfits.ratios d hd
    exact ⟨fun d hd => hall d ((hmem d).mp (by tauto)), fun d hd => hall d ((hmem d).mp (by tauto)),
      fun d hd => hall d ((hmem d).mp (by tauto)), fun d hd => hall d ((hmem d).mp (by tauto)),
      fun d hd => hall d ((hmem d).mp (by tauto)), fun d hd => hall d ((hmem d).mp (by tauto)),
      fun d hd => hall d ((hmem d).mp (by tauto)), hall _ ((hmem _).mp (by tauto)),
      fun d hd => hall d ((hmem d).mp (by tauto)), fun d hd => hall d ((hmem d).mp (by tauto)),
      by omega, hcount, by omega, by omega, by omega, by omega, by omega, by omega, hfits.costs.1,
      hfits.costs.2, rfl⟩

theorem digitChar_hex {d : ℕ} (h : d < 16) : d.digitChar.isDigit ∨ 'a' ≤ d.digitChar ∧ d.digitChar ≤ 'f' := by
  have hall : ∀ d : Fin 16, (Nat.digitChar d).isDigit ∨ 'a' ≤ Nat.digitChar d ∧ Nat.digitChar d ≤ 'f' := by
    decide
  exact hall ⟨d, h⟩

theorem toDigits_hex (n : ℕ) : ∀ c ∈ Nat.toDigits 16 n, c.isDigit ∨ 'a' ≤ c ∧ c ≤ 'f' := by
  induction n using Nat.strong_induction_on with
  | _ n ih =>
    rw [Nat.toDigits_eq_if (by decide)]
    split
    · rename_i hlt
      intro c hc
      rw [List.mem_singleton.mp hc]
      exact digitChar_hex hlt
    · rename_i hge
      intro c hc
      rcases List.mem_append.mp hc with hc | hc
      · exact ih (n / 16) (by omega) c hc
      · rw [List.mem_singleton.mp hc]
        exact digitChar_hex (Nat.mod_lt n (by decide))

theorem isHexDigest_hexdigest (text : String) : IsHexDigest (hexdigest text) := by
  have hlt : Sha256.sha256 (Sha256.utf8 text) < 16 ^ 64 := Sha256.sha256_lt _
  generalize hn : Sha256.sha256 (Sha256.utf8 text) = n at hlt
  have hdigits : (Nat.toDigits 16 n).length ≤ 64 :=
    (Nat.length_toDigits_le_iff (by decide) (by decide)).mpr hlt
  unfold hexdigest hexDigits IsHexDigest
  rw [hn, String.length_ofList, String.toList_ofList, List.leftpad]
  constructor
  · rw [List.length_append, List.length_replicate]
    omega
  · intro c hc
    rcases List.mem_append.mp hc with hc | hc
    · rw [List.eq_of_mem_replicate hc]
      exact .inl (by decide)
    · exact toDigits_hex n c hc

theorem IsHexDigest.storable {s : String} (h : IsHexDigest s) : Json.storableText s = true := by
  unfold Json.storableText
  rw [List.all_eq_true]
  intro c hc
  simp only [bne_iff_ne, ne_eq]
  intro hzero
  have hc0 : c = Char.ofNat 0 := by rw [← hzero, Char.ofNat_toNat]
  have hchar := h.2 c hc
  rw [hc0] at hchar
  exact absurd hchar (by decide)

/-- A column of hashes takes them. -/
theorem hashColumn_iff {s t : String} (h : IsHexDigest s) : textColumn 64 s = .ok t ↔ t = s := by
  rw [textColumn_iff]
  simp only [h.storable, h.1, le_refl, and_self, true_and]

/-! ### Results -/

/-- Every reference names an asset of the universe or a signal of the definition. -/
structure ReferencesHold (r : CanonicalBacktestResult) : Prop where
  trades : ∀ t ∈ r.input.fields.trades,
    t.assetId ∈ r.strategy.definition.universe.map (fun instrument => (instrument.assetId : ℤ)) ∧
      ∀ id ∈ t.entrySignalId.toList ++ t.exitSignalId.toList,
        id ∈ r.strategy.definition.signals.map (·.signalId)
  signals : ∀ s ∈ r.input.fields.signals,
    s.assetId ∈ r.strategy.definition.universe.map (fun instrument => (instrument.assetId : ℤ)) ∧
      ∀ id ∈ s.signalId.toList, id ∈ r.strategy.definition.signals.map (·.signalId)

theorem checkEach_iff {α : Type} {check : α → Except ReferenceError Unit} {l : List α} {u : Unit} :
    checkEach check l = .ok u ↔ ∀ a ∈ l, check a = .ok () := by
  induction l with
  | nil => simp [checkEach]
  | cons a l ih =>
    unfold checkEach
    rw [List.forall_mem_cons, ← ih]
    cases check a with
    | error e => exact iff_of_false (fun h => by cases h) fun h => by cases h.1
    | ok v => exact ⟨fun h => ⟨rfl, h⟩, fun h => h.2⟩

theorem ite_ok_iff {p : Prop} [Decidable p] {x : Except ReferenceError Unit} {e : ReferenceError} :
    (if p then x else .error e) = .ok () ↔ p ∧ x = .ok () := by
  by_cases h : p
  · rw [if_pos h]
    exact ⟨fun hx => ⟨h, hx⟩, fun hx => hx.2⟩
  · rw [if_neg h]
    exact iff_of_false (fun hx => by cases hx) fun hx => h hx.1

theorem validateForensicReferences_iff {r : CanonicalBacktestResult} :
    validateForensicReferences r = .ok () ↔ ReferencesHold r := by
  have hbind {x y : Except ReferenceError Unit} :
      (x >>= fun _ => y) = .ok () ↔ x = .ok () ∧ y = .ok () := by
    cases x with
    | error e => exact iff_of_false (fun h => by cases h) fun h => by cases h.1
    | ok v => exact ⟨fun h => ⟨rfl, h⟩, fun h => h.2⟩
  unfold validateForensicReferences
  dsimp only
  simp only [hbind, checkEach_iff, ite_ok_iff, and_true]
  exact ⟨fun h => ⟨h.1, h.2⟩, fun h => ⟨h.trades, h.signals⟩⟩

/-- What the contract, the references and the stored version promise of a result. -/
structure CanonicalBacktestResult.Accepted (r : CanonicalBacktestResult) : Prop where
  consistent : Consistent r.input.fields
  references : ReferencesHold r
  definitionHash : r.strategy.strategyDefinitionHash = definitionHash r.strategy.definition
  texts : r.input.fields.data.source.length ≤ 128 ∧ r.input.fields.data.version.length ≤ 256 ∧
    ∀ t ∈ r.input.fields.data.coverageFingerprint, t.length ≤ 256
  evaluator : r.input.fields.reproducibility.evaluatorId.length ≤ 128 ∧
    r.input.fields.reproducibility.evaluatorRevision.length ≤ 256
  capital : Places 8 r.input.fields.initialCapital.value ∧ Places 8 r.input.fields.finalEquity.value
  metrics : r.input.fields.metrics.Validated
  fewTrades : r.input.fields.trades.length ≤ maxBacktestTrades
  trades : ∀ t ∈ r.input.fields.trades, Trade.Validated t
  signals : ∀ s ∈ r.input.fields.signals, Signal.Validated s

theorem forall_eachItem {α β : Type} {item : α → Except InputError β} {P : β → Prop} {as : List α}
    {bs : List β} (h : eachItem item as = .ok bs) (hP : ∀ a b, item a = .ok b → P b) : ∀ b ∈ bs, P b := by
  have hall := eachItem_eq_ok_iff.mp h
  clear h
  induction hall with
  | nil => exact fun b hb => by cases hb
  | cons hhead _ ih =>
    intro b hb
    rcases List.mem_cons.mp hb with rfl | hb
    · exact hP _ _ hhead
    · exact ih b hb

theorem accepted_of_validate {a : SubmittedResult} {r : CanonicalBacktestResult}
    (ha : BacktestResultInput.validate a = .ok r.input) (hrefs : validateForensicReferences r = .ok ())
    (hhash : r.strategy.strategyDefinitionHash = definitionHash r.strategy.definition) : r.Accepted := by
  have hm := BacktestResultInput.validate_eq_ok_iff.mp ha
  have hdata := hm.data
  unfold BacktestDataReference.validate at hdata
  simp only [bind_eq_ok_iff] at hdata
  obtain ⟨_, hsource, _, hversion, _, hfingerprint, hdata⟩ := hdata
  have hrepro := hm.reproducibility
  unfold ReproducibilityMetadata.validate at hrepro
  simp only [bind_eq_ok_iff] at hrepro
  obtain ⟨_, hevaluator, _, hrevision, _, -, hrepro⟩ := hrepro
  have hdata := Except.ok.inj hdata
  have hrepro := Except.ok.inj hrepro
  refine ⟨consistent_iff.mp r.input.consistent, validateForensicReferences_iff.mp hrefs, hhash, ?_, ?_,
    ⟨decimalField_places hm.initialCapital, decimalField_places hm.finalEquity⟩,
    BacktestMetrics.validate_ok hm.metrics, ?_, forall_eachItem hm.trades fun _ _ => SubmittedTrade.validate_ok,
    forall_eachItem hm.signals fun _ _ => SubmittedSignal.validate_ok⟩
  · rw [← hdata]
    refine ⟨textField_length hsource, textField_length hversion, fun t ht => ?_⟩
    obtain ⟨s, hs⟩ := optionalField_some hfingerprint t ht
    exact textField_length hs
  · rw [← hrepro]
    exact ⟨textField_length hevaluator, textField_length hrevision⟩
  · rw [← eachItem_length hm.trades]
    exact not_lt.mp (refuse_eq_ok_iff.mp hm.fewTrades)

/-- What is left to the columns of a run. -/
structure CanonicalBacktestResult.RowFits (r : CanonicalBacktestResult) : Prop where
  versionNumber : -2 ^ 31 ≤ r.strategy.strategyVersionNumber ∧ r.strategy.strategyVersionNumber < 2 ^ 31
  «universe» : (Json.arr (r.strategy.definition.universe.map (·.modelDump))).storable = true
  benchmark : ∀ j ∈ r.strategy.definition.benchmark.map (·.modelDump), j.storable = true
  parameters : r.strategy.definition.parameters.modelDump.storable = true
  data : Json.storableText r.input.fields.data.source = true ∧
    Json.storableText r.input.fields.data.version = true ∧
    ∀ t ∈ r.input.fields.data.coverageFingerprint, Json.storableText t = true
  capital : |r.input.fields.initialCapital.value| < 10 ^ 16 ∧ |r.input.fields.finalEquity.value| < 10 ^ 16
  metrics : r.input.fields.metrics.Fits
  randomSeed : ∀ n ∈ r.input.fields.reproducibility.randomSeed, -2 ^ 31 ≤ n ∧ n < 2 ^ 31
  reproducibility : r.input.fields.reproducibility.modelDump.storable = true

/-- What is left to the columns of a run, its trades and its signals. -/
structure CanonicalBacktestResult.Fits (r : CanonicalBacktestResult) : Prop where
  row : r.RowFits
  trades : ∀ t ∈ r.input.fields.trades, Trade.Fits t
  signals : ∀ s ∈ r.input.fields.signals, Signal.Fits s

/-- No amount that has to be positive was rounded to zero. -/
structure CanonicalBacktestResult.Positive (r : CanonicalBacktestResult) : Prop where
  capital : 0 < r.input.fields.initialCapital.value ∧ 0 < r.input.fields.finalEquity.value
  trades : ∀ t ∈ r.input.fields.trades, Trade.Positive t

/-- The run is not there yet, and what its rows name is. -/
structure CanonicalBacktestResult.Keyed (refs : References) (r : CanonicalBacktestResult) : Prop where
  fresh : refs.recorded r.runId = false
  version : refs.version r.strategy.strategyVersionId r.strategy.strategyId = true
  trades : ∀ t ∈ r.input.fields.trades, refs.asset t.assetId = true
  signals : ∀ s ∈ r.input.fields.signals, refs.asset s.assetId = true

def BacktestResult.stored (row : BacktestResult Dec) : BacktestResult ℚ :=
  { row with
    «universe» := row.universe.reread
    benchmark := row.benchmark.map (·.reread)
    parameters := row.parameters.reread
    executionAssumptions := row.executionAssumptions.reread
    initialCapital := row.initialCapital.value
    finalEquity := row.finalEquity.value
    metrics := row.metrics.stored
    reproducibilityMetadata := row.reproducibilityMetadata.reread }

/-- The rows of a result, its numbers as they are. -/
def storedRows (r : CanonicalBacktestResult) : ResultRows where
  result := (buildResultModel r r.runId r.resultHash).stored
  trades := (r.input.fields.trades.insertionSort fun t u => t.sequence ≤ u.sequence).map Trade.stored
  signals := (r.input.fields.signals.insertionSort fun s t => s.sequence ≤ t.sequence).map Signal.stored

theorem storable_execution (e : Strategies.ExecutionAssumptions) : e.modelDump.storable = true := by
  obtain ⟨timing, orderType, feeBps, slippageBps, latencyMs, -⟩ := e
  simp only [Strategies.ExecutionAssumptions.modelDump, Json.storable, Json.storableFields,
    Strategies.natJson, Bool.and_true, Bool.and_eq_true]
  cases timing <;> cases orderType <;> decide

theorem storable_timeframe (f : StrategyTimeframe) :
    Json.storableText f.value = true ∧ f.value.length ≤ 16 := by
  cases f <;> decide

theorem BacktestDataReference.columns_iff {d e : BacktestDataReference} (hsource : d.source.length ≤ 128)
    (hversion : d.version.length ≤ 256) (hfingerprint : ∀ t ∈ d.coverageFingerprint, t.length ≤ 256) :
    d.columns = .ok e ↔ (Json.storableText d.source = true ∧ Json.storableText d.version = true ∧
      ∀ t ∈ d.coverageFingerprint, Json.storableText t = true) ∧ e = d := by
  have hcolumn : ∀ t ∈ d.coverageFingerprint, ∀ u, textColumn 256 t = .ok u ↔
      Json.storableText t = true ∧ u = t := fun t ht u => by
    rw [textColumn_iff]
    simp only [hfingerprint t ht, and_true]
  unfold BacktestDataReference.columns
  simp only [column_bind_iff, column_pure_iff, textColumn_iff, nullable_iff hcolumn, hsource, hversion,
    and_true, and_assoc, exists_and_left, exists_eq_left, Option.map_id']

theorem ReproducibilityMetadata.storable_texts {q : ReproducibilityMetadata JsonObject}
    (h : q.modelDump.storable = true) :
    Json.storableText q.evaluatorId = true ∧ Json.storableText q.evaluatorRevision = true := by
  simp only [ReproducibilityMetadata.modelDump, Json.storable, Json.storableFields, Bool.and_eq_true] at h
  exact ⟨h.1.2, h.2.1.2⟩

theorem isHexDigest_hashPayload (payload : Json) : IsHexDigest (hashPayload payload) :=
  isHexDigest_hexdigest _

theorem isHexDigest_definitionHash (d : CanonicalStrategyDefinition) : IsHexDigest (definitionHash d) :=
  isHexDigest_hexdigest _

theorem buildResultModel_columns_iff {r : CanonicalBacktestResult} {v : BacktestResult ℚ}
    (h : r.Accepted) : (buildResultModel r r.runId r.resultHash).columns = .ok v ↔
      r.RowFits ∧ v = (buildResultModel r r.runId r.resultHash).stored := by
  have hrun : IsHexDigest r.runId := isHexDigest_hashPayload _
  have hresult : IsHexDigest r.resultHash := isHexDigest_hashPayload _
  have hdefinition : IsHexDigest r.strategy.strategyDefinitionHash :=
    h.definitionHash ▸ isHexDigest_definitionHash _
  have hcount : r.input.fields.metrics.tradeCount < 2 ^ 31 := by
    have hlength := h.consistent.tradeCount
    have hfew : r.input.fields.trades.length ≤ 10000 := h.fewTrades
    omega
  have hbenchmark {o p : Option Json} :
      nullable jsonColumn o = .ok p ↔ (∀ j ∈ o, j.storable = true) ∧ p = o.map Json.reread :=
    nullable_iff fun j _ k => jsonColumn_iff
  have hseed {o p : Option ℤ} :
      nullable integerColumn o = .ok p ↔ (∀ n ∈ o, -2 ^ 31 ≤ n ∧ n < 2 ^ 31) ∧ p = o := by
    rw [nullable_iff fun n _ m => integerColumn_iff, Option.map_id']
  unfold BacktestResult.columns buildResultModel
  simp only [column_bind_iff, column_pure_iff, integerColumn_iff, jsonColumn_iff,
    hashColumn_iff hrun, hashColumn_iff hresult, hashColumn_iff hdefinition,
    BacktestDataReference.columns_iff h.texts.1 h.texts.2.1 h.texts.2.2, amountColumn_iff h.capital.1,
    amountColumn_iff h.capital.2, BacktestMetrics.columns_iff h.metrics hcount, textColumn_iff, hbenchmark,
    hseed, and_assoc, exists_and_left, exists_eq_left]
  constructor
  · rintro ⟨hlow, hhigh, huniverse, hdumped, -, -, hparameters, -, hsource, hversion, hfingerprint,
      hcapital, hequity, hmetrics, -, -, -, -, hrandom, hreproducibility, rfl⟩
    exact ⟨⟨⟨hlow, hhigh⟩, huniverse, hdumped, hparameters, ⟨hsource, hversion, hfingerprint⟩,
      ⟨hcapital, hequity⟩, hmetrics, hrandom, hreproducibility⟩, rfl⟩
  · rintro ⟨hfits, rfl⟩
    have htimeframe := storable_timeframe r.strategy.definition.timeframe
    obtain ⟨hid, hrevision⟩ := ReproducibilityMetadata.storable_texts hfits.reproducibility
    exact ⟨hfits.versionNumber.1, hfits.versionNumber.2, hfits.universe, hfits.benchmark, htimeframe.1,
      htimeframe.2, hfits.parameters, storable_execution _, hfits.data.1, hfits.data.2.1, hfits.data.2.2,
      hfits.capital.1, hfits.capital.2, hfits.metrics, hid, h.evaluator.1, hrevision, h.evaluator.2,
      hfits.randomSeed, hfits.reproducibility, rfl⟩

theorem BacktestMetrics.dataOnly_columns (m : BacktestMetrics Dec) : DataOnly m.columns := by
  unfold BacktestMetrics.columns
  simp only [dataOnly_bind, dataOnly_pure, dataOnly_integerColumn, dataOnly_amountColumn,
    dataOnly_ratioColumn, dataOnly_nullable dataOnly_ratioColumn, implies_true, and_self]

theorem BacktestDataReference.dataOnly_columns (d : BacktestDataReference) : DataOnly d.columns := by
  unfold BacktestDataReference.columns
  simp only [dataOnly_bind, dataOnly_pure, dataOnly_textColumn, dataOnly_nullable (dataOnly_textColumn 256),
    implies_true, and_self]

theorem BacktestResult.dataOnly_columns (row : BacktestResult Dec) : DataOnly row.columns := by
  unfold BacktestResult.columns
  simp only [dataOnly_bind, dataOnly_pure, dataOnly_integerColumn, dataOnly_amountColumn,
    dataOnly_textColumn, dataOnly_jsonColumn, dataOnly_nullable dataOnly_jsonColumn,
    dataOnly_nullable dataOnly_integerColumn, BacktestMetrics.dataOnly_columns,
    BacktestDataReference.dataOnly_columns, implies_true, and_self]

theorem CanonicalBacktestResult.Accepted.checks {r : CanonicalBacktestResult} (h : r.Accepted) :
    (buildResultModel r r.runId r.resultHash).stored.Checks ↔
      0 < r.input.fields.initialCapital.value ∧ 0 < r.input.fields.finalEquity.value := by
  refine ⟨fun hchecks => ⟨hchecks.2.2.2.1, hchecks.2.2.2.2.1⟩, fun hpositive => ?_⟩
  have hdrawdown : ∀ q ∈ r.input.fields.metrics.maxDrawdown.map Dec.value, 0 ≤ q ∧ q ≤ 1 := by
    intro q hq
    obtain ⟨d, hd, rfl⟩ := Option.mem_map.mp hq
    exact h.metrics.drawdown d hd
  exact ⟨isHexDigest_hashPayload _, isHexDigest_hashPayload _, h.consistent.window, hpositive.1,
    hpositive.2, h.metrics.exposure, hdrawdown, h.metrics.counts, h.metrics.total, h.metrics.costs⟩

section
variable {refs : References} {r : CanonicalBacktestResult} (h : r.Accepted)
include h

omit h in
theorem CanonicalBacktestResult.signalIds {id : String}
    (hid : id ∈ r.strategy.definition.signals.map (·.signalId)) : isIdentifier id = true := by
  obtain ⟨signal, -, rfl⟩ := List.mem_map.mp hid
  exact signal.identified

theorem CanonicalBacktestResult.Accepted.insertTrade {t : Trade} (ht : t ∈ r.input.fields.trades) :
    (∀ u, Trade.insert refs t = .ok u ↔
      (Trade.Fits t ∧ Trade.Positive t ∧ refs.asset t.assetId = true) ∧ u = Trade.stored t) ∧
    ∀ e, Trade.insert refs t = .error e → e = .data ∧ ¬ Trade.Fits t ∨
      e = .integrity ∧ ¬ (Trade.Positive t ∧ refs.asset t.assetId = true) := by
  have hids := (h.references.trades t ht).2
  have hentry : ∀ id ∈ t.entrySignalId, isIdentifier id = true := fun id hid =>
    r.signalIds (hids id (List.mem_append_left _ (Option.mem_toList.mpr hid)))
  have hexit : ∀ id ∈ t.exitSignalId, isIdentifier id = true := fun id hid =>
    r.signalIds (hids id (List.mem_append_right _ (Option.mem_toList.mpr hid)))
  exact ⟨fun u => Trade.insert_iff (h.trades t ht) hentry hexit,
    fun e => Trade.insert_error (h.trades t ht) hentry hexit⟩

theorem CanonicalBacktestResult.Accepted.insertSignal {s : Signal} (hs : s ∈ r.input.fields.signals) :
    (∀ u, Signal.insert refs s = .ok u ↔
      (Signal.Fits s ∧ refs.asset s.assetId = true) ∧ u = Signal.stored s) ∧
    ∀ e, Signal.insert refs s = .error e → e = .data ∧ ¬ Signal.Fits s ∨
      e = .integrity ∧ ¬ refs.asset s.assetId = true := by
  have hid : ∀ id ∈ s.signalId, isIdentifier id = true := fun id hid =>
    r.signalIds ((h.references.signals s hs).2 id (Option.mem_toList.mpr hid))
  exact ⟨fun u => Signal.insert_iff (h.signals s hs) hid, fun e => Signal.insert_error (h.signals s hs) hid⟩

theorem CanonicalBacktestResult.Accepted.insertTrades {us : List StoredTrade} :
    insertEach (Trade.insert refs) (r.input.fields.trades.insertionSort fun t u => t.sequence ≤ u.sequence) =
        .ok us ↔
      (∀ t ∈ r.input.fields.trades, Trade.Fits t ∧ Trade.Positive t ∧ refs.asset t.assetId = true) ∧
        us = (storedRows r).trades := by
  rw [insertEach_iff fun t ht => (h.insertTrade ((List.mem_insertionSort _).mp ht)).1]
  simp only [List.mem_insertionSort, storedRows]

theorem CanonicalBacktestResult.Accepted.insertSignals {us : List StoredSignal} :
    insertEach (Signal.insert refs)
        (r.input.fields.signals.insertionSort fun s t => s.sequence ≤ t.sequence) = .ok us ↔
      (∀ s ∈ r.input.fields.signals, Signal.Fits s ∧ refs.asset s.assetId = true) ∧
        us = (storedRows r).signals := by
  rw [insertEach_iff fun s hs => (h.insertSignal ((List.mem_insertionSort _).mp hs)).1]
  simp only [List.mem_insertionSort, storedRows]

/-- The sequences are keys. -/
theorem CanonicalBacktestResult.Accepted.sequences :
    ((storedRows r).trades.map (·.sequence)).Nodup ∧ ((storedRows r).signals.map (·.sequence)).Nodup := by
  have htrades := (List.perm_insertionSort (fun t u : Trade => t.sequence ≤ u.sequence)
    r.input.fields.trades).map (·.sequence)
  have hsignals := (List.perm_insertionSort (fun s t : Signal => s.sequence ≤ t.sequence)
    r.input.fields.signals).map (·.sequence)
  unfold storedRows
  rw [List.map_map, List.map_map]
  exact ⟨htrades.nodup_iff.mpr h.consistent.tradeSequences, hsignals.nodup_iff.mpr h.consistent.signalSequences⟩

/-- An accepted result is stored as it is, if it fits, is positive and has its keys. -/
theorem insertRows_iff {rows : ResultRows} : insertRows refs r = .ok rows ↔
    (r.Fits ∧ r.Positive ∧ r.Keyed refs) ∧ rows = storedRows r := by
  unfold insertRows BacktestResult.insert
  simp only [column_bind_iff, column_pure_iff, ensure_iff, insertRow_iff, buildResultModel_columns_iff h,
    h.insertTrades, h.insertSignals, exists_const]
  constructor
  · rintro ⟨_, ⟨⟨hrow, rfl⟩, hchecks, hkeys⟩, _, ⟨hts, rfl⟩, -, _, ⟨hss, rfl⟩, -, rfl⟩
    exact ⟨⟨⟨hrow, fun t ht => (hts t ht).1, fun s hs => (hss s hs).1⟩,
      ⟨h.checks.mp hchecks, fun t ht => (hts t ht).2.1⟩,
      ⟨hkeys.1, hkeys.2, fun t ht => (hts t ht).2.2, fun s hs => (hss s hs).2⟩⟩, rfl⟩
  · rintro ⟨⟨hfits, hpositive, hkeyed⟩, rfl⟩
    exact ⟨_, ⟨⟨hfits.row, rfl⟩, h.checks.mpr hpositive.capital, hkeyed.fresh, hkeyed.version⟩,
      _, ⟨fun t ht => ⟨hfits.trades t ht, hpositive.trades t ht, hkeyed.trades t ht⟩, rfl⟩, h.sequences.1,
      _, ⟨fun s hs => ⟨hfits.signals s hs, hkeyed.signals s hs⟩, rfl⟩, h.sequences.2, rfl⟩

/-- A DataError says that a column does not fit, an IntegrityError that an amount was rounded to zero or
that a key is wrong. -/
theorem insertRows_error {e : ColumnError} (hfail : insertRows refs r = .error e) :
    e = .data ∧ ¬ r.Fits ∨ e = .integrity ∧ ¬ (r.Positive ∧ r.Keyed refs) := by
  have hunique {p : Prop} [Decidable p] (hp : p) : ensure p .integrity ≠ .error e := by
    rw [(ensure_iff (u := ())).mpr hp]
    exact fun hne => by cases hne
  unfold insertRows BacktestResult.insert at hfail
  rcases column_bind_error hfail with hrow | ⟨row, -, hfail⟩
  · rcases insertRow_error (BacktestResult.dataOnly_columns _) hrow with
      ⟨rfl, hcolumns⟩ | ⟨rfl, v, hv, hconstraints⟩
    · exact .inl ⟨rfl, fun hfits => hcolumns _ ((buildResultModel_columns_iff h).mpr ⟨hfits.row, rfl⟩)⟩
    · obtain ⟨-, rfl⟩ := (buildResultModel_columns_iff h).mp hv
      exact .inr ⟨rfl, fun hboth =>
        hconstraints ⟨h.checks.mpr hboth.1.capital, hboth.2.fresh, hboth.2.version⟩⟩
  rcases column_bind_error hfail with htrade | ⟨trades, htrades, hfail⟩
  · obtain ⟨t, ht, htrade⟩ := insertEach_error htrade
    have ht := (List.mem_insertionSort _).mp ht
    rcases (h.insertTrade ht).2 e htrade with ⟨rfl, hbad⟩ | ⟨rfl, hbad⟩
    · exact .inl ⟨rfl, fun hfits => hbad (hfits.trades t ht)⟩
    · exact .inr ⟨rfl, fun hboth => hbad ⟨hboth.1.trades t ht, hboth.2.trades t ht⟩⟩
  obtain ⟨-, rfl⟩ := h.insertTrades.mp htrades
  rcases column_bind_error hfail with hkeys | ⟨_, -, hfail⟩
  · exact absurd hkeys (hunique h.sequences.1)
  rcases column_bind_error hfail with hsignal | ⟨signals, hsignals, hfail⟩
  · obtain ⟨s, hs, hsignal⟩ := insertEach_error hsignal
    have hs := (List.mem_insertionSort _).mp hs
    rcases (h.insertSignal hs).2 e hsignal with ⟨rfl, hbad⟩ | ⟨rfl, hbad⟩
    · exact .inl ⟨rfl, fun hfits => hbad (hfits.signals s hs)⟩
    · exact .inr ⟨rfl, fun hboth => hbad (hboth.2.signals s hs)⟩
  obtain ⟨-, rfl⟩ := h.insertSignals.mp hsignals
  rcases column_bind_error hfail with hkeys | ⟨_, -, hfail⟩
  · exact absurd hkeys (hunique h.sequences.2)
  · cases hfail

end

/-- The gap between the contract and the schema. -/
theorem insertRows_of_validated (refs : References) (a : SubmittedResult) (r : CanonicalBacktestResult)
    (ha : BacktestResultInput.validate a = .ok r.input)
    (hhash : r.strategy.strategyDefinitionHash = definitionHash r.strategy.definition)
    (hrefs : validateForensicReferences r = .ok ()) :
    (∀ rows, insertRows refs r = .ok rows ↔
      (r.Fits ∧ r.Positive ∧ r.Keyed refs) ∧ rows = storedRows r) ∧
    ∀ e, insertRows refs r = .error e →
      e = .data ∧ ¬ r.Fits ∨ e = .integrity ∧ ¬ (r.Positive ∧ r.Keyed refs) :=
  ⟨fun _ => insertRows_iff (accepted_of_validate ha hrefs hhash),
    fun _ => insertRows_error (accepted_of_validate ha hrefs hhash)⟩

def momentumVersion : BacktestStrategySnapshot where
  strategyId := (resultOf one []).strategyVersionId
  strategyVersionId := (resultOf one []).strategyVersionId
  strategyVersionNumber := 1
  strategyDefinitionHash := definitionHash (Strategies.canonicalMomentum Strategies.momentum.execution)
  definition := Strategies.canonicalMomentum Strategies.momentum.execution

/-- No run yet, and every asset and version. -/
def noRuns : References := ⟨fun _ => true, fun _ _ => true, fun _ => false⟩

theorem insertRows_of_validated_two :
    ∃ m, BacktestResultInput.validate (resultOf ⟨false, 2, 0⟩ [tradeCosting 1 one, tradeCosting 2 one]) = .ok m ∧
      ((∀ rows, insertRows noRuns ⟨m, momentumVersion⟩ = .ok rows ↔
        (CanonicalBacktestResult.Fits ⟨m, momentumVersion⟩ ∧
          CanonicalBacktestResult.Positive ⟨m, momentumVersion⟩ ∧
          CanonicalBacktestResult.Keyed noRuns ⟨m, momentumVersion⟩) ∧
        rows = storedRows ⟨m, momentumVersion⟩) ∧
      ∀ e, insertRows noRuns ⟨m, momentumVersion⟩ = .error e →
        e = .data ∧ ¬ CanonicalBacktestResult.Fits ⟨m, momentumVersion⟩ ∨
        e = .integrity ∧ ¬ (CanonicalBacktestResult.Positive ⟨m, momentumVersion⟩ ∧
          CanonicalBacktestResult.Keyed noRuns ⟨m, momentumVersion⟩)) := by
  have haccepted : ((BacktestResultInput.validate (resultOf ⟨false, 2, 0⟩
      [tradeCosting 1 one, tradeCosting 2 one])).toOption.map fun m =>
        (validateForensicReferences ⟨m, momentumVersion⟩).toOption) = some (some ()) := by
    decide +kernel
  cases ha : BacktestResultInput.validate
      (resultOf ⟨false, 2, 0⟩ [tradeCosting 1 one, tradeCosting 2 one]) with
  | error e =>
    rw [ha] at haccepted
    cases haccepted
  | ok m =>
    rw [ha] at haccepted
    have hsome : (validateForensicReferences ⟨m, momentumVersion⟩).toOption = some () :=
      Option.some.inj haccepted
    cases hrefs : validateForensicReferences ⟨m, momentumVersion⟩ with
    | error e =>
      rw [hrefs] at hsome
      cases hsome
    | ok u => exact ⟨m, rfl, insertRows_of_validated noRuns _ ⟨m, momentumVersion⟩ ha rfl hrefs⟩

end Quantive.Backtests
