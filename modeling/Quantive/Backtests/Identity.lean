import Mathlib.Data.List.Forall2
import Quantive.Backtests.Costs
import Quantive.Backtests.Payloads

/-!
# The identity of a backtest

The `run_id` and the `result_hash` of a result do not depend on how it is written down: on the order
of its trades and signals, the order of the keys of nested dicts, the spelling of decimals and the
UTC offsets of instants. Whether it is accepted depends on the order of its trades, through the
rounding of the sums of their costs.
-/

namespace Quantive.Backtests
open Strategies (PyKey PyValue JsonObject canonicalizeJson canonicalizeItems canonicalizeFields
  sequence sequenceFields)

/-! ### Spellings -/

/-- One number, however it is spelled. -/
def PyDecimal.SameNumber : PyDecimal → PyDecimal → Prop
  | .finite d, .finite e => d.value = e.value
  | .nonFinite, .nonFinite => True
  | _, _ => False

/-- One instant, at any offset. -/
def PyDatetime.SameInstant (t u : PyDatetime) : Prop :=
  match t.utcoffset, u.utcoffset with
  | some offset, some offset' => t.wallClock - offset = u.wallClock - offset'
  | none, none => t.wallClock = u.wallClock
  | _, _ => False

/-- The keys of one dict inside a value in another order. -/
inductive Reorders : PyValue → PyValue → Prop
  | dict {fields fields' : List (PyKey × PyValue)}
    (unique : ∀ keys : List String, fields.map (·.1) = keys.map .str → keys.Nodup)
    (perm : fields.Perm fields') : Reorders (.dict fields) (.dict fields')
  | field (before after : List (PyKey × PyValue)) (key : PyKey) {v w : PyValue} (h : Reorders v w) :
    Reorders (.dict (before ++ (key, v) :: after)) (.dict (before ++ (key, w) :: after))
  | item (before after : List PyValue) {v w : PyValue} (h : Reorders v w) :
    Reorders (.list (before ++ v :: after)) (.list (before ++ w :: after))
  | tupleItem (before after : List PyValue) {v w : PyValue} (h : Reorders v w) :
    Reorders (.tuple (before ++ v :: after)) (.tuple (before ++ w :: after))

/-- The keys of nested dicts in another order. -/
def PyDict.Reordered (o o' : PyDict) : Prop :=
  Relation.ReflTransGen Reorders (.dict o.fields) (.dict o'.fields)

theorem PyDecimal.SameNumber.refl (x : PyDecimal) : x.SameNumber x := by
  cases x with
  | finite d => exact rfl
  | nonFinite => trivial

theorem PyDatetime.SameInstant.refl (t : PyDatetime) : t.SameInstant t := by
  unfold PyDatetime.SameInstant
  cases t.utcoffset <;> rfl

/-! ### Fields -/

theorem normalizeDecimal_congr {d e : Dec} (h : d.value = e.value) (fieldName : String)
    (maxDigits decimalPlaces : ℕ) :
    normalizeDecimal (.finite d) fieldName maxDigits decimalPlaces =
      normalizeDecimal (.finite e) fieldName maxDigits decimalPlaces := by
  by_cases hzero : d.value = 0
  · -- zeros keep their signs until `_normalize_decimal` replaces them
    have hnormal : ∀ {c : Dec}, c.value = 0 → c.normalize = some ⟨c.negative, 0, 0⟩ := by
      intro c hc
      unfold Dec.normalize
      dsimp only
      rw [hc, abs_zero, if_pos rfl]
    unfold normalizeDecimal
    dsimp only
    rw [hnormal hzero, hnormal (h ▸ hzero)]
    rfl
  · have hsign : d.negative = e.negative := by
      have hd := Dec.value_neg_iff hzero
      have he := Dec.value_neg_iff (h ▸ hzero)
      rw [← h] at he
      exact Bool.eq_iff_iff.mpr (hd.symm.trans he)
    have hnormal : d.normalize = e.normalize := by
      unfold Dec.normalize
      rw [h, hsign]
    unfold normalizeDecimal
    dsimp only
    rw [hnormal]

theorem decimalField_congr {x y : PyDecimal} (h : x.SameNumber y) (decimalPlaces : ℕ)
    (bounds : List Bound) (fieldName : String) :
    decimalField decimalPlaces bounds fieldName x = decimalField decimalPlaces bounds fieldName y := by
  cases x with
  | finite d =>
    cases y with
    | finite e =>
      change d.value = e.value at h
      unfold decimalField
      dsimp only
      rw [h, normalizeDecimal_congr h]
    | nonFinite => cases h
  | nonFinite =>
    cases y with
    | finite e => cases h
    | nonFinite => rfl

theorem amountField_congr {x y : PyDecimal} (h : x.SameNumber y) (bounds : List Bound)
    (fieldName : String) : amountField bounds fieldName x = amountField bounds fieldName y :=
  decimalField_congr h 8 bounds fieldName

theorem ratioField_congr {x y : PyDecimal} (h : x.SameNumber y) (bounds : List Bound)
    (fieldName : String) : ratioField bounds fieldName x = ratioField bounds fieldName y :=
  decimalField_congr h 12 bounds fieldName

theorem normalizeUtc_congr {t u : PyDatetime} (h : t.SameInstant u) (fieldName : String) :
    normalizeUtc fieldName t = normalizeUtc fieldName u := by
  unfold PyDatetime.SameInstant at h
  unfold normalizeUtc
  cases ht : t.utcoffset with
  | none =>
    rw [ht] at h
    cases hu : u.utcoffset with
    | none => rfl
    | some offset => rw [hu] at h; cases h
  | some offset =>
    rw [ht] at h
    cases hu : u.utcoffset with
    | none => rw [hu] at h; cases h
    | some offset' =>
      rw [hu] at h
      dsimp only at h ⊢
      rw [h]

theorem optionalField_congr {α β : Type} {R : α → α → Prop} {field : α → Except InputError β}
    (hfield : ∀ a b, R a b → field a = field b) {x y : Option α} (h : Option.Rel R x y) :
    optionalField field x = optionalField field y := by
  cases h with
  | some hab => exact congrArg (Except.map some) (hfield _ _ hab)
  | none => rfl

/-! ### Nested values -/

/-- A sort by a key that is unique forgets the order. -/
theorem insertionSort_key_congr {α κ : Type} [LinearOrder κ] {key : α → κ} {xs ys : List α}
    (hunique : (xs.map key).Nodup) (hperm : xs.Perm ys) :
    xs.insertionSort (fun x y => key x ≤ key y) = ys.insertionSort fun x y => key x ≤ key y := by
  have hxs := List.perm_insertionSort (fun x y : α => key x ≤ key y) xs
  have hys := List.perm_insertionSort (fun x y : α => key x ≤ key y) ys
  refine (hxs.trans (hperm.trans hys.symm)).eq_of_pairwise (fun x y hx hy hle hle' => ?_)
    (List.pairwise_insertionSort _ _) (List.pairwise_insertionSort _ _)
  exact List.inj_on_of_nodup_map hunique (hxs.subset hx) (hperm.symm.subset (hys.subset hy))
    (le_antisymm hle hle')

theorem canonicalizeItems_replace (path : String) {v w : PyValue}
    (h : ∀ path, canonicalizeJson path v = canonicalizeJson path w) (before after : List PyValue)
    (index : ℕ) : canonicalizeItems path index (before ++ v :: after) =
      canonicalizeItems path index (before ++ w :: after) := by
  induction before generalizing index with
  | nil =>
    rw [List.nil_append, List.nil_append, canonicalizeItems, canonicalizeItems, h]
  | cons u before ih =>
    rw [List.cons_append, List.cons_append, canonicalizeItems, canonicalizeItems, ih]

theorem canonicalizeFields_replace (path : String) {v w : PyValue}
    (h : ∀ path, canonicalizeJson path v = canonicalizeJson path w)
    (before after : List (PyKey × PyValue)) (key : PyKey) :
    canonicalizeFields path (before ++ (key, v) :: after) =
      canonicalizeFields path (before ++ (key, w) :: after) := by
  induction before with
  | nil =>
    cases key with
    | str s => rw [List.nil_append, List.nil_append, canonicalizeFields, canonicalizeFields, h]
    | other => rfl
  | cons p before ih =>
    obtain ⟨k, u⟩ := p
    cases k with
    | str s => rw [List.cons_append, List.cons_append, canonicalizeFields, canonicalizeFields, ih]
    | other => rfl

/-- What `canonicalizeFields` makes of a field. -/
def Canonicalizes (path : String) (p : PyKey × PyValue) (r : String × Except String Json) : Prop :=
  p.1 = .str r.1 ∧ r.2 = canonicalizeJson (path ++ "." ++ r.1) p.2

theorem canonicalizeFields_eq_some_iff {path : String} {fields : List (PyKey × PyValue)}
    {results : List (String × Except String Json)} :
    canonicalizeFields path fields = some results ↔
      List.Forall₂ (Canonicalizes path) fields results := by
  induction fields generalizing results with
  | nil => simp [canonicalizeFields, eq_comm]
  | cons p rest ih =>
    obtain ⟨key, v⟩ := p
    cases key with
    | other =>
      refine iff_of_false (fun h => by cases h) fun h => ?_
      cases h with
      | cons hhead _ => cases hhead.1
    | str key =>
      rw [canonicalizeFields, Option.map_eq_some_iff]
      constructor
      · rintro ⟨others, hothers, rfl⟩
        exact .cons ⟨rfl, rfl⟩ (ih.mp hothers)
      · intro h
        cases h with
        | @cons _ r _ others hhead hrest =>
          refine ⟨others, ih.mpr hrest, ?_⟩
          obtain ⟨hkey, hvalue⟩ := hhead
          cases hkey
          rw [← hvalue]

theorem canonicalizeFields_perm {path : String} {fields fields' : List (PyKey × PyValue)}
    {results : List (String × Except String Json)} (hperm : fields.Perm fields')
    (h : canonicalizeFields path fields = some results) :
    ∃ results', canonicalizeFields path fields' = some results' ∧ results.Perm results' := by
  have hcomp : Relation.Comp List.Perm (List.Forall₂ (Canonicalizes path)) fields' results :=
    ⟨fields, hperm.symm, canonicalizeFields_eq_some_iff.mp h⟩
  rw [← List.forall₂_comp_perm_eq_perm_comp_forall₂] at hcomp
  obtain ⟨results', hresults', hback⟩ := hcomp
  exact ⟨results', canonicalizeFields_eq_some_iff.mpr hresults', hback.symm⟩

theorem keys_of_canonicalizes {path : String} {fields : List (PyKey × PyValue)}
    {results : List (String × Except String Json)}
    (h : List.Forall₂ (Canonicalizes path) fields results) :
    fields.map (·.1) = (results.map (·.1)).map .str := by
  induction h with
  | nil => rfl
  | cons hhead _ ih => rw [List.map_cons, List.map_cons, List.map_cons, hhead.1, ih]

/-- Reordered values are canonicalized alike, and so are their errors. -/
theorem Reorders.canonicalize {v w : PyValue} (h : Reorders v w) (path : String) :
    canonicalizeJson path v = canonicalizeJson path w := by
  induction h generalizing path with
  | @dict fields fields' unique perm =>
    rw [canonicalizeJson, canonicalizeJson]
    cases hfields : canonicalizeFields path fields with
    | none =>
      cases hfields' : canonicalizeFields path fields' with
      | none => rfl
      | some results' =>
        obtain ⟨results, hresults, -⟩ := canonicalizeFields_perm perm.symm hfields'
        rw [hfields] at hresults
        cases hresults
    | some results =>
      obtain ⟨results', hresults', hperm⟩ := canonicalizeFields_perm perm hfields
      have hkeys := keys_of_canonicalizes (canonicalizeFields_eq_some_iff.mp hfields)
      have hsort := @insertionSort_key_congr _ _ _ Prod.fst _ _ (unique _ hkeys) hperm
      rw [hresults']
      dsimp only
      unfold sequenceFields
      rw [hsort]
  | field before after key h ih =>
    rw [canonicalizeJson, canonicalizeJson, canonicalizeFields_replace path ih]
  | item before after h ih =>
    rw [canonicalizeJson, canonicalizeJson, canonicalizeItems_replace path ih]
  | tupleItem before after h ih =>
    rw [canonicalizeJson, canonicalizeJson, canonicalizeItems_replace path ih]

theorem PyDict.Reordered.canonicalize {o o' : PyDict} (h : o.Reordered o') (path : String) :
    canonicalizeJson path (.dict o.fields) = canonicalizeJson path (.dict o'.fields) := by
  unfold PyDict.Reordered at h
  generalize PyValue.dict o.fields = v at h
  generalize PyValue.dict o'.fields = w at h
  induction h with
  | refl => rfl
  | tail _ hlast ih => exact ih.trans (hlast.canonicalize path)

theorem objectField_congr {o o' : PyDict} (h : o.Reordered o') (path : String) :
    objectField path o = objectField path o' := by
  have hcanonical := h.canonicalize path
  have hvalidate : JsonObject.validate path o.fields o.wellFormed =
      JsonObject.validate path o'.fields o'.wellFormed := by
    unfold JsonObject.validate
    split
    · rename_i message hmessage
      rw [hcanonical] at hmessage
      split
      · rename_i message' hmessage'
        rw [hmessage] at hmessage'
        cases hmessage'
        rfl
      · rename_i j hj
        rw [hmessage] at hj
        cases hj
    · rename_i j hj
      rw [hcanonical] at hj
      split
      · rename_i message' hmessage'
        rw [hj] at hmessage'
        cases hmessage'
      · rename_i j' hj'
        rw [hj] at hj'
        cases hj'
        rfl
  unfold objectField
  rw [hvalidate]

/-! ### Models -/

structure ReproducibilityMetadata.Respelled (r q : ReproducibilityMetadata PyDict) : Prop where
  evaluatorId : r.evaluatorId = q.evaluatorId
  evaluatorRevision : r.evaluatorRevision = q.evaluatorRevision
  randomSeed : r.randomSeed = q.randomSeed
  runtimeConfig : r.runtimeConfig.Reordered q.runtimeConfig

structure BacktestMetrics.Respelled (m n : BacktestMetrics PyDecimal) : Prop where
  totalReturn : Option.Rel PyDecimal.SameNumber m.totalReturn n.totalReturn
  maxDrawdown : Option.Rel PyDecimal.SameNumber m.maxDrawdown n.maxDrawdown
  annualizedVolatility :
    Option.Rel PyDecimal.SameNumber m.annualizedVolatility n.annualizedVolatility
  sharpeRatio : Option.Rel PyDecimal.SameNumber m.sharpeRatio n.sharpeRatio
  sortinoRatio : Option.Rel PyDecimal.SameNumber m.sortinoRatio n.sortinoRatio
  calmarRatio : Option.Rel PyDecimal.SameNumber m.calmarRatio n.calmarRatio
  valueAtRisk : Option.Rel PyDecimal.SameNumber m.valueAtRisk n.valueAtRisk
  exposure : m.exposure.SameNumber n.exposure
  benchmarkReturn : Option.Rel PyDecimal.SameNumber m.benchmarkReturn n.benchmarkReturn
  benchmarkExcessReturn :
    Option.Rel PyDecimal.SameNumber m.benchmarkExcessReturn n.benchmarkExcessReturn
  tradeCount : m.tradeCount = n.tradeCount
  winningTradeCount : m.winningTradeCount = n.winningTradeCount
  losingTradeCount : m.losingTradeCount = n.losingTradeCount
  breakevenTradeCount : m.breakevenTradeCount = n.breakevenTradeCount
  feesPaid : m.feesPaid.SameNumber n.feesPaid
  slippagePaid : m.slippagePaid.SameNumber n.slippagePaid

structure SubmittedTrade.Respelled (t u : SubmittedTrade) : Prop where
  sequence : t.sequence = u.sequence
  assetId : t.assetId = u.assetId
  direction : t.direction = u.direction
  entryTime : t.entryTime.SameInstant u.entryTime
  exitTime : t.exitTime.SameInstant u.exitTime
  entryPrice : t.entryPrice.SameNumber u.entryPrice
  exitPrice : t.exitPrice.SameNumber u.exitPrice
  quantity : t.quantity.SameNumber u.quantity
  grossPnl : t.grossPnl.SameNumber u.grossPnl
  netPnl : t.netPnl.SameNumber u.netPnl
  feesPaid : t.feesPaid.SameNumber u.feesPaid
  slippagePaid : t.slippagePaid.SameNumber u.slippagePaid
  entrySignalId : t.entrySignalId = u.entrySignalId
  exitSignalId : t.exitSignalId = u.exitSignalId
  metadata : t.metadata.Reordered u.metadata

structure SubmittedSignal.Respelled (s t : SubmittedSignal) : Prop where
  sequence : s.sequence = t.sequence
  assetId : s.assetId = t.assetId
  eventType : s.eventType = t.eventType
  eventTime : s.eventTime.SameInstant t.eventTime
  observedAt : s.observedAt.SameInstant t.observedAt
  signalId : s.signalId = t.signalId
  positionState : s.positionState = t.positionState
  payload : s.payload.Reordered t.payload

/-- One result, written down in another way. -/
structure SubmittedResult.Respelled (a b : SubmittedResult) : Prop where
  strategyVersionId : a.strategyVersionId = b.strategyVersionId
  data : a.data = b.data
  startTime : a.startTime.SameInstant b.startTime
  endTime : a.endTime.SameInstant b.endTime
  initialCapital : a.initialCapital.SameNumber b.initialCapital
  finalEquity : a.finalEquity.SameNumber b.finalEquity
  metrics : a.metrics.Respelled b.metrics
  trades : ∃ trades, a.trades.Perm trades ∧ List.Forall₂ SubmittedTrade.Respelled trades b.trades
  signals : ∃ signals, a.signals.Perm signals ∧ List.Forall₂ SubmittedSignal.Respelled signals b.signals
  generatedAt : a.generatedAt.SameInstant b.generatedAt
  reproducibility : a.reproducibility.Respelled b.reproducibility

theorem ReproducibilityMetadata.Respelled.validate {r q : ReproducibilityMetadata PyDict}
    (h : r.Respelled q) : r.validate = q.validate := by
  unfold ReproducibilityMetadata.validate
  rw [h.evaluatorId, h.evaluatorRevision, h.randomSeed, objectField_congr h.runtimeConfig]

theorem BacktestMetrics.Respelled.validate {m n : BacktestMetrics PyDecimal} (h : m.Respelled n) :
    m.validate = n.validate := by
  have hratio : ∀ {x y : Option PyDecimal} (bounds : List Bound) (fieldName : String),
      Option.Rel PyDecimal.SameNumber x y →
      optionalField (ratioField bounds fieldName) x = optionalField (ratioField bounds fieldName) y :=
    fun bounds fieldName hxy => @optionalField_congr _ _ _ (ratioField bounds fieldName)
      (fun _ _ hab => ratioField_congr hab bounds fieldName) _ _ hxy
  unfold BacktestMetrics.validate
  rw [hratio _ _ h.totalReturn, hratio _ _ h.maxDrawdown, hratio _ _ h.annualizedVolatility,
    hratio _ _ h.sharpeRatio, hratio _ _ h.sortinoRatio, hratio _ _ h.calmarRatio,
    hratio _ _ h.valueAtRisk, ratioField_congr h.exposure, hratio _ _ h.benchmarkReturn,
    hratio _ _ h.benchmarkExcessReturn, h.tradeCount, h.winningTradeCount, h.losingTradeCount,
    h.breakevenTradeCount, amountField_congr h.feesPaid, amountField_congr h.slippagePaid]

theorem SubmittedTrade.Respelled.validate {t u : SubmittedTrade} (h : t.Respelled u) :
    t.validate = u.validate := by
  unfold SubmittedTrade.validate
  rw [h.sequence, h.assetId, h.direction, normalizeUtc_congr h.entryTime, normalizeUtc_congr h.exitTime,
    amountField_congr h.entryPrice, amountField_congr h.exitPrice, amountField_congr h.quantity,
    amountField_congr h.grossPnl, amountField_congr h.netPnl, amountField_congr h.feesPaid,
    amountField_congr h.slippagePaid, h.entrySignalId, h.exitSignalId, objectField_congr h.metadata]

theorem SubmittedSignal.Respelled.validate {s t : SubmittedSignal} (h : s.Respelled t) :
    s.validate = t.validate := by
  unfold SubmittedSignal.validate
  rw [h.sequence, h.assetId, h.eventType, normalizeUtc_congr h.eventTime,
    normalizeUtc_congr h.observedAt, h.signalId, h.positionState, objectField_congr h.payload]

/-! ### Tuples -/

theorem bind_eq_ok_iff {α β : Type} {x : Except InputError α} {k : α → Except InputError β} {b : β} :
    (x >>= k) = .ok b ↔ ∃ a, x = .ok a ∧ k a = .ok b := by
  cases x with
  | error e => exact iff_of_false (fun h => by cases h) fun ⟨a, ha, _⟩ => by cases ha
  | ok a => exact ⟨fun h => ⟨a, rfl, h⟩, fun ⟨a', ha', h⟩ => by cases ha'; exact h⟩

theorem eachItem_eq_ok_iff {α β : Type} {item : α → Except InputError β} {as : List α} {bs : List β} :
    eachItem item as = .ok bs ↔ List.Forall₂ (fun a b => item a = .ok b) as bs := by
  induction as generalizing bs with
  | nil =>
    constructor
    · intro h
      cases h
      exact .nil
    · intro h
      cases h
      rfl
  | cons a as ih =>
    rw [eachItem]
    constructor
    · intro h
      obtain ⟨b, hb, h⟩ := bind_eq_ok_iff.mp h
      obtain ⟨others, hrest, h⟩ := bind_eq_ok_iff.mp h
      cases h
      exact .cons hb (ih.mp hrest)
    · intro h
      cases h with
      | cons hhead hrest =>
        rw [hhead, ih.mpr hrest]
        rfl

theorem eachItem_congr {α β : Type} {item : α → Except InputError β} {R : α → α → Prop}
    (hitem : ∀ a b, R a b → item a = item b) {as bs : List α} (h : List.Forall₂ R as bs) :
    eachItem item as = eachItem item bs := by
  induction h with
  | nil => rfl
  | cons hhead _ ih => rw [eachItem, eachItem, hitem _ _ hhead, ih]

theorem eachItem_perm {α β : Type} {item : α → Except InputError β} {as as' : List α} {bs : List β}
    (hperm : as.Perm as') (h : eachItem item as = .ok bs) :
    ∃ bs', eachItem item as' = .ok bs' ∧ bs.Perm bs' := by
  have hcomp : Relation.Comp List.Perm (List.Forall₂ fun a b => item a = .ok b) as' bs :=
    ⟨as, hperm.symm, eachItem_eq_ok_iff.mp h⟩
  rw [← List.forall₂_comp_perm_eq_perm_comp_forall₂] at hcomp
  obtain ⟨bs', hbs', hback⟩ := hcomp
  exact ⟨bs', eachItem_eq_ok_iff.mpr hbs', hback.symm⟩

/-- Validated items in another order are those of the submitted ones in some order. -/
theorem eachItem_perm_back {α β : Type} {item : α → Except InputError β} {as : List α} {bs bs' : List β}
    (h : eachItem item as = .ok bs) (hperm : bs.Perm bs') :
    ∃ as', as.Perm as' ∧ eachItem item as' = .ok bs' := by
  have hcomp : Relation.Comp (List.Forall₂ fun a b => item a = .ok b) List.Perm as bs' :=
    ⟨bs, eachItem_eq_ok_iff.mp h, hperm⟩
  rw [List.forall₂_comp_perm_eq_perm_comp_forall₂] at hcomp
  obtain ⟨as', has', hitems⟩ := hcomp
  exact ⟨as', has', eachItem_eq_ok_iff.mpr hitems⟩

theorem eachItem_length {α β : Type} {item : α → Except InputError β} {as : List α} {bs : List β}
    (h : eachItem item as = .ok bs) : as.length = bs.length :=
  (eachItem_eq_ok_iff.mp h).length_eq

/-! ### Normalized fields -/

/-- What `normalize` makes of a result. -/
structure SubmittedResult.Normalizes (a : SubmittedResult) (f : ResultFields Dec ℤ JsonObject) : Prop where
  strategyVersionId : f.strategyVersionId = a.strategyVersionId
  data : a.data.validate = .ok f.data
  startTime : normalizeUtc "start_time" a.startTime = .ok f.startTime
  endTime : normalizeUtc "end_time" a.endTime = .ok f.endTime
  initialCapital : amountField [.gt 0] "initial_capital" a.initialCapital = .ok f.initialCapital
  finalEquity : amountField [.gt 0] "final_equity" a.finalEquity = .ok f.finalEquity
  metrics : a.metrics.validate = .ok f.metrics
  fewTrades : checkItems maxBacktestTrades a.trades.length = .ok ()
  trades : eachItem SubmittedTrade.validate a.trades = .ok f.trades
  fewSignals : checkItems maxBacktestSignals a.signals.length = .ok ()
  signals : eachItem SubmittedSignal.validate a.signals = .ok f.signals
  generatedAt : normalizeUtc "generated_at" a.generatedAt = .ok f.generatedAt
  reproducibility : a.reproducibility.validate = .ok f.reproducibility

theorem SubmittedResult.normalize_eq_ok_iff {a : SubmittedResult} {f : ResultFields Dec ℤ JsonObject} :
    a.normalize = .ok f ↔ a.Normalizes f := by
  unfold SubmittedResult.normalize
  simp only [bind_eq_ok_iff]
  constructor
  · rintro ⟨data, hdata, start, hstart, stop, hstop, capital, hcapital, equity, hequity, metrics,
      hmetrics, ⟨⟩, hfewTrades, trades, htrades, ⟨⟩, hfewSignals, signals, hsignals, generated,
      hgenerated, reproducibility, hreproducibility, h⟩
    cases h
    exact ⟨rfl, hdata, hstart, hstop, hcapital, hequity, hmetrics, hfewTrades, htrades, hfewSignals,
      hsignals, hgenerated, hreproducibility⟩
  · intro h
    refine ⟨_, h.data, _, h.startTime, _, h.endTime, _, h.initialCapital, _, h.finalEquity, _, h.metrics,
      _, h.fewTrades, _, h.trades, _, h.fewSignals, _, h.signals, _, h.generatedAt, _,
      h.reproducibility, ?_⟩
    rw [← h.strategyVersionId]
    rfl

/-! ### Consistent results -/

/-- What `validate_result_consistency` accepts. -/
structure Consistent (f : ResultFields Dec ℤ JsonObject) : Prop where
  window : f.startTime < f.endTime
  tradeSequences : (f.trades.map (·.sequence)).Nodup
  signalSequences : (f.signals.map (·.sequence)).Nodup
  tradeCount : f.metrics.tradeCount = f.trades.length
  tradesWithin : ∀ t ∈ f.trades, f.startTime ≤ t.entryTime ∧ t.exitTime ≤ f.endTime
  signalsWithin : ∀ s ∈ f.signals, f.startTime ≤ s.eventTime ∧ s.eventTime ≤ f.endTime
  feesPaid : decimalSum (feesOf f.trades) = .ok f.metrics.feesPaid.value
  slippagePaid : decimalSum (slippageOf f.trades) = .ok f.metrics.slippagePaid.value
  outcomes : (f.metrics.winningTradeCount, f.metrics.losingTradeCount, f.metrics.breakevenTradeCount) =
    outcomes f.trades

theorem refuse_eq_ok_iff {bad : Prop} [Decidable bad] {message : String} {u : Unit} :
    refuse bad message = .ok u ↔ ¬ bad := by
  unfold refuse
  by_cases h : bad
  · rw [if_pos h]
    exact iff_of_false (fun hok => by cases hok) (not_not.mpr h)
  · rw [if_neg h]
    exact iff_of_true rfl h

theorem refuseFirst_eq_ok_iff {α : Type} {bad : α → Bool} {message : α → String} {items : List α}
    {u : Unit} : refuseFirst bad message items = .ok u ↔ ∀ a ∈ items, bad a = false := by
  unfold refuseFirst
  cases hfind : items.find? bad with
  | some a =>
    refine iff_of_false (fun hok => by cases hok) fun hall => ?_
    have hbad := List.find?_some hfind
    rw [hall a (List.mem_of_find?_eq_some hfind)] at hbad
    cases hbad
  | none =>
    refine iff_of_true rfl fun a ha => ?_
    simpa using List.find?_eq_none.mp hfind a ha

theorem consistent_iff {f : ResultFields Dec ℤ JsonObject} :
    validateResultConsistency f = .ok () ↔ Consistent f := by
  unfold validateResultConsistency
  simp only [bind_eq_ok_iff, refuse_eq_ok_iff, refuseFirst_eq_ok_iff, decide_eq_false_iff_not, not_le,
    not_not, not_lt, not_or, ne_eq]
  constructor
  · rintro ⟨⟨⟩, hwindow, ⟨⟩, htrades, ⟨⟩, hsignals, ⟨⟩, hcount, ⟨⟩, hwithin, ⟨⟩, hevents, fees, hfees,
      slippage, hslippage, ⟨⟩, hfeesPaid, ⟨⟩, hslippagePaid, houtcomes⟩
    exact ⟨hwindow, htrades, hsignals, hcount, hwithin, hevents, hfeesPaid ▸ hfees,
      hslippagePaid ▸ hslippage, houtcomes⟩
  · intro h
    exact ⟨(), h.window, (), h.tradeSequences, (), h.signalSequences, (), h.tradeCount, (),
      h.tradesWithin, (), h.signalsWithin, _, h.feesPaid, _, h.slippagePaid, (), rfl, (), rfl, h.outcomes⟩

theorem BacktestResultInput.validate_eq_ok_iff {a : SubmittedResult} {m : BacktestResultInput} :
    BacktestResultInput.validate a = .ok m ↔ a.Normalizes m.fields := by
  unfold BacktestResultInput.validate
  rw [bind_eq_ok_iff]
  constructor
  · rintro ⟨fields, hfields, h⟩
    split at h
    · cases h
      exact SubmittedResult.normalize_eq_ok_iff.mp hfields
    · cases h
  · intro h
    refine ⟨m.fields, SubmittedResult.normalize_eq_ok_iff.mpr h, ?_⟩
    split
    · rfl
    · rename_i e herror
      rw [m.consistent] at herror
      cases herror

/-! ### Results in another order -/

structure Reshuffled (f g : ResultFields Dec ℤ JsonObject) : Prop where
  others : g = { f with trades := g.trades, signals := g.signals }
  trades : f.trades.Perm g.trades
  signals : f.signals.Perm g.signals

/-- The costs of some trades, added up in two orders. -/
def SumsAgree (trades trades' : List Trade) : Prop :=
  decimalSum (feesOf trades') = decimalSum (feesOf trades) ∧
    decimalSum (slippageOf trades') = decimalSum (slippageOf trades)

theorem SubmittedResult.Respelled.normalizes {a b : SubmittedResult} {f : ResultFields Dec ℤ JsonObject}
    (h : a.Respelled b) (hf : a.Normalizes f) : ∃ g, b.Normalizes g ∧ Reshuffled f g := by
  obtain ⟨trades, htrades, hsame⟩ := h.trades
  obtain ⟨signals, hsignals, hsame'⟩ := h.signals
  obtain ⟨gtrades, hgtrades, hperm⟩ := eachItem_perm htrades hf.trades
  obtain ⟨gsignals, hgsignals, hperm'⟩ := eachItem_perm hsignals hf.signals
  refine ⟨{ f with trades := gtrades, signals := gsignals }, ?_, rfl, hperm, hperm'⟩
  constructor
  · exact hf.strategyVersionId.trans h.strategyVersionId
  · exact h.data ▸ hf.data
  · exact (normalizeUtc_congr h.startTime _).symm.trans hf.startTime
  · exact (normalizeUtc_congr h.endTime _).symm.trans hf.endTime
  · exact (amountField_congr h.initialCapital _ _).symm.trans hf.initialCapital
  · exact (amountField_congr h.finalEquity _ _).symm.trans hf.finalEquity
  · exact h.metrics.validate ▸ hf.metrics
  · rw [← hsame.length_eq, ← htrades.length_eq]
    exact hf.fewTrades
  · exact (eachItem_congr (fun _ _ ht => ht.validate) hsame).symm.trans hgtrades
  · rw [← hsame'.length_eq, ← hsignals.length_eq]
    exact hf.fewSignals
  · exact (eachItem_congr (fun _ _ hs => hs.validate) hsame').symm.trans hgsignals
  · exact (normalizeUtc_congr h.generatedAt _).symm.trans hf.generatedAt
  · exact h.reproducibility.validate ▸ hf.reproducibility

theorem outcomes_perm {trades trades' : List Trade} (h : trades.Perm trades') :
    outcomes trades = outcomes trades' := by
  unfold outcomes
  rw [h.countP_eq, h.countP_eq, h.countP_eq]

/-- Only the sums of the costs can make a difference. -/
theorem Reshuffled.consistent_iff {f g : ResultFields Dec ℤ JsonObject} (h : Reshuffled f g)
    (hf : Consistent f) : Consistent g ↔ SumsAgree f.trades g.trades := by
  obtain ⟨hothers, htrades, hsignals⟩ := h
  have hmetrics : g.metrics = f.metrics := by rw [hothers]
  have hstart : g.startTime = f.startTime := by rw [hothers]
  have hend : g.endTime = f.endTime := by rw [hothers]
  constructor
  · intro hg
    refine ⟨?_, ?_⟩
    · rw [hg.feesPaid, hf.feesPaid, hmetrics]
    · rw [hg.slippagePaid, hf.slippagePaid, hmetrics]
  · rintro ⟨hfees, hslippage⟩
    constructor
    · rw [hstart, hend]
      exact hf.window
    · exact (htrades.map _).nodup_iff.mp hf.tradeSequences
    · exact (hsignals.map _).nodup_iff.mp hf.signalSequences
    · rw [hmetrics, ← htrades.length_eq]
      exact hf.tradeCount
    · intro t ht
      rw [hstart, hend]
      exact hf.tradesWithin t (htrades.symm.subset ht)
    · intro s hs
      rw [hstart, hend]
      exact hf.signalsWithin s (hsignals.symm.subset hs)
    · rw [hfees, hf.feesPaid, hmetrics]
    · rw [hslippage, hf.slippagePaid, hmetrics]
    · rw [hmetrics, hf.outcomes, outcomes_perm htrades]

/-- The payloads sort what is in another order. -/
theorem Reshuffled.identity {m n : BacktestResultInput} (h : Reshuffled m.fields n.fields)
    (strategy : BacktestStrategySnapshot) :
    (CanonicalBacktestResult.mk n strategy).runId = (CanonicalBacktestResult.mk m strategy).runId ∧
      (CanonicalBacktestResult.mk n strategy).resultHash =
        (CanonicalBacktestResult.mk m strategy).resultHash := by
  have hm := Backtests.consistent_iff.mp m.consistent
  obtain ⟨hothers, htrades, hsignals⟩ := h
  have hsorted := @insertionSort_key_congr _ _ _ (·.sequence) _ _ hm.tradeSequences htrades
  have hsorted' := @insertionSort_key_congr _ _ _ (·.sequence) _ _ hm.signalSequences hsignals
  have hrun : (CanonicalBacktestResult.mk n strategy).runId =
      (CanonicalBacktestResult.mk m strategy).runId := by
    unfold CanonicalBacktestResult.runId CanonicalBacktestResult.runIdentityPayload
    dsimp only
    rw [hothers]
  refine ⟨hrun, ?_⟩
  unfold CanonicalBacktestResult.resultHash CanonicalBacktestResult.resultPayload
  rw [hrun]
  dsimp only
  rw [hsorted, hsorted', hothers]

theorem SubmittedResult.Respelled.reordered {a : SubmittedResult} {trades : List SubmittedTrade}
    (h : a.trades.Perm trades) : a.Respelled { a with trades := trades } := by
  have hratio : ∀ x : Option PyDecimal, Option.Rel PyDecimal.SameNumber x x := by
    intro x
    cases x with
    | none => exact .none
    | some x => exact .some (PyDecimal.SameNumber.refl x)
  have hdict : ∀ o : PyDict, o.Reordered o := fun o => Relation.ReflTransGen.refl
  have htrade : ∀ t : SubmittedTrade, t.Respelled t := by
    intro t
    constructor
    all_goals first
      | exact rfl
      | exact PyDatetime.SameInstant.refl _
      | exact PyDecimal.SameNumber.refl _
      | exact hdict _
  have hsignal : ∀ s : SubmittedSignal, s.Respelled s := by
    intro s
    constructor
    all_goals first
      | exact rfl
      | exact PyDatetime.SameInstant.refl _
      | exact hdict _
  have hmetrics : a.metrics.Respelled a.metrics := by
    constructor
    all_goals first
      | exact rfl
      | exact hratio _
      | exact PyDecimal.SameNumber.refl _
  refine ⟨rfl, rfl, PyDatetime.SameInstant.refl _, PyDatetime.SameInstant.refl _,
    PyDecimal.SameNumber.refl _, PyDecimal.SameNumber.refl _, hmetrics, ⟨trades, h, ?_⟩,
    ⟨a.signals, List.Perm.refl _, ?_⟩, PyDatetime.SameInstant.refl _, rfl, rfl, rfl, hdict _⟩
  · exact List.forall₂_same.mpr fun t _ => htrade t
  · exact List.forall₂_same.mpr fun s _ => hsignal s

/-- However the result is written down, it is accepted and has the same hashes. -/
def IdentityKept (a : SubmittedResult) (m : BacktestResultInput) : Prop :=
  ∀ b, a.Respelled b → ∃ n, BacktestResultInput.validate b = .ok n ∧
    ∀ strategy, (CanonicalBacktestResult.mk n strategy).runId =
        (CanonicalBacktestResult.mk m strategy).runId ∧
      (CanonicalBacktestResult.mk n strategy).resultHash =
        (CanonicalBacktestResult.mk m strategy).resultHash

/-- Two accepted spellings of one result have the same hashes; every spelling is accepted exactly when
the costs of the trades add up to the same in every order. -/
theorem identity_kept_iff (a : SubmittedResult) (m : BacktestResultInput)
    (ha : BacktestResultInput.validate a = .ok m) :
    (∀ b n strategy, a.Respelled b → BacktestResultInput.validate b = .ok n →
      (CanonicalBacktestResult.mk n strategy).runId = (CanonicalBacktestResult.mk m strategy).runId ∧
        (CanonicalBacktestResult.mk n strategy).resultHash =
          (CanonicalBacktestResult.mk m strategy).resultHash) ∧
    (IdentityKept a m ↔
      ∀ trades, m.fields.trades.Perm trades → SumsAgree m.fields.trades trades) := by
  have hm := BacktestResultInput.validate_eq_ok_iff.mp ha
  have hconsistent := consistent_iff.mp m.consistent
  -- the validated fields of a submission are unique
  have hunique : ∀ {b : SubmittedResult} {f g : ResultFields Dec ℤ JsonObject}, b.Normalizes f →
      b.Normalizes g → f = g := by
    intro b f g hf hg
    exact Except.ok.inj ((SubmittedResult.normalize_eq_ok_iff.mpr hf).symm.trans
      (SubmittedResult.normalize_eq_ok_iff.mpr hg))
  refine ⟨fun b n strategy hb hn => ?_, fun hkept trades hperm => ?_, fun hsums b hb => ?_⟩
  · obtain ⟨g, hg, hshuffled⟩ := hb.normalizes hm
    rw [hunique hg (BacktestResultInput.validate_eq_ok_iff.mp hn)] at hshuffled
    exact hshuffled.identity strategy
  · obtain ⟨submitted, hsubmitted, hvalid⟩ := eachItem_perm_back hm.trades hperm
    have hb := SubmittedResult.Respelled.reordered hsubmitted
    obtain ⟨n, hn, -⟩ := hkept _ hb
    obtain ⟨g, hg, hshuffled⟩ := hb.normalizes hm
    have hgn := hunique hg (BacktestResultInput.validate_eq_ok_iff.mp hn)
    have hg' : Consistent g := hgn ▸ consistent_iff.mp n.consistent
    have hsums := (hshuffled.consistent_iff hconsistent).mp hg'
    have hsame : g.trades = trades := Except.ok.inj (hg.trades.symm.trans hvalid)
    rwa [hsame] at hsums
  · obtain ⟨g, hg, hshuffled⟩ := hb.normalizes hm
    have hg' := (hshuffled.consistent_iff hconsistent).mpr (hsums _ hshuffled.trades)
    refine ⟨⟨g, consistent_iff.mpr hg'⟩, BacktestResultInput.validate_eq_ok_iff.mpr hg, fun strategy => ?_⟩
    exact Reshuffled.identity hshuffled strategy

/-! ### Costs that fit their columns -/

theorem amountField_cost {fieldName : String} {x : PyDecimal} {n : Dec}
    (h : amountField [.ge 0] fieldName x = .ok n) : Cost n := by
  cases x with
  | nonFinite => cases h
  | finite d =>
    obtain ⟨⟨⟩, hbounds, h⟩ := bind_eq_ok_iff.mp h
    have hbound := refuseFirst_eq_ok_iff.mp hbounds (.ge 0) (List.mem_singleton.mpr rfl)
    have hpos : 0 ≤ d.value := by simpa [Bound.excludes] using hbound
    split at h
    · rename_i m hm
      cases h
      obtain ⟨hfix, f, hf, -, ⟨z, hz⟩, -⟩ := (normalizeDecimal_ok_iff (by decide)).mp ⟨n, hm, rfl⟩
      refine ⟨fix_nonneg hpos hfix, z * 10 ^ (8 - f), ?_⟩
      push_cast
      rw [← hz, mul_assoc, ← pow_add, Nat.add_sub_cancel' hf]
    · cases h
    · cases h

theorem SubmittedTrade.validate_costs {t : SubmittedTrade} {u : Trade} (h : t.validate = .ok u) :
    Cost u.feesPaid ∧ Cost u.slippagePaid := by
  unfold SubmittedTrade.validate at h
  simp only [bind_eq_ok_iff] at h
  obtain ⟨_, -, _, -, _, -, _, -, _, -, _, -, _, -, _, -, _, -, _, -, _, hfees, _, hslippage, _, -, _, -,
    _, -, _, -, h⟩ := h
  cases h
  exact ⟨amountField_cost hfees, amountField_cost hslippage⟩

/-- Reported costs that fit their columns are the sums in every order. -/
theorem sums_agree_of_small {a : SubmittedResult} {m : BacktestResultInput}
    (ha : BacktestResultInput.validate a = .ok m) (hfees : m.fields.metrics.feesPaid.value < 10 ^ 16)
    (hslippage : m.fields.metrics.slippagePaid.value < 10 ^ 16) {trades : List Trade}
    (hperm : m.fields.trades.Perm trades) : SumsAgree m.fields.trades trades := by
  have hm := BacktestResultInput.validate_eq_ok_iff.mp ha
  have hconsistent := consistent_iff.mp m.consistent
  have hcosts : ∀ u ∈ m.fields.trades, Cost u.feesPaid ∧ Cost u.slippagePaid := by
    intro u hu
    obtain ⟨k, hk, rfl⟩ := List.mem_iff_getElem.mp hu
    have hvalid := eachItem_eq_ok_iff.mp hm.trades
    exact SubmittedTrade.validate_costs (hvalid.get (hvalid.length_eq ▸ hk) hk)
  constructor
  · rw [hconsistent.feesPaid]
    refine decimalSum_perm ?_ (hperm.map _) hconsistent.feesPaid hfees
    exact List.forall_mem_map.mpr fun u hu => (hcosts u hu).1
  · rw [hconsistent.slippagePaid]
    refine decimalSum_perm ?_ (hperm.map _) hconsistent.slippagePaid hslippage
    exact List.forall_mem_map.mpr fun u hu => (hcosts u hu).2

/-! Results whose trades earn nothing. -/

def noFields : PyDict := ⟨[], fun keys h => by
  have hnil : keys = [] := List.map_eq_nil_iff.mp h.symm
  rw [hnil]
  exact List.nodup_nil, trivial⟩

def dayOne : PyDatetime := { wallClock := 1767225600000000 }

def dayTwo : PyDatetime := { wallClock := 1767312000000000 }

def one : Dec := ⟨false, 1, 0⟩
def noCost : Dec := ⟨false, 0, 0⟩

/-- A trade that earns nothing. -/
def tradeCosting (sequence : ℤ) (fees : Dec) : SubmittedTrade where
  sequence := sequence
  assetId := 1
  direction := .long
  entryTime := dayOne
  exitTime := dayOne
  entryPrice := .finite one
  exitPrice := .finite one
  quantity := .finite one
  grossPnl := .finite noCost
  netPnl := .finite noCost
  feesPaid := .finite fees
  slippagePaid := .finite noCost
  metadata := noFields

def resultOf (feesPaid : Dec) (trades : List SubmittedTrade) : SubmittedResult where
  strategyVersionId := 0
  data := { source := "raw", version := "1" }
  startTime := dayOne
  endTime := dayTwo
  initialCapital := .finite one
  finalEquity := .finite one
  metrics := { exposure := .finite noCost, tradeCount := trades.length, winningTradeCount := 0
               losingTradeCount := 0, breakevenTradeCount := trades.length
               feesPaid := .finite feesPaid, slippagePaid := .finite noCost }
  trades := trades
  generatedAt := dayTwo
  reproducibility := { evaluatorId := "evaluator", evaluatorRevision := "1", runtimeConfig := noFields }

/-- A fee of 24 digits, and two that it absorbs one at a time. -/
def absorbing : List SubmittedTrade :=
  [tradeCosting 1 ⟨false, 1, 23⟩, tradeCosting 2 ⟨false, 5, -5⟩, tradeCosting 3 ⟨false, 5, -5⟩]


theorem identity_kept_two : ∃ m,
    BacktestResultInput.validate (resultOf ⟨false, 2, 0⟩ [tradeCosting 1 one, tradeCosting 2 one]) = .ok m ∧
      IdentityKept (resultOf ⟨false, 2, 0⟩ [tradeCosting 1 one, tradeCosting 2 one]) m := by
  have haccepted : ((BacktestResultInput.validate (resultOf ⟨false, 2, 0⟩
      [tradeCosting 1 one, tradeCosting 2 one])).toOption.map fun m =>
        (m.fields.metrics.feesPaid, m.fields.metrics.slippagePaid)) =
      some (⟨false, 2, 0⟩, ⟨false, 0, 0⟩) := by
    decide +kernel
  cases ha : BacktestResultInput.validate
      (resultOf ⟨false, 2, 0⟩ [tradeCosting 1 one, tradeCosting 2 one]) with
  | error e =>
    rw [ha] at haccepted
    cases haccepted
  | ok m =>
    rw [ha] at haccepted
    obtain ⟨hfees, hslippage⟩ := Prod.mk.inj (Option.some.inj haccepted)
    refine ⟨m, rfl, (identity_kept_iff _ m ha).2.mpr fun trades hperm => ?_⟩
    refine sums_agree_of_small ha ?_ ?_ hperm
    · rw [hfees]
      decide +kernel
    · rw [hslippage]
      decide +kernel

theorem absorbing_order : ¬ ∀ a m, BacktestResultInput.validate a = .ok m → IdentityKept a m := by
  intro hall
  have haccepted : (BacktestResultInput.validate (resultOf ⟨false, 1, 23⟩ absorbing)).isOk = true := by
    decide +kernel
  have hrefused :
      (BacktestResultInput.validate (resultOf ⟨false, 1, 23⟩ absorbing.reverse)).isOk = false := by
    decide +kernel
  cases ha : BacktestResultInput.validate (resultOf ⟨false, 1, 23⟩ absorbing) with
  | error e =>
    rw [ha] at haccepted
    cases haccepted
  | ok m =>
    have hb : (resultOf ⟨false, 1, 23⟩ absorbing).Respelled (resultOf ⟨false, 1, 23⟩ absorbing.reverse) :=
      SubmittedResult.Respelled.reordered (List.reverse_perm _).symm
    obtain ⟨n, hn, -⟩ := hall _ m ha _ hb
    rw [hn] at hrefused
    cases hrefused

end Quantive.Backtests
