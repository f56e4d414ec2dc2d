import Mathlib
import Quantive.Candles.Exchange
import Quantive.Candles.GapRepair

/-!
# Klines that are still open

The exchange answers a klines request with every minute that has begun, the one in progress
included. A reconciliation writes what it is answered: it keeps to finished candles just when
its window does not reach the minute in progress.
-/

namespace Quantive.Candles
open Quantive.ReadCommitted Prog

/-! ### Closed writes -/

/-- The minutes of an answer with the instant it was received at. -/
def received (instant : ℤ) : KlinesResponse → List (ℤ × ℤ)
  | .klines elements => (elements.filterMap id).map fun k => (k.openTimeMs * millisecond, instant)
  | _ => []

/-- The candle of a key had closed at every instant at which it was received. -/
def ClosedAt (got : List (ℤ × ℤ)) : Write → Prop
  | .putRaw _ key _ => ∀ a ∈ got, a.1 = key.timestamp → key.timestamp + minute ≤ a.2
  | _ => True

/-- The clock of a session shows an instant between two answers. -/
def Shows (clock : ℕ → ℤ) (n : ℕ) (now : ℤ) : Prop := (∀ m < n, clock m ≤ now) ∧ now ≤ clock n

/-- Whatever the database holds at each statement and whatever else happens, the program only
writes raw rows whose candle had closed when it was received. The `n`-th answer of the exchange
is received at `clock n`. -/
def Closes {α : Type} (market : Market) (clock : ℕ → ℤ) : ℕ → List (ℤ × ℤ) → Task α → Prop
  | _, _, .ret _ => True
  | _, _, .fail _ => True
  | _, _, .halt => True
  | n, got, .read k => ∀ d, Closes market clock n got (k d)
  | n, got, .lock _ k => Closes market clock n got k
  | n, got, .tryLock _ k => ∀ b, Closes market clock n got (k b)
  | n, got, .write w k => ClosedAt got w ∧ Closes market clock n got k
  | n, got, .fresh k => ∀ m, Closes market clock n got (k m)
  | n, got, .commit k => Closes market clock n got k
  | n, got, .rollback k => Closes market clock n got k
  | n, got, .ask (.klines request) k => ∀ r, market.Answers (clock n) request r →
      Closes market clock (n + 1) (received (clock n) r ++ got) (k r)
  | n, got, .ask .now k => ∀ now, Shows clock n now → Closes market clock n got (k now)
  | n, got, .ask .fault k => ∀ r, Closes market clock n got (k r)
  | n, got, .ask .ownershipLost k => ∀ r, Closes market clock n got (k r)

/-- The minute in progress at an instant. -/
def minuteInProgress (instant : ℤ) : ℤ := floorTo minuteMs (milliseconds instant)

/-- The window `[start, stop]` asks the exchange for the minute in progress. -/
def ReachesOpenMinute (startTime endTime instant : ℤ) : Prop :=
  milliseconds startTime < milliseconds endTime ∧
    milliseconds startTime ≤ minuteInProgress instant ∧
    minuteInProgress instant ≤ milliseconds endTime

/-! ### Minutes -/

/-- A minute before the one in progress has closed. -/
theorem closed_of_lt_minuteInProgress {t instant : ℤ} (hmod : t % minuteMs = 0)
    (hlt : t < minuteInProgress instant) : t * millisecond + minute ≤ instant := by
  simp only [minuteInProgress, floorTo, milliseconds, minuteMs, millisecond, minute_eq] at *
  omega

theorem minuteInProgress_open (instant : ℤ) :
    instant < minuteInProgress instant * millisecond + minute := by
  simp only [minuteInProgress, floorTo, milliseconds, minuteMs, millisecond, minute_eq]
  omega

theorem minuteInProgress_mono {s t : ℤ} (h : s ≤ t) : minuteInProgress s ≤ minuteInProgress t := by
  simp only [minuteInProgress, floorTo, milliseconds, minuteMs, millisecond]
  omega

/-! ### Windows behind the minute in progress -/

def AllClosed (got : List (ℤ × ℤ)) : Prop := ∀ a ∈ got, a.1 + minute ≤ a.2

section
variable {α : Type} {market : Market} {clock : ℕ → ℤ} {n : ℕ} {got : List (ℤ × ℤ)}

/-- The klines of an answer are minutes of the request that have begun. -/
theorem mem_received {instant : ℤ} {request : KlinesRequest} {r : KlinesResponse}
    (hr : market.Answers instant request r) {a : ℤ × ℤ} (ha : a ∈ received instant r) :
    ∃ t ∈ minutesIn request.startTime (min request.endTime (milliseconds instant)),
      a = (t * millisecond, instant) := by
  cases r with
  | notList => cases hr
  | raised e => cases ha
  | klines elements =>
    obtain rfl : elements = (market.served instant request).map some := hr
    simp only [received, List.filterMap_map, Function.id_comp, List.filterMap_some,
      List.mem_map] at ha
    obtain ⟨k, hk, rfl⟩ := ha
    obtain ⟨t, ht, hkt⟩ := List.mem_filterMap.mp (List.mem_of_mem_take hk)
    obtain ⟨v, -, rfl⟩ := Option.map_eq_some_iff.mp hkt
    exact ⟨t, ht, rfl⟩

theorem received_closed {instant : ℤ} {request : KlinesRequest} {r : KlinesResponse}
    (hend : request.endTime < minuteInProgress instant) (hr : market.Answers instant request r) :
    AllClosed (received instant r) := by
  intro a ha
  obtain ⟨t, ht, rfl⟩ := mem_received hr ha
  obtain ⟨-, hstop, hmod⟩ := mem_minutesIn.mp ht
  have hlt : t < minuteInProgress instant := by omega
  exact closed_of_lt_minuteInProgress hmod hlt

/-- A program whose answers only hold closed minutes writes only closed candles. -/
theorem closes_of_emits {A : Question → Prop} {p : Task α}
    (hp : p.Emits (fun _ _ => True) (fun _ => True) A)
    (hA : ∀ n request r, A (.klines request) → market.Answers (clock n) request r →
      AllClosed (received (clock n) r))
    (hgot : AllClosed got) : Closes market clock n got p := by
  induction p generalizing n got with
  | ret a => trivial
  | fail e => trivial
  | halt => trivial
  | read k ih => exact fun d => ih d (hp d) hgot
  | lock l k ih => exact ih hp hgot
  | tryLock l k ih => exact fun b => ih b (hp b) hgot
  | write w k ih =>
    refine ⟨?_, ih hp.2 hgot⟩
    cases w with
    | putRaw writer key row => exact fun a ha hkey => hkey ▸ hgot a ha
    | _ => trivial
  | fresh k ih => exact fun m => ih m (hp m) hgot
  | commit k ih => exact ih hp hgot
  | rollback k ih => exact ih hp hgot
  | ask q k ih =>
    cases q with
    | now => exact fun now _ => ih now (hp.2 now trivial) hgot
    | fault => exact fun r => ih r (hp.2 r trivial) hgot
    | ownershipLost => exact fun r => ih r (hp.2 r trivial) hgot
    | klines request =>
      intro r hr
      refine ih r (hp.2 r trivial) fun a ha => ?_
      rcases List.mem_append.mp ha with ha | ha
      · exact hA n request r hp.1 hr a ha
      · exact hgot a ha

/-- A stream that is answered nothing, or asks nothing, writes nothing. -/
theorem closes_of_empty {startTime endTime : ℤ}
    (hopen : ¬ (milliseconds startTime < milliseconds endTime ∧
      milliseconds startTime ≤ minuteInProgress (clock n)))
    (assetId : ℕ) (symbol : String) (batchSize : ℕ) (claim : Option RepairClaim) (fuel : ℕ) :
    Closes market clock n got
      (executeReconciliation assetId symbol startTime endTime batchSize claim fuel) := by
  unfold executeReconciliation
  split
  · trivial
  · cases fuel with
    | zero => trivial
    | succ fuel =>
      unfold getKlines klinePages
      split
      · rename_i hlt
        intro r hr
        cases r with
        | notList => trivial
        | raised e => trivial
        | klines elements =>
          obtain rfl : elements = (market.served (clock n) _).map some := hr
          have hnone : minutesIn (milliseconds startTime)
              (min (milliseconds endTime) (milliseconds (clock n))) = [] := by
            refine List.eq_nil_iff_forall_not_mem.mpr fun t ht => ?_
            obtain ⟨hlow, hhigh, hmod⟩ := mem_minutesIn.mp ht
            simp only [minuteInProgress, floorTo, minuteMs] at hopen hmod
            omega
          have hserved : market.served (clock n) ⟨symbol, milliseconds startTime,
              milliseconds endTime, klinesLimit⟩ = [] := by
            simp [Market.served, hnone]
          rw [hserved]
          trivial
      · trivial

end

/-! ### The minute in progress is written -/

/-- The program may return `a`, after questions that take the count and the answers to `n'` and
`got'`. -/
inductive Returns {α : Type} (market : Market) (clock : ℕ → ℤ) (a : α) :
    ℕ → List (ℤ × ℤ) → Task α → ℕ → List (ℤ × ℤ) → Prop
  | ret {n got} : Returns market clock a n got (.ret a) n got
  | read {n got n' got' k} (d : Database) (h : Returns market clock a n got (k d) n' got') :
      Returns market clock a n got (.read k) n' got'
  | lock {n got n' got' l k} (h : Returns market clock a n got k n' got') :
      Returns market clock a n got (.lock l k) n' got'
  | commit {n got n' got' k} (h : Returns market clock a n got k n' got') :
      Returns market clock a n got (.commit k) n' got'
  | now {n got n' got' k} (t : ℤ) (ht : Shows clock n t)
      (h : Returns market clock a n got (k t) n' got') :
      Returns market clock a n got (.ask .now k) n' got'
  | fault {n got n' got' k} (h : Returns market clock a n got (k none) n' got') :
      Returns market clock a n got (.ask .fault k) n' got'
  | owner {n got n' got' k} (h : Returns market clock a n got (k false) n' got') :
      Returns market clock a n got (.ask .ownershipLost k) n' got'
  | klines {n got n' got' request k} (r : KlinesResponse)
      (hr : market.Answers (clock n) request r)
      (h : Returns market clock a (n + 1) (received (clock n) r ++ got) (k r) n' got') :
      Returns market clock a n got (.ask (.klines request) k) n' got'

section
variable {α β : Type} {market : Market} {clock : ℕ → ℤ} {n n' n'' : ℕ}
  {got got' got'' : List (ℤ × ℤ)}

theorem Returns.bind {a : α} {b : β} {p : Task α} {f : α → Task β}
    (hp : Returns market clock a n got p n' got')
    (hf : Returns market clock b n' got' (f a) n'' got'') :
    Returns market clock b n got (p >>= f) n'' got'' := by
  change Returns market clock b n got (p.bind f) n'' got''
  induction hp with
  | ret => exact hf
  | read d _ ih => exact .read d (ih hf)
  | lock _ ih => exact .lock (ih hf)
  | commit _ ih => exact .commit (ih hf)
  | now t ht _ ih => exact .now t ht (ih hf)
  | fault _ ih => exact .fault (ih hf)
  | owner _ ih => exact .owner (ih hf)
  | klines r hr _ ih => exact .klines r hr (ih hf)

/-- What is closed as a whole is closed behind each point it may reach. -/
theorem Closes.reach {a : α} {p : Task α} {f : α → Task β}
    (h : Closes market clock n got (p >>= f)) (hp : Returns market clock a n got p n' got') :
    Closes market clock n' got' (f a) := by
  change Closes market clock n got (p.bind f) at h
  induction hp with
  | ret => exact h
  | read d _ ih => exact ih (h d)
  | lock _ ih => exact ih h
  | commit _ ih => exact ih h
  | now t ht _ ih => exact ih (h t ht)
  | fault _ ih => exact ih (h none)
  | owner _ ih => exact ih (h false)
  | klines r hr _ ih => exact ih (h r hr)

theorem Closes.of_bind {p : Task α} {f : α → Task β}
    (h : Closes market clock n got (p >>= f)) : Closes market clock n got p := by
  change Closes market clock n got (p.bind f) at h
  induction p generalizing n got with
  | ret a => trivial
  | fail e => trivial
  | halt => trivial
  | read k ih => exact fun d => ih d (h d)
  | lock l k ih => exact ih h
  | tryLock l k ih => exact fun b => ih b (h b)
  | write w k ih => exact ⟨h.1, ih h.2⟩
  | fresh k ih => exact fun m => ih m (h m)
  | commit k ih => exact ih h
  | rollback k ih => exact ih h
  | ask q k ih =>
    cases q with
    | now => exact fun t ht => ih t (h t ht)
    | fault => exact fun r => ih r (h r)
    | ownershipLost => exact fun r => ih r (h r)
    | klines request => exact fun r hr => ih r (h r hr)

theorem Closes.of_attempt {p : Task α} (h : Closes market clock n got p.attempt) :
    Closes market clock n got p := by
  induction p generalizing n got with
  | ret a => trivial
  | fail e => trivial
  | halt => trivial
  | read k ih => exact fun d => ih d (h d)
  | lock l k ih => exact ih h
  | tryLock l k ih => exact fun b => ih b (h b)
  | write w k ih => exact ⟨h.1, ih h.2⟩
  | fresh k ih => exact fun m => ih m (h m)
  | commit k ih => exact ih h
  | rollback k ih => exact ih h
  | ask q k ih =>
    cases q with
    | now => exact fun t ht => ih t (h t ht)
    | fault => exact fun r => ih r (h r)
    | ownershipLost => exact fun r => ih r (h r)
    | klines request => exact fun r hr => ih r (h r hr)

theorem Closes.of_inTransaction {body : Task α}
    (h : Closes market clock n got (Task.inTransaction body)) : Closes market clock n got body := by
  have hconnected : Returns market clock () n got Task.connection n got := .fault .ret
  exact (h.reach hconnected).of_bind.of_bind.of_attempt

end

/-- An exchange where only the minute in progress at an instant has a kline. -/
def newListing (instant : ℤ) : Market := fun _ t =>
  if t = minuteInProgress instant then some ⟨1, 1, 1, 1, 1⟩ else none

def openKline (instant : ℤ) : Kline :=
  ⟨minuteInProgress instant, ⟨1, 1, 1, 1, 1⟩, some (minuteInProgress instant + minuteMs - 1)⟩

def openPayload (assetId : ℕ) (instant receivedAt : ℤ) : CandlePayload :=
  { (openKline instant).payload receivedAt with assetId := some assetId }

theorem served_newListing {instant : ℤ} (request : KlinesRequest)
    (hlow : request.startTime ≤ minuteInProgress instant)
    (hhigh : minuteInProgress instant ≤ request.endTime) (hlimit : 0 < request.limit) :
    (newListing instant).served instant request = [openKline instant] := by
  have hbegun : minuteInProgress instant ≤ milliseconds instant :=
    floorTo_le (by decide)
  have hmod : minuteInProgress instant % minuteMs = 0 := by
    simp only [minuteInProgress, floorTo, minuteMs]
    omega
  have hmem : minuteInProgress instant ∈ minutesIn request.startTime
      (min request.endTime (milliseconds instant)) :=
    mem_minutesIn.mpr ⟨hlow, by omega, hmod⟩
  have hkline : (newListing instant).kline instant = fun t =>
      if t = minuteInProgress instant then some (openKline instant) else none := by
    funext t
    unfold Market.kline newListing
    split
    · rename_i h
      rw [h]
      rfl
    · rfl
  have hone : ∀ l : List ℤ, l.Nodup → minuteInProgress instant ∈ l →
      l.filterMap (fun t => if t = minuteInProgress instant then some (openKline instant) else none) =
        [openKline instant] := by
    intro l hl hm
    have hmap : l.filterMap (fun t =>
        if t = minuteInProgress instant then some (openKline instant) else none) =
        (l.filter fun t => t = minuteInProgress instant).map fun _ => openKline instant := by
      rw [← List.filterMap_eq_map, List.filterMap_filter]
      simp
    rw [hmap, List.filter_eq, List.count_eq_one_of_mem hl hm]
    rfl
  unfold Market.served
  rw [hkline, hone _ (minutesIn_nodup _ _) hmem]
  exact List.take_of_length_le hlimit

/-- The open kline passes every check of the connector and of the ingestion. -/
theorem prepareBatch_openPayload (assetId : ℕ) (instant receivedAt now : ℤ) :
    ∃ c, prepareBatch assetId now [openPayload assetId instant receivedAt] = .ok [c] ∧
      c.key.timestamp = minuteInProgress instant * millisecond ∧ c.excluded.isSome := by
  have haligned : minuteInProgress instant * millisecond % minute = 0 := by
    simp only [minuteInProgress, floorTo, minuteMs, millisecond, minute_eq]
    omega
  have hvalues : payloadValues (openPayload assetId instant receivedAt) =
      .ok (some ⟨1, 1, 1, 1, 1⟩) := by
    have hcheck : checkOhlcv ⟨1, 1, 1, 1, 1⟩ = .ok () := by decide +kernel
    simp only [payloadValues, openPayload, openKline, Kline.payload, hcheck]
    rfl
  have hsource : payloadSource (some "binance_rest") = .ok "binance_rest" := by decide +kernel
  have hvalidRow : (⟨1, 1, 1, 1, 1⟩ : Ohlcv).Valid := by decide +kernel
  refine ⟨⟨⟨assetId, minuteInProgress instant * millisecond, haligned⟩, some ⟨1, 1, 1, 1, 1⟩,
    "binance_rest", (openPayload assetId instant receivedAt).sourceEventTime, some receivedAt⟩,
    ?_, rfl, by simp [Candle.excluded, hvalidRow]⟩
  have hvalid : validateCandlePayload assetId now (openPayload assetId instant receivedAt) =
      .ok ⟨⟨assetId, minuteInProgress instant * millisecond, haligned⟩, some ⟨1, 1, 1, 1, 1⟩,
        "binance_rest", (openPayload assetId instant receivedAt).sourceEventTime,
        some receivedAt⟩ := by
    have hat : (openPayload assetId instant receivedAt).timestamp % minute = 0 := haligned
    have hname : payloadSource (openPayload assetId instant receivedAt).source =
        .ok "binance_rest" := hsource
    unfold validateCandlePayload
    rw [dif_pos hat, hvalues, hname]
    simp only [openPayload, Option.getD_some, ne_eq, not_true_eq_false, if_false]
    rfl
  unfold prepareBatch
  rw [List.mapM_cons, hvalid]
  rfl

section
variable {market : Market} {clock : ℕ → ℤ} {n : ℕ} {got : List (ℤ × ℤ)}

theorem upsertRawCandle_writes {writer : Writer} {c : Candle} (hc : c.excluded.isSome)
    (h : Closes market clock n got (upsertRawCandle writer c)) :
    ∀ a ∈ got, a.1 = c.key.timestamp → c.key.timestamp + minute ≤ a.2 := by
  obtain ⟨new, hnew⟩ := Option.isSome_iff_exists.mp hc
  unfold upsertRawCandle at h
  simp only [hnew] at h
  have hlocked := h.reach (.lock .ret)
  have hread := hlocked.reach (.read {} .ret)
  exact hread.1

theorem commitBatchInTransaction_writes {writer : Writer} {assetId : ℕ} {payload : CandlePayload}
    {c : Candle} {now : ℤ} (hnow : Shows clock n now)
    (hprepare : prepareBatch assetId now [payload] = .ok [c]) (hc : c.excluded.isSome)
    (hlive : now - 7 * day ≤ c.key.timestamp)
    (h : Closes market clock n got (commitBatchInTransaction writer assetId [payload])) :
    ∀ a ∈ got, a.1 = c.key.timestamp → c.key.timestamp + minute ≤ a.2 := by
  change Closes market clock n got (Task.now >>= _) at h
  have hasked := h.reach (.now now hnow .ret)
  rw [hprepare] at hasked
  have hprepared := hasked.reach (f := _) (.ret (a := [c]))
  have hlocked := hprepared.reach (.lock .ret)
  have hcutoff := hlocked.reach (.now now hnow .ret)
  have hfilter : [c].filter (fun c => now - 7 * day ≤ c.key.timestamp) = [c] :=
    List.filter_cons_of_pos (by simpa using hlive)
  dsimp only at hcutoff
  rw [hfilter] at hcutoff
  have hupserts : Closes market clock n got (upsertRawCandles writer [c]) := hcutoff.of_bind
  have hfirst : Closes market clock n got (upsertRawCandle writer c) := hupserts.of_bind.of_bind
  exact upsertRawCandle_writes hc hfirst

/-- Under the claim of a row that holds it, the batch reaches the store. -/
theorem persist_writes {assetId : ℕ} {claim : Option RepairClaim} {payload : CandlePayload}
    {c : Candle} {now : ℤ} (hnow : Shows clock n now)
    (hprepare : prepareBatch assetId now [payload] = .ok [c]) (hc : c.excluded.isSome)
    (hlive : now - 7 * day ≤ c.key.timestamp)
    (h : Closes market clock n got (persist assetId claim [payload])) :
    ∀ a ∈ got, a.1 = c.key.timestamp → c.key.timestamp + minute ≤ a.2 := by
  cases claim with
  | none =>
    have hbatch : Closes market clock n got (Task.inTransaction do
        pure ()
        commitBatchInTransaction .direct assetId [payload]) := h
    exact commitBatchInTransaction_writes hnow hprepare hc hlive hbatch.of_inTransaction
  | some claim =>
    obtain ⟨jobId, workerId, leaseToken⟩ := claim
    let job : GapRepairJob :=
      { assetId := assetId, symbol := "", startTime := 0, endTime := 1, status := .processing
        claim := some ⟨workerId, leaseToken, now, now + 1⟩, createdAt := 0 }
    let d : Database := { gapJobs := (∅ : Table ℕ GapRepairJob).insert jobId job }
    have howned : gapRepairJobs.select d (gapRepairJobs.owned now workerId leaseToken) jobId =
        some job := by
      have hlookup : d.gapJobs.lookup jobId = some job := AList.lookup_insert _
      unfold JobTable.select
      change (d.gapJobs.lookup jobId).filter _ = some job
      rw [hlookup]
      simp [JobTable.owned, gapRepairJobs, job]
    have hrows : Returns market clock [(jobId, job)] n got
        (Task.lockRows gapRepairJobs.lock
          (gapRepairJobs.select · (gapRepairJobs.owned now workerId leaseToken)) 1 [jobId]) n got := by
      refine .lock (.read d ?_)
      simp only [Prog.bind, howned]
      exact .ret
    have hassert : Returns market clock () n got
        (gapRepairJobs.assertOwnedLocked jobId workerId leaseToken) n got :=
      .now now hnow (hrows.bind .ret)
    change Closes market clock n got (Task.ownershipLost >>= _) at h
    have hstarted := h.reach (.owner .ret)
    have hbody := Closes.of_inTransaction hstarted
    have hlocked := hbody.reach (.lock .ret)
    have hchecked := hlocked.reach hassert
    have hkept := hchecked.reach (.owner .ret)
    exact commitBatchInTransaction_writes hnow hprepare hc hlive hkept

/-- A reconciliation that is answered the kline of the minute in progress writes it. -/
theorem not_closes_of_open (hmono : Monotone clock) {startTime endTime : ℤ}
    (hopen : ReachesOpenMinute startTime endTime (clock 0)) {batchSize : ℕ} (hsize : 0 < batchSize)
    (assetId : ℕ) (symbol : String) (claim : Option RepairClaim) :
    ¬ Closes (newListing (clock 0)) clock 0 []
      (executeReconciliation assetId symbol startTime endTime batchSize claim 1) := by
  intro h
  obtain ⟨hlt, hlow, hhigh⟩ := hopen
  let payload := openPayload assetId (clock 0) (clock 0)
  let consume := reconcileCandle assetId claim batchSize
  let answer := KlinesResponse.klines [some (openKline (clock 0))]
  let got := received (clock 0) answer ++ []
  obtain ⟨c, hprepare, hkey, hc⟩ := prepareBatch_openPayload assetId (clock 0) (clock 0) (clock 0)
  have hnow : Shows clock 1 (clock 0) :=
    ⟨fun m hm => by rw [Nat.lt_one_iff.mp hm], hmono (Nat.zero_le 1)⟩
  have hlive : clock 0 - 7 * day ≤ c.key.timestamp := by
    have hbegun := minuteInProgress_open (clock 0)
    rw [hkey]
    simp only [day, hour, minute, second] at *
    omega
  have hnever (hp : Closes (newListing (clock 0)) clock 1 got (persist assetId claim [payload])) :
      False := by
    have hclosed := persist_writes hnow hprepare hc hlive hp
      (minuteInProgress (clock 0) * millisecond, clock 0) List.mem_cons_self hkey.symm
    rw [hkey] at hclosed
    exact absurd hclosed (not_le.mpr (minuteInProgress_open (clock 0)))
  have hanswer : (newListing (clock 0)).Answers (clock 0)
      ⟨symbol, milliseconds startTime, milliseconds endTime, klinesLimit⟩ answer := by
    have hserved := served_newListing ⟨symbol, milliseconds startTime,
      milliseconds endTime, klinesLimit⟩ hlow hhigh (Nat.succ_pos 999)
    change _ = List.map some _
    rw [hserved]
    rfl
  have hcheck : checkKline (openKline (clock 0)).values = .ok () := by
    change checkKline ⟨1, 1, 1, 1, 1⟩ = _
    decide +kernel
  have hchecked : Returns (newListing (clock 0)) clock () 1 got
      (Task.ofExcept (checkKline (openKline (clock 0)).values)) 1 got := by
    rw [hcheck]
    exact .ret
  unfold executeReconciliation at h
  rw [if_neg (Nat.ne_of_gt hsize)] at h
  change Closes _ clock 0 [] (klinePages consume symbol (milliseconds endTime) 1
    (milliseconds startTime) [] >>= fun batch => persist assetId claim batch) at h
  unfold klinePages at h
  rw [if_pos hlt] at h
  rcases Nat.lt_or_ge 1 batchSize with hlarge | hsmall
  · -- the batch is persisted when the stream ends
    have hreconcile : Returns (newListing (clock 0)) clock [payload] 1 got
        (consume [] ((openKline (clock 0)).payload (clock 0))) 1 got := by
      simp only [consume]
      unfold reconcileCandle
      have hwait : ¬ batchSize ≤ 1 := Nat.not_le.mpr hlarge
      cases claim with
      | none =>
        change Returns _ clock _ 1 got (if batchSize ≤ 1 then _ else _) 1 got
        rw [if_neg hwait]
        exact .ret
      | some claim =>
        refine .owner ?_
        change Returns _ clock _ 1 got (if batchSize ≤ 1 then _ else _) 1 got
        rw [if_neg hwait]
        exact .ret
    have hyield : Returns (newListing (clock 0)) clock [payload] 1 got
        (yieldKlines consume [some (openKline (clock 0))] []) 1 got :=
      hchecked.bind (.now (clock 0) hnow (hreconcile.bind .ret))
    refine hnever (h.reach (.klines answer hanswer (hyield.bind ?_)))
    exact .ret
  · -- the batch is full with its first candle
    have hone : batchSize = 1 := by omega
    have hstream := h.of_bind
    have hanswered := hstream.reach (.klines answer hanswer .ret)
    have hyield : Closes _ clock 1 got (yieldKlines consume [some (openKline (clock 0))] []) :=
      hanswered.of_bind
    have hreceived := (hyield.reach hchecked).reach (.now (clock 0) hnow .ret)
    have hreconcile := hreceived.of_bind
    simp only [consume, hone] at hreconcile
    unfold reconcileCandle at hreconcile
    cases claim with
    | none => exact hnever hreconcile.of_bind
    | some claim =>
      have hkept := hreconcile.reach (.owner .ret)
      exact hnever hkept.of_bind

end

/-! ### Exactly when a reconciliation keeps to closed candles -/

/-- Whatever the exchange lists and whatever other sessions do, a reconciliation keeps to closed
candles just when its window does not reach the minute in progress at its first answer. -/
theorem executeReconciliation_closes_iff {clock : ℕ → ℤ} (hmono : Monotone clock) {batchSize : ℕ}
    (hsize : 0 < batchSize) (startTime endTime : ℤ) (assetId : ℕ) (symbol : String)
    (claim : Option RepairClaim) :
    (∀ market fuel, Closes market clock 0 []
      (executeReconciliation assetId symbol startTime endTime batchSize claim fuel)) ↔
      ¬ ReachesOpenMinute startTime endTime (clock 0) := by
  constructor
  · intro h hopen
    exact not_closes_of_open hmono hopen hsize assetId symbol claim (h _ _)
  · intro hbehind market fuel
    by_cases hempty : milliseconds startTime < milliseconds endTime ∧
        milliseconds startTime ≤ minuteInProgress (clock 0)
    · have hend : milliseconds endTime < minuteInProgress (clock 0) :=
        not_le.mp fun hle => hbehind ⟨hempty.1, hempty.2, hle⟩
      have hnone : AllClosed [] := fun a ha => absurd ha List.not_mem_nil
      refine closes_of_emits (A := StreamQuestion symbol (milliseconds endTime)) ?_ ?_ hnone
      · refine (emits_executeReconciliation ?_ ?_ _ _ _ _ _).mono fun _ _ => trivial
        · exact StreamQuestion.localQuestions _ _
        · exact fun start => ⟨rfl, rfl⟩
      · intro n request r hrequest hr
        have hlater : minuteInProgress (clock 0) ≤ minuteInProgress (clock n) :=
          minuteInProgress_mono (hmono (Nat.zero_le n))
        refine received_closed ?_ hr
        rw [hrequest.2]
        exact lt_of_lt_of_le hend hlater
    · exact closes_of_empty hempty assetId symbol batchSize claim fuel

/-- The exchange lists every minute at price 1. -/
def steadyMarket : Market := fun _ _ => some ⟨1, 1, 1, 1, 1⟩

/-- A window of five minutes that ended an hour before the answers. -/
theorem executeReconciliation_closes_past :
    Closes steadyMarket (fun _ => 2 * hour) 0 []
      (executeReconciliation 1 "BTCUSDT" (55 * minute) hour 1000 none 2) :=
  (executeReconciliation_closes_iff monotone_const (by decide) (55 * minute) hour 1 "BTCUSDT"
    none).mpr (by unfold ReachesOpenMinute; decide) steadyMarket 2

/-- The raw rows after a scan of the last minute and the repair of the job that it scheduled, both
at one instant. -/
def scanAndRepair (instant : ℤ) : Option (List CandleKey) :=
  let ans := undisturbed steadyMarket fun _ => instant
  let start : Database := { assets := (∅ : Table ℕ AssetRegistry).insert 1 { symbol := "BTCUSDT" } }
  (run ans (scanAndScheduleActiveAssets {} {} minute) { db := start }).bind fun s =>
    (run ans (processNextGapJob {} 2) s.2).map fun s => s.2.db.raw.keys

/-- At half past the minute, a scan up to now stores the candle of the minute in progress. -/
theorem scan_stores_open_candle :
    scanAndRepair (90 * second) = some [⟨1, minute, by decide⟩] ∧ 90 * second < minute + minute := by
  decide +kernel

end Quantive.Candles
