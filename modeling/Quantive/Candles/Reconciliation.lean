import Quantive.Candles.GapRepair
import Quantive.Candles.KlinePagination
import Quantive.Candles.NormalForm

/-!
# Reconciliation alone

A reconciliation that nothing disturbs covers the minutes it asks the exchange for, whichever
batches its stream was cut into.
-/

namespace Quantive.Candles
open Quantive.ReadCommitted Prog

/-- Surroundings in which nothing fails: the exchange has the history. -/
structure Untroubled (history : History) (ans : ℕ → (q : Question) → Answer q) : Prop where
  calm : Calm ans
  owned : ∀ n, (ans n .ownershipLost : Bool) = false
  server : ∀ n request, ans n (.klines request) = history.page request

/-- What the clock shows at the `n`-th question. -/
def clockAt (ans : ℕ → (q : Question) → Answer q) (n : ℕ) : ℤ := ans n .now

section
variable {ans : ℕ → (q : Question) → Answer q} {s : Alone Database Write Lock} {assetId : ℕ}

/-- A batch of the last seven days is covered once it is committed. -/
theorem yields_commitLiveBatch {batch : List CandlePayload} (h : Admissible assetId batch)
    (hlive : ∀ n, ∀ p ∈ batch, clockAt ans n - 7 * day ≤ p.timestamp) (writer : Writer)
    (hs : NormalForm assetId s) :
    Yields ans (commitBatchInTransaction writer assetId batch) s fun _ s' => NormalForm assetId s' ∧
      covered assetId s' = covered assetId s ∪ {t | t ∈ batch.map (·.timestamp)} := by
  unfold commitBatchInTransaction
  split
  · rename_i hempty
    obtain rfl := List.isEmpty_iff.mp hempty
    refine yields_pure ⟨hs, ?_⟩
    simp
  · rename_i hnonempty
    refine yields_query ?_
    obtain ⟨candles, hprepare, hcandles, htimes, hordered⟩ := h.prepare (ans s.asked .now)
    rw [hprepare]
    refine yields_acquire (yields_query ?_)
    obtain ⟨n, hn⟩ : ∃ n, (ans (s.answered.hold (.asset assetId)).asked .now : ℤ) = clockAt ans n :=
      ⟨_, rfl⟩
    rw [hn]
    have hrecent : ∀ c ∈ candles, clockAt ans n - 7 * day ≤ c.key.timestamp := by
      intro c hc
      have hmem : c.key.timestamp ∈ batch.map (·.timestamp) := by
        rw [← htimes]
        exact List.mem_map_of_mem hc
      obtain ⟨p, hp, htime⟩ := List.mem_map.mp hmem
      exact htime ▸ hlive n p hp
    have hall : candles.filter (fun c => clockAt ans n - 7 * day ≤ c.key.timestamp) = candles :=
      List.filter_eq_self.mpr fun c hc => decide_eq_true (hrecent c hc)
    have hnone : candles.filter (fun c => c.key.timestamp < clockAt ans n - 7 * day) = [] := by
      refine List.filter_eq_nil_iff.mpr fun c hc => ?_
      rw [decide_eq_true_eq, not_lt]
      exact hrecent c hc
    have hcandles' : candles.isEmpty = false := by
      rw [List.isEmpty_eq_false_iff]
      rintro rfl
      have hbatch : batch = [] := List.map_eq_nil_iff.mp htimes.symm
      rw [hbatch] at hnonempty
      exact hnonempty rfl
    dsimp only
    rw [hall, hnone, hcandles']
    have hstate : NormalForm assetId (s.answered.hold (.asset assetId)).answered :=
      ⟨hs.tidy, hs.fresh, hs.normal⟩
    have hmarked := @yields_fillAndMark ans _ assetId candles writer hcandles hordered hstate
    rw [htimes] at hmarked
    rw [Bool.not_false, if_pos rfl, htimes]
    simp only [← bind_assoc] at hmarked ⊢
    exact hmarked.bind fun _ s' hs' => yields_pure hs'
/-! ### Batches of klines -/

/-- The time of the candle of a kline. -/
def Kline.time (k : Kline) : ℤ := k.openTimeMs * millisecond

/-- A kline as a candle of the asset. -/
def Kline.RepairedAs (assetId : ℕ) (k : Kline) (p : CandlePayload) : Prop :=
  ∃ receivedAt, p = { k.payload receivedAt with assetId := some assetId }

theorem Kline.RepairedAs.valid {k : Kline} {p : CandlePayload} (h : k.RepairedAs assetId p)
    (haligned : k.openTimeMs % minuteMs = 0) (hvalues : k.values.Valid) (now : ℤ) :
    ∃ c, validateCandlePayload assetId now p = .ok c ∧ c.excluded.isSome := by
  obtain ⟨receivedAt, rfl⟩ := h
  have htime : k.openTimeMs * millisecond % minute = 0 := by
    unfold minuteMs at haligned
    unfold millisecond
    rw [minute_eq]
    omega
  have hsource : payloadSource (some "binance_rest") = .ok "binance_rest" := by decide +kernel
  have hchecked : payloadValues { k.payload receivedAt with assetId := some assetId } =
      .ok (some k.values) := by
    change (do checkOhlcv k.values; pure (some k.values)) = _
    rw [checkOhlcv_ok hvalues]
    rfl
  refine ⟨⟨⟨assetId, k.openTimeMs * millisecond, htime⟩, some k.values, "binance_rest",
    k.closeTimeMs.map (· * millisecond), some receivedAt⟩, ?_, ?_⟩
  · have hminute : ({ k.payload receivedAt with assetId := some assetId } :
        CandlePayload).timestamp % minute = 0 := htime
    have hname : payloadSource ({ k.payload receivedAt with assetId := some assetId } :
        CandlePayload).source = .ok "binance_rest" := hsource
    have hasset : ¬ ({ k.payload receivedAt with assetId := some assetId } :
        CandlePayload).assetId.getD assetId ≠ assetId := not_not.mpr rfl
    unfold validateCandlePayload
    rw [dif_pos hminute, hchecked, hname, if_neg hasset]
    rfl
  · unfold Candle.excluded
    dsimp only
    rw [dif_pos hvalues]
    rfl

theorem repaired_times {klines : List Kline} {batch : List CandlePayload}
    (h : List.Forall₂ (Kline.RepairedAs assetId) klines batch) :
    batch.map (·.timestamp) = klines.map Kline.time := by
  induction h with
  | nil => rfl
  | cons hfirst _ ih =>
    obtain ⟨receivedAt, rfl⟩ := hfirst
    rw [List.map_cons, List.map_cons, ih]
    rfl

theorem repaired_admissible {klines : List Kline} {batch : List CandlePayload}
    (h : List.Forall₂ (Kline.RepairedAs assetId) klines batch)
    (hvalid : ∀ k ∈ klines, k.openTimeMs % minuteMs = 0 ∧ k.values.Valid)
    (hsorted : klines.Pairwise fun j k => j.openTimeMs < k.openTimeMs) : Admissible assetId batch := by
  constructor
  · intro now p hp
    obtain ⟨k, hk, hshown⟩ : ∃ k ∈ klines, k.RepairedAs assetId p := by
      clear hvalid hsorted
      induction h with
      | nil => cases hp
      | cons hfirst _ ih =>
        rcases List.mem_cons.mp hp with rfl | hp
        · exact ⟨_, List.mem_cons_self, hfirst⟩
        · obtain ⟨k, hk, hshown⟩ := ih hp
          exact ⟨k, List.mem_cons_of_mem _ hk, hshown⟩
    exact hshown.valid (hvalid k hk).1 (hvalid k hk).2 now
  · have htimes : (batch.map (·.timestamp)).Pairwise (· < ·) := by
      rw [repaired_times h, List.pairwise_map]
      refine hsorted.imp fun hlt => ?_
      unfold Kline.time millisecond
      omega
    exact List.pairwise_map.mp htimes

/-! ### Under a claim -/

/-- Between two transactions of a repair that found the database `d`. -/
structure Between (assetId : ℕ) (d : Database) (names : ℕ) (s : Alone Database Write Lock) : Prop where
  normal : NormalForm assetId s
  settled : s.view = s.db
  gapJobs : s.db.gapJobs = d.gapJobs
  caggJobs : s.db.caggJobs = d.caggJobs
  names : names ≤ s.names

/-- The claim is that of the row, whenever it is asked for. -/
def RepairClaim.Holds (ans : ℕ → (q : Question) → Answer q) (d : Database) (c : RepairClaim) : Prop :=
  ∀ n, (gapRepairJobs.select d (gapRepairJobs.owned (clockAt ans n) c.workerId c.leaseToken)
    c.jobId).isSome

variable {d : Database} {names : ℕ} {c : RepairClaim}

theorem Between.answered (h : Between assetId d names s) : Between assetId d names s.answered :=
  ⟨⟨h.normal.tidy, h.normal.fresh, h.normal.normal⟩, h.settled, h.gapJobs, h.caggJobs, h.names⟩

theorem BatchWrite.jobs {writer : Writer} {w : Write} (h : BatchWrite writer w) (d : Database) :
    (Store.apply w d).gapJobs = d.gapJobs ∧ (Store.apply w d).caggJobs = d.caggJobs := by
  cases w with
  | putGapJob id job => cases h
  | putCaggJob id job => cases h
  | _ => exact ⟨rfl, rfl⟩

theorem yields_assertOwnedLocked (hclaim : c.Holds ans d) (hjobs : s.view.gapJobs = d.gapJobs) :
    Yields ans (gapRepairJobs.assertOwnedLocked c.jobId c.workerId c.leaseToken) s
      fun _ s' => s'.view = s.view ∧ s'.names = s.names := by
  refine yields_query ?_
  have hrow : ∀ id ∈ [c.jobId], (gapRepairJobs.select s.view (gapRepairJobs.owned
      (clockAt ans s.asked) c.workerId c.leaseToken) id).isSome := by
    intro id hid
    obtain rfl := List.mem_singleton.mp hid
    have hholds := hclaim s.asked
    unfold JobTable.select at hholds ⊢
    have hrows : gapRepairJobs.rows s.view = gapRepairJobs.rows d := hjobs
    rwa [hrows]
  have hlocked : Yields ans _ s.answered _ := yields_lockRows gapRepairJobs.lock
    (fun d id => gapRepairJobs.select d (gapRepairJobs.owned (clockAt ans s.asked) c.workerId
      c.leaseToken) id) [c.jobId] 1 rfl hrow
  refine hlocked.bind fun rows s' ⟨hkeys, _, hview, hnames⟩ => ?_
  have hfound : rows.isEmpty = false := by
    cases rows with
    | nil => cases hkeys
    | cons r rows => rfl
  rw [hfound]
  exact yields_pure ⟨hview, hnames⟩

theorem yields_commitOwnedBatch {history : History} (hans : Untroubled history ans)
    (hclaim : c.Holds ans d) {batch : List CandlePayload} (h : Admissible assetId batch)
    (hlive : ∀ n, ∀ p ∈ batch, clockAt ans n - 7 * day ≤ p.timestamp) (hs : Between assetId d names s) :
    Yields ans (commitOwnedBatch assetId c.jobId c.workerId c.leaseToken batch) s fun _ s' =>
      (NormalForm assetId s' ∧ s'.view = s'.db) ∧
        covered assetId s' = covered assetId s ∪ {t | t ∈ batch.map (·.timestamp)} := by
  refine yields_query ?_
  rw [hans.owned]
  refine yields_inTransaction_of hans.calm (yields_acquire ?_)
  have hjobs : (s.answered.answered.hold (.asset assetId)).view.gapJobs = d.gapJobs :=
    (congrArg Database.gapJobs hs.settled).trans hs.gapJobs
  refine (yields_assertOwnedLocked hclaim hjobs).bind fun _ s₁ ⟨hview, hnames⟩ => ?_
  refine yields_query ?_
  rw [hans.owned]
  have hstate : NormalForm assetId s₁.answered := by
    refine ⟨?_, fun id hid => ?_, ?_⟩
    · rw [Alone.answered_view, hview]
      exact hs.normal.tidy
    · rw [Alone.answered_view, hview]
      exact hs.normal.fresh id (hnames ▸ hid)
    · rw [Alone.answered_view, hview]
      exact hs.normal.normal
  have hbefore : covered assetId s₁.answered = covered assetId s := by
    unfold covered
    rw [Alone.answered_view, hview]
    rfl
  refine (yields_commitLiveBatch h hlive (.gapJob c.jobId) hstate).mono fun _ s₂ ⟨hnormal, hcovered⟩ => ?_
  rw [hbefore] at hcovered
  exact ⟨⟨⟨hnormal.tidy, hnormal.fresh, hnormal.normal⟩, rfl⟩, hcovered⟩

theorem yields_persist {history : History} (hans : Untroubled history ans)
    (hclaim : c.Holds ans d) {batch : List CandlePayload} (h : Admissible assetId batch)
    (hlive : ∀ n, ∀ p ∈ batch, clockAt ans n - 7 * day ≤ p.timestamp) (hs : Between assetId d names s) :
    Yields ans (persist assetId (some c) batch) s fun _ s' => Between assetId d names s' ∧
      covered assetId s' = covered assetId s ∪ {t | t ∈ batch.map (·.timestamp)} := by
  have hcommitted : Yields ans (persist assetId (some c) batch) s fun _ s' =>
      (NormalForm assetId s' ∧ s'.view = s'.db) ∧
        covered assetId s' = covered assetId s ∪ {t | t ∈ batch.map (·.timestamp)} := by
    unfold persist
    split
    · rename_i hempty
      obtain rfl := List.isEmpty_iff.mp hempty
      refine yields_pure ⟨⟨hs.normal, hs.settled⟩, ?_⟩
      simp
    · exact yields_commitOwnedBatch hans hclaim h hlive hs
  have hframe : ∀ u s', run ans (persist assetId (some c) batch) s = some (.ok u, s') →
      (s'.db.gapJobs = d.gapJobs ∧ s'.db.caggJobs = d.caggJobs) ∧ names ≤ s'.names := by
    intro u s' hrun
    have hemits : (persist assetId (some c) batch).Emits (fun _ _ => True)
        (BatchWrite (.gapJob c.jobId)) fun _ => True :=
      emits_persist ⟨trivial, trivial, trivial⟩ assetId (some c) batch
    let K (d' : Database) : Prop := d'.gapJobs = d.gapJobs ∧ d'.caggJobs = d.caggJobs
    have hwrites : ∀ w, BatchWrite (.gapJob c.jobId) w → ∀ d', K d' → K (Store.apply w d') := by
      rintro w hw d' ⟨hgap, hcagg⟩
      obtain ⟨hgap', hcagg'⟩ := hw.jobs d'
      exact ⟨hgap'.trans hgap, hcagg'.trans hcagg⟩
    have hview : K s.view := by
      rw [hs.settled]
      exact ⟨hs.gapJobs, hs.caggJobs⟩
    have hkept := run_keeps (fun _ _ => trivial) hwrites hemits ⟨hs.gapJobs, hs.caggJobs⟩ hview hrun
    exact ⟨hkept.1, hs.names.trans (run_names hrun)⟩
  refine (hcommitted.with_run hframe).mono ?_
  rintro _ s' ⟨⟨⟨hnormal, hsettled⟩, hcovered⟩, ⟨hgap, hcagg⟩, hnames⟩
  exact ⟨⟨hnormal, hsettled, hgap, hcagg, hnames⟩, hcovered⟩

/-! ### The stream -/

/-- The minutes that the exchange is asked for. -/
def askedMinutes (start stop : ℤ) : Set ℤ :=
  {t | minute ∣ t ∧ milliseconds start < milliseconds stop ∧
    milliseconds start * millisecond ≤ t ∧ t ≤ stop}

/-- The history has a valid kline for every minute of the window. -/
def History.Serves (history : History) (start stop : ℤ) : Prop :=
  ∀ t, t % minuteMs = 0 → milliseconds start ≤ t → t ≤ milliseconds stop →
    ∃ k, history.kline t = some k ∧ k.values.Valid

/-- The candles so far: those of `done` are committed, the others wait in the batch. -/
def Streamed (assetId : ℕ) (d : Database) (names : ℕ) (s₀ : Alone Database Write Lock)
    (seen : List Kline) (batch : List CandlePayload) (s : Alone Database Write Lock) : Prop :=
  ∃ done waiting, seen = done ++ waiting ∧ List.Forall₂ (Kline.RepairedAs assetId) waiting batch ∧
    Between assetId d names s ∧
    covered assetId s = covered assetId s₀ ∪ {t | t ∈ done.map Kline.time}

/-- What the klines of a stream have to be. -/
structure Acceptable (ans : ℕ → (q : Question) → Answer q) (klines : List Kline) : Prop where
  aligned : ∀ k ∈ klines, k.openTimeMs % minuteMs = 0
  valid : ∀ k ∈ klines, k.values.Valid
  recent : ∀ k ∈ klines, ∀ n, clockAt ans n - 7 * day ≤ k.time
  sorted : klines.Pairwise fun j k => j.openTimeMs < k.openTimeMs

theorem Acceptable.sublist {klines some : List Kline} (h : Acceptable ans klines)
    (hsub : some.Sublist klines) : Acceptable ans some :=
  ⟨fun k hk => h.aligned k (hsub.subset hk), fun k hk => h.valid k (hsub.subset hk),
    fun k hk => h.recent k (hsub.subset hk), h.sorted.sublist hsub⟩

/-- The waiting candles are committed. -/
theorem yields_persistWaiting {history : History} (hans : Untroubled history ans)
    (hclaim : c.Holds ans d) {done waiting : List Kline} {batch : List CandlePayload}
    {s₀ : Alone Database Write Lock} (hacceptable : Acceptable ans waiting)
    (hbatch : List.Forall₂ (Kline.RepairedAs assetId) waiting batch) (hs : Between assetId d names s)
    (hcovered : covered assetId s = covered assetId s₀ ∪ {t | t ∈ done.map Kline.time}) :
    Yields ans (persist assetId (some c) batch) s fun _ s' => Between assetId d names s' ∧
      covered assetId s' = covered assetId s₀ ∪ {t | t ∈ (done ++ waiting).map Kline.time} := by
  have hadmissible := repaired_admissible hbatch
    (fun k hk => ⟨hacceptable.aligned k hk, hacceptable.valid k hk⟩) hacceptable.sorted
  have hlive : ∀ n, ∀ p ∈ batch, clockAt ans n - 7 * day ≤ p.timestamp := by
    intro n p hp
    have htime : p.timestamp ∈ waiting.map Kline.time := by
      rw [← repaired_times hbatch]
      exact List.mem_map_of_mem hp
    obtain ⟨k, hk, hkp⟩ := List.mem_map.mp htime
    exact hkp ▸ hacceptable.recent k hk n
  refine (yields_persist hans hclaim hadmissible hlive hs).mono fun _ s' ⟨hs', hcovered'⟩ => ⟨hs', ?_⟩
  rw [hcovered', hcovered, repaired_times hbatch, Set.union_assoc]
  congr 1
  ext t
  rw [List.map_append, Set.mem_union]
  exact List.mem_append.symm

theorem yields_reconcileCandle {history : History} (hans : Untroubled history ans)
    (hclaim : c.Holds ans d) {all seen : List Kline} {k : Kline} {batch : List CandlePayload}
    {s₀ : Alone Database Write Lock} (hacceptable : Acceptable ans all) (hin : seen ++ [k] <+: all)
    (h : Streamed assetId d names s₀ seen batch s) (batchSize : ℕ) (receivedAt : ℤ) :
    Yields ans (reconcileCandle assetId (some c) batchSize batch (k.payload receivedAt)) s
      fun batch' s' => Streamed assetId d names s₀ (seen ++ [k]) batch' s' := by
  obtain ⟨done, waiting, rfl, hbatch, hs, hcovered⟩ := h
  refine yields_query ?_
  rw [hans.owned]
  have hlonger : List.Forall₂ (Kline.RepairedAs assetId) (waiting ++ [k])
      (batch ++ [{ k.payload receivedAt with assetId := some assetId }]) :=
    List.rel_append hbatch (.cons ⟨receivedAt, rfl⟩ .nil)
  have hcovered' : covered assetId s.answered = covered assetId s₀ ∪ {t | t ∈ done.map Kline.time} :=
    hcovered
  rw [List.append_assoc] at hin ⊢
  dsimp only
  rw [if_neg Bool.false_ne_true]
  by_cases hfull : batchSize ≤ (batch ++ [{ k.payload receivedAt with assetId := some assetId }]).length
  · rw [if_pos hfull]
    have hsub : (waiting ++ [k]).Sublist all :=
      (List.sublist_append_right done _).trans hin.sublist
    refine (yields_persistWaiting hans hclaim (hacceptable.sublist hsub) hlonger hs.answered
      hcovered').bind fun _ s' ⟨hs', hall⟩ => ?_
    refine yields_pure ⟨done ++ (waiting ++ [k]), [], (List.append_nil _).symm, .nil, hs', hall⟩
  · rw [if_neg hfull]
    exact yields_pure ⟨done, waiting ++ [k], rfl, hlonger, hs.answered, hcovered'⟩

theorem klines_times {history : History} {start stop : ℤ} (hserves : history.Serves start stop)
    (hlt : milliseconds start < milliseconds stop) :
    {t | t ∈ (history.klines (milliseconds start) (milliseconds stop)).map Kline.time} =
      askedMinutes start stop := by
  ext t
  rw [Set.mem_ofPred_eq, List.mem_map]
  constructor
  · rintro ⟨k, hk, rfl⟩
    obtain ⟨hkline, hlow, hhigh⟩ := History.mem_klines.mp hk
    have hmod := (history.openTime _ k hkline).2
    unfold Kline.time
    unfold minuteMs at hmod
    unfold milliseconds millisecond at hlow hhigh hlt
    refine ⟨?_, hlt, ?_, ?_⟩
    · rw [minute_eq]
      unfold millisecond
      omega
    · unfold milliseconds millisecond
      omega
    · unfold millisecond
      omega
  · rintro ⟨hminute, -, hlow, hhigh⟩
    rw [minute_eq] at hminute
    have hmod : t / 1000 % minuteMs = 0 := by
      unfold minuteMs
      omega
    unfold milliseconds millisecond at hlow
    obtain ⟨k, hk, -⟩ := hserves (t / 1000) hmod (by unfold milliseconds millisecond; omega)
      (by unfold milliseconds millisecond; omega)
    have hopen := (history.openTime _ k hk).1
    refine ⟨k, History.mem_klines.mpr ⟨hopen.symm ▸ hk, ?_, ?_⟩, ?_⟩
    · rw [hopen]
      unfold milliseconds millisecond
      omega
    · rw [hopen]
      unfold milliseconds millisecond
      omega
    · unfold Kline.time millisecond
      rw [hopen]
      omega

theorem klines_acceptable {history : History} {start stop : ℤ} (hserves : history.Serves start stop)
    (hrecent : ∀ n, clockAt ans n - 7 * day ≤ milliseconds start * millisecond) :
    Acceptable ans (history.klines (milliseconds start) (milliseconds stop)) := by
  constructor
  · intro k hk
    exact (history.openTime _ k (History.mem_klines.mp hk).1).2
  · intro k hk
    obtain ⟨hkline, hlow, hhigh⟩ := History.mem_klines.mp hk
    obtain ⟨k', hk', hvalid⟩ := hserves _ (history.openTime _ k hkline).2 hlow hhigh
    obtain rfl : k = k' := Option.some.inj (hkline.symm.trans hk')
    exact hvalid
  · intro k hk n
    have hlow := (History.mem_klines.mp hk).2.1
    have hfrom := hrecent n
    unfold Kline.time
    unfold millisecond at hfrom ⊢
    omega
  · exact history.klines_sorted _ _

/-- A reconciliation covers the minutes it asks for. -/
theorem yields_executeReconciliation {history : History} (hans : Untroubled history ans)
    (hclaim : c.Holds ans d) {start stop : ℤ} (hserves : history.Serves start stop)
    (hrecent : ∀ n, clockAt ans n - 7 * day ≤ milliseconds start * millisecond) {batchSize fuel : ℕ}
    (hbatch : 0 < batchSize) (hfuel : (milliseconds stop - milliseconds start).toNat < fuel)
    (symbol : String) (hs : Between assetId d names s) :
    Yields ans (executeReconciliation assetId symbol start stop batchSize (some c) fuel) s
      fun _ s' => Between assetId d names s' ∧
        covered assetId s' = covered assetId s ∪ askedMinutes start stop := by
  unfold executeReconciliation
  rw [if_neg (by omega : ¬ batchSize = 0)]
  have hstart : Streamed assetId d names s [] [] s := by
    refine ⟨[], [], rfl, .nil, hs, ?_⟩
    simp
  by_cases hlt : milliseconds start < milliseconds stop
  · have hacceptable := @klines_acceptable ans history start stop hserves hrecent
    have hstream : Yields ans (getKlines (reconcileCandle assetId (some c) batchSize) symbol start stop
        fuel []) s fun batch s' => Streamed assetId d names s
          (history.klines (milliseconds start) (milliseconds stop)) batch s' := by
      refine yields_klinePages hans.server (fun seen batch s' h => ?_)
        (fun seen k batch s' receivedAt hin h => ?_) (.inl hlt) hfuel (List.nil_append _) hstart
      · obtain ⟨done, waiting, hseen, hbatch, hs', hcovered⟩ := h
        exact ⟨done, waiting, hseen, hbatch, hs'.answered, hcovered⟩
      · exact yields_reconcileCandle hans hclaim hacceptable hin h batchSize receivedAt
    refine hstream.bind fun batch s' ⟨done, waiting, hall, hbatch, hs', hcovered⟩ => ?_
    have hsub : waiting.Sublist (history.klines (milliseconds start) (milliseconds stop)) := by
      rw [hall]
      exact List.sublist_append_right done waiting
    refine (yields_persistWaiting hans hclaim (hacceptable.sublist hsub) hbatch hs' hcovered).mono ?_
    rintro _ s'' ⟨hs'', hcovered''⟩
    refine ⟨hs'', ?_⟩
    rw [hcovered'', ← hall, klines_times hserves hlt]
  · -- an empty window of milliseconds is never asked for
    have hnone : getKlines (reconcileCandle assetId (some c) batchSize) symbol start stop fuel [] =
        pure [] := by
      cases fuel with
      | zero => omega
      | succ fuel =>
        unfold getKlines
        rw [klinePages, if_neg hlt]
    rw [hnone]
    have hempty : askedMinutes start stop = ∅ :=
      Set.eq_empty_iff_forall_notMem.mpr fun t ht => hlt ht.2.1
    rw [hempty, Set.union_empty]
    exact yields_pure ⟨hs, rfl⟩

end
end Quantive.Candles
