import Quantive.Candles.BatchesAlone
import Quantive.Candles.GapRepair
import Quantive.Candles.RangeMerging

/-!
# The full historical sync

`full_historical_sync_job` and `sync_asset_job` of `workers/tasks.py`: each chunk of at most a month
is scheduled as durable repair work and then asks for the next one.
-/

namespace Quantive.Candles
open Quantive.ReadCommitted Prog

/-! ### Scheduling alone -/

theorem mem_activeGapJobs {d : Database} {assetId id : ℕ} {start stop : ℤ} :
    id ∈ activeGapJobs d assetId start stop ↔
      ∃ job, d.gapJobs.lookup id = some job ∧ GapRepairJob.meets assetId start stop job = true := by
  rw [activeGapJobs, List.mem_map]
  constructor
  · rintro ⟨e, he, rfl⟩
    rw [List.mem_insertionSort] at he
    obtain ⟨hmem, hmeets⟩ := List.mem_filter.mp he
    exact ⟨e.2, AList.mem_lookup_iff.mpr hmem, hmeets⟩
  · rintro ⟨job, hjob, hmeets⟩
    refine ⟨⟨id, job⟩, ?_, rfl⟩
    rw [List.mem_insertionSort]
    exact List.mem_filter.mpr ⟨AList.mem_lookup_iff.mp hjob, hmeets⟩

/-- No active job of the asset meets the window. -/
def Database.FreeOf (d : Database) (assetId : ℕ) (start stop : ℤ) : Prop :=
  ∀ id job, d.gapJobs.lookup id = some job → GapRepairJob.meets assetId start stop job = false

theorem Database.FreeOf.activeGapJobs {d : Database} {assetId : ℕ} {start stop : ℤ}
    (h : d.FreeOf assetId start stop) : activeGapJobs d assetId start stop = [] := by
  rw [List.eq_nil_iff_forall_not_mem]
  intro id hid
  obtain ⟨job, hjob, hmeets⟩ := mem_activeGapJobs.mp hid
  rw [h id job hjob] at hmeets
  cases hmeets

/-- The windows of the active jobs of an asset, by the job's id. -/
def Database.gapWindows (d : Database) (assetId id : ℕ) : Option (ℤ × ℤ) :=
  ((d.gapJobs.lookup id).filter fun job => job.assetId = assetId && job.status.isActive).map
    fun job => (job.startTime, job.endTime)

theorem gapWindows_some {d : Database} {assetId id : ℕ} {w : ℤ × ℤ} :
    d.gapWindows assetId id = some w ↔ ∃ job, d.gapJobs.lookup id = some job ∧
      (job.assetId = assetId ∧ job.status.isActive = true) ∧ (job.startTime, job.endTime) = w := by
  unfold Database.gapWindows
  simp only [Option.map_eq_some_iff, Option.filter_eq_some_iff, Bool.and_eq_true, decide_eq_true_eq,
    and_assoc]

/-- A new pending job adds its window to its asset's. -/
theorem gapWindows_insert {d d' : Database} {id : ℕ} {job : GapRepairJob}
    (hjobs : d'.gapJobs = d.gapJobs.insert id job) (hstatus : job.status = .pending)
    (hfresh : d.gapJobs.lookup id = none) :
    d'.gapWindows job.assetId =
      Function.update (d.gapWindows job.assetId) id (some (job.startTime, job.endTime)) ∧
    ∀ a, a ≠ job.assetId → d'.gapWindows a = d.gapWindows a := by
  constructor
  · funext j
    unfold Database.gapWindows
    rw [hjobs]
    by_cases hj : j = id
    · rw [hj, AList.lookup_insert, Function.update_self]
      simp [hstatus, GapRepairStatus.isActive]
    · rw [AList.lookup_insert_ne hj, Function.update_of_ne hj]
  · intro a ha
    funext j
    unfold Database.gapWindows
    rw [hjobs]
    by_cases hj : j = id
    · rw [hj, AList.lookup_insert, hfresh]
      simp [Ne.symm ha]
    · rw [AList.lookup_insert_ne hj]

/-- What a transaction that inserts jobs of the asset leaves: one job for every window. -/
structure JobsAdded (assetId : ℕ) (windows : List (ℤ × ℤ)) (s s' : Alone Database Write Lock) :
    Prop where
  fresh : ∀ id, s'.names ≤ id → s'.view.gapJobs.lookup id = none
  entries : ∃ new, s'.view.gapJobs.entries = new ++ s.view.gapJobs.entries ∧
    new.length = windows.length ∧
    ∀ e ∈ new, e.2.assetId = assetId ∧ (e.2.startTime, e.2.endTime) ∈ windows
  others : s'.view.assets = s.view.assets ∧ s'.view.syncRanges = s.view.syncRanges

section
variable {ans : ℕ → (q : Question) → Answer q} {s : Alone Database Write Lock}

theorem yields_insertGapJob {assetId : ℕ} {start stop : ℤ} (symbol : String) (maxRetries : ℕ)
    (hlt : start < stop) (hfree : s.view.FreeOf assetId start stop) :
    Yields ans (insertGapJob assetId symbol start stop maxRetries) s fun id s' =>
      (id = s.names ∧ s'.names = s.names + 1) ∧
      ∃ job : GapRepairJob, (job.assetId = assetId ∧ job.status = .pending) ∧
        (job.startTime = start ∧ job.endTime = stop) ∧
        (s'.view.gapJobs = s.view.gapJobs.insert id job ∧
          s'.view.assets = s.view.assets ∧ s'.view.syncRanges = s.view.syncRanges) := by
  unfold insertGapJob
  refine yields_draw (yields_query (yields_view ?_))
  have hnone : (activeGapJobs s.drawn.answered.view assetId start stop).isEmpty = true := by
    rw [Alone.answered_view, Alone.drawn_view, hfree.activeGapJobs]
    rfl
  rw [dif_pos hlt, if_pos hnone]
  obtain ⟨job, hjob⟩ : ∃ job : GapRepairJob, job =
      { assetId := assetId, symbol := symbol, startTime := start, endTime := stop
        maxRetries := maxRetries, createdAt := ans s.drawn.asked .now, valid := hlt } := ⟨_, rfl⟩
  rw [← hjob]
  refine yields_emit (yields_pure ⟨⟨rfl, rfl⟩, job, ⟨by rw [hjob], by rw [hjob]⟩,
    ⟨by rw [hjob], by rw [hjob]⟩, ?_⟩)
  rw [Alone.push_view]
  exact ⟨rfl, rfl, rfl⟩

/-- The jobs of disjoint free windows are all created, under the next ids. -/
theorem yields_insertGapJobs {assetId : ℕ} (symbol : String) (maxRetries : ℕ) {windows : List (ℤ × ℤ)}
    (hlt : ∀ w ∈ windows, w.1 < w.2) (hpairs : windows.Pairwise fun v w => v.2 ≤ w.1)
    (hfree : ∀ w ∈ windows, s.view.FreeOf assetId w.1 w.2) :
    Yields ans (collect (fun w => do
      let id ← insertGapJob assetId symbol w.1 w.2 maxRetries
      pure (some id)) windows) s fun ids s' => ids.length = windows.length ∧
        ((∀ id, s.names ≤ id → s.view.gapJobs.lookup id = none) →
          (s'.view.gapWindows assetId = placed (s.view.gapWindows assetId) s.names windows ∧
            ∀ a, a ≠ assetId → s'.view.gapWindows a = s.view.gapWindows a) ∧
          JobsAdded assetId windows s s') := by
  induction windows generalizing s with
  | nil =>
    have hnone : ∀ hfresh, JobsAdded assetId [] s s := fun hfresh =>
      ⟨hfresh, ⟨[], rfl, rfl, fun _ he => absurd he List.not_mem_nil⟩, rfl, rfl⟩
    exact yields_pure ⟨rfl, fun hfresh => ⟨⟨rfl, fun _ _ => rfl⟩, hnone hfresh⟩⟩
  | cons w windows ih =>
    obtain ⟨hfirst, hpairs⟩ := List.pairwise_cons.mp hpairs
    have hround : Yields ans (do
        let id ← insertGapJob assetId symbol w.1 w.2 maxRetries
        pure (some id)) s fun y s' => y.isSome ∧ s'.names = s.names + 1 ∧ ∃ job : GapRepairJob,
          (job.assetId = assetId ∧ job.status = .pending) ∧
          (job.startTime = w.1 ∧ job.endTime = w.2) ∧
          (s'.view.gapJobs = s.view.gapJobs.insert s.names job ∧
            s'.view.assets = s.view.assets ∧ s'.view.syncRanges = s.view.syncRanges) := by
      refine (yields_insertGapJob symbol maxRetries (hlt w List.mem_cons_self)
        (hfree w List.mem_cons_self)).bind fun id s' ⟨⟨hid, hnames⟩, hjob⟩ => ?_
      rw [hid] at hjob
      exact yields_pure ⟨rfl, hnames, hjob⟩
    refine hround.bind fun y s' ⟨hy, hnames, job, ⟨hasset, hstatus⟩, ⟨hstart, hstop⟩, hjobs, hsameAssets,
      hsameRanges⟩ => ?_
    have hrest := ih (s := s') (fun v hv => hlt v (List.mem_cons_of_mem _ hv)) hpairs ?_
    · refine hrest.bind fun ids s'' ⟨hids, hplaced⟩ => yields_pure ⟨?_, fun hfresh => ?_⟩
      · rw [List.length_append, hids, List.length_cons, Option.length_toList, if_pos hy]
        omega
      · have hnext : ∀ id, s'.names ≤ id → s'.view.gapJobs.lookup id = none := by
          intro id hid
          have hne : id ≠ s.names := by omega
          rw [hjobs, AList.lookup_insert_ne hne]
          exact hfresh id (by omega)
        obtain ⟨⟨hsame, hothers⟩, hlast, ⟨new, hentries, hcount, hin⟩, hassets, hranges⟩ := hplaced hnext
        obtain ⟨hadded, hkept⟩ := gapWindows_insert hjobs hstatus (hfresh _ le_rfl)
        rw [hasset, hstart, hstop] at hadded
        rw [hasset] at hkept
        have hnew : s.names ∉ s.view.gapJobs := AList.lookup_eq_none.mp (hfresh _ le_rfl)
        rw [hjobs, AList.entries_insert_of_notMem hnew, List.append_cons] at hentries
        refine ⟨⟨?_, fun a ha => (hothers a ha).trans (hkept a ha)⟩, hlast, ⟨_, hentries, ?_, ?_⟩,
          hassets.trans hsameAssets, hranges.trans hsameRanges⟩
        · rw [hsame, hadded, hnames]
          rfl
        · rw [List.length_append, hcount]
          rfl
        · intro e he
          rcases List.mem_append.mp he with he | he
          · exact ⟨(hin e he).1, List.mem_cons_of_mem _ (hin e he).2⟩
          · obtain rfl := List.mem_singleton.mp he
            exact ⟨hasset, by rw [hstart, hstop]; exact List.mem_cons_self⟩
    · intro v hv id' job' hjob'
      rw [hjobs] at hjob'
      by_cases hid : id' = s.names
      · rw [hid, AList.lookup_insert] at hjob'
        obtain rfl : job = job' := Option.some.inj hjob'
        have hle := hfirst v hv
        simp only [GapRepairJob.meets, hstart, hstop, Bool.and_eq_false_iff, decide_eq_false_iff_not]
        exact Or.inr (by omega)
      · rw [AList.lookup_insert_ne hid] at hjob'
        exact hfree v (List.mem_cons_of_mem _ hv) id' job' hjob'

/-- The asset is in the registry, of the exchange and active. -/
def Database.Active (d : Database) (assetId : ℕ) : Prop :=
  ∃ asset, d.assets.lookup assetId = some asset ∧ asset.exchange = "BINANCE" ∧ asset.isActive = true

/-- What the locked jobs leave uncovered is free when all of them were locked. -/
theorem uncovered_free {d : Database} {assetId : ℕ} {start stop : ℤ} (hlt : start < stop)
    {active : List (ℕ × GapRepairJob)}
    (hkeys : active.map (·.1) = activeGapJobs d assetId start stop)
    (hrows : ∀ r ∈ active, d.gapJobs.lookup r.1 = some r.2) :
    ∀ w ∈ uncoveredIntervals start stop (active.map fun r => (r.2.startTime, r.2.endTime)),
      d.FreeOf assetId w.1 w.2 := by
  intro w hw id job hjob
  have hvalid : ∀ e ∈ active.map fun r => (r.2.startTime, r.2.endTime), e.1 < e.2 := by
    intro e he
    obtain ⟨r, -, rfl⟩ := List.mem_map.mp he
    exact r.2.valid
  obtain ⟨hlow, -, hhigh⟩ := uncoveredIntervals_bounds hlt hw
  rw [Bool.eq_false_iff]
  intro hmeets
  have hwider : GapRepairJob.meets assetId start stop job = true := by
    simp only [GapRepairJob.meets, Bool.and_eq_true, decide_eq_true_eq] at hmeets ⊢
    obtain ⟨⟨⟨hasset, hstatus⟩, hbefore⟩, hafter⟩ := hmeets
    exact ⟨⟨⟨hasset, hstatus⟩, by omega⟩, by omega⟩
  have hid : id ∈ active.map (·.1) := by
    rw [hkeys]
    exact mem_activeGapJobs.mpr ⟨job, hjob, hwider⟩
  obtain ⟨r, hr, rfl⟩ := List.mem_map.mp hid
  obtain rfl : r.2 = job := Option.some.inj ((hrows r hr).symm.trans hjob)
  have hapart := uncoveredIntervals_apart hlt hvalid hw (List.mem_map.mpr ⟨r, hr, rfl⟩)
  simp only [GapRepairJob.meets, Bool.and_eq_true, decide_eq_true_eq] at hmeets
  omega

/-- The windows of the active jobs that meet a window. -/
def overlappingWindows (d : Database) (assetId : ℕ) (start stop : ℤ) : List (ℤ × ℤ) :=
  ((d.gapJobs.entries.filter fun e => GapRepairJob.meets assetId start stop e.2).insertionSort
    fun e f => e.2.startTime < f.2.startTime ∨
      e.2.startTime = f.2.startTime ∧ e.1 ≤ f.1).map fun e => (e.2.startTime, e.2.endTime)

/-- The pieces of a window that get a job; beyond the cap on overlaps there are none. -/
def uncoveredPieces (settings : GapRepairSettings) (d : Database) (assetId : ℕ) (start stop : ℤ) :
    List (ℤ × ℤ) :=
  if settings.maxActiveOverlaps < (activeGapJobs d assetId start stop).length then []
  else uncoveredIntervals start stop (overlappingWindows d assetId start stop)

/-- How many jobs `schedule_repair_jobs` returns: the created ones, or the first active one. -/
def returnedJobs (settings : GapRepairSettings) (d : Database) (assetId : ℕ) (start stop : ℤ) : ℕ :=
  max (uncoveredPieces settings d assetId start stop).length
    (min 1 (activeGapJobs d assetId start stop).length)

theorem locked_windows {d : Database} {entries : List (Sigma fun _ : ℕ => GapRepairJob)}
    (hentries : ∀ e ∈ entries, e ∈ d.gapJobs.entries) {rows : List (ℕ × GapRepairJob)}
    (hkeys : rows.map (·.1) = entries.map (·.1))
    (hrows : ∀ r ∈ rows, d.gapJobs.lookup r.1 = some r.2) :
    rows.map (fun r => (r.2.startTime, r.2.endTime)) =
      entries.map fun e => (e.2.startTime, e.2.endTime) := by
  induction entries generalizing rows with
  | nil => rw [List.map_eq_nil_iff.mp hkeys, List.map_nil, List.map_nil]
  | cons e entries ih =>
    cases rows with
    | nil => cases hkeys
    | cons r rows =>
      rw [List.map_cons, List.map_cons] at hkeys
      obtain ⟨hkey, hkeys⟩ := List.cons.inj hkeys
      have hfound := AList.mem_lookup_iff.mpr (hentries e List.mem_cons_self)
      rw [← hkey, Option.mem_def, hrows r List.mem_cons_self] at hfound
      have hrest := ih (fun e he => hentries e (List.mem_cons_of_mem _ he)) hkeys
        fun r hr => hrows r (List.mem_cons_of_mem _ hr)
      rw [List.map_cons, List.map_cons, hrest, Option.some.inj hfound]

/-- What the transaction of `schedule_repair_jobs` does, alone and with the asset active: it finds or
creates a job, and below the cap on overlaps the active jobs then cover the window. -/
theorem scheduleRepairJobs_body (settings : GapRepairSettings) {assetId : ℕ} {start stop : ℤ}
    (maxRetries : ℕ) (hlt : start < stop) : ∃ body : Task (List ℕ),
    scheduleRepairJobs settings assetId start stop maxRetries = Task.inTransaction body ∧
    ∀ {s : Alone Database Write Lock}, s.view.Active assetId →
      Yields ans body s fun jobs s' =>
        (jobs ≠ [] ∧ jobs.length = returnedJobs settings s.view assetId start stop) ∧
        ((activeGapJobs s.view assetId start stop).length ≤ settings.maxActiveOverlaps →
          (∀ id, s.names ≤ id → s.view.gapJobs.lookup id = none) →
          Separate (s.view.gapWindows assetId) →
          Completes start stop (s.view.gapWindows assetId) (s'.view.gapWindows assetId) ∧
          ∀ a, a ≠ assetId → s'.view.gapWindows a = s.view.gapWindows a) ∧
        ((∀ id, s.names ≤ id → s.view.gapJobs.lookup id = none) →
          JobsAdded assetId (uncoveredPieces settings s.view assetId start stop) s s') := by
  refine ⟨_, if_neg (not_le.mpr hlt), fun {s} hactive => ?_⟩
  obtain ⟨asset, hasset, hexchange, hisActive⟩ := hactive
  have hassets : Yields ans _ s _ := yields_lockRows Lock.asset
    (fun d id => (d.assets.lookup id).filter fun a => a.exchange = "BINANCE" && a.isActive)
    [assetId] 1 rfl fun id hid => by
      obtain rfl := List.mem_singleton.mp hid
      simp [hasset, hexchange, hisActive]
  refine hassets.bind fun assets s₁ ⟨hids, _, hview, hnames₁⟩ => ?_
  cases assets with
  | nil => cases hids
  | cons row assets =>
    obtain ⟨id, asset⟩ := row
    refine yields_view ?_
    rw [hview]
    have hlocked : Yields ans _ s₁ _ := yields_lockRows Lock.gapJob
      (fun d id => (d.gapJobs.lookup id).filter (GapRepairJob.meets assetId start stop))
      (activeGapJobs s.view assetId start stop) (settings.maxActiveOverlaps + 1) hview
      fun id hid => by
        obtain ⟨job, hjob, hmeets⟩ := mem_activeGapJobs.mp hid
        simp [hjob, hmeets]
    refine hlocked.bind fun active s₂ ⟨hkeys, hrows, hsame, hnames₂⟩ => ?_
    have hnames : s₂.names = s.names := hnames₂.trans hnames₁
    have hfound : ∀ r ∈ active, s.view.gapJobs.lookup r.1 = some r.2 := fun r hr =>
      (Option.filter_eq_some_iff.mp (hrows r hr)).1
    have hlocks := congrArg List.length hkeys
    rw [List.length_map, List.length_take] at hlocks
    have hfirst : ((active.map (·.1)).take 1).length =
        min 1 (activeGapJobs s.view assetId start stop).length := by
      rw [List.length_take, List.length_map]
      omega
    dsimp only
    by_cases hcap : settings.maxActiveOverlaps < active.length
    · have hmany : settings.maxActiveOverlaps < (activeGapJobs s.view assetId start stop).length := by
        omega
      have hnone : uncoveredPieces settings s.view assetId start stop = [] := if_pos hmany
      have hreturned : ((active.map (·.1)).take 1).length =
          returnedJobs settings s.view assetId start stop := by
        unfold returnedJobs
        rw [hnone, List.length_nil, Nat.zero_max, hfirst]
      rw [if_pos hcap]
      refine yields_pure ⟨⟨?_, hreturned⟩, fun hfew => ?_, fun hfresh => ?_⟩
      · rw [← List.length_pos_iff, hfirst]
        omega
      · omega
      · rw [hnone]
        refine ⟨fun id hid => ?_, ⟨[], by rw [hsame]; rfl, rfl, fun _ he => absurd he List.not_mem_nil⟩,
          by rw [hsame], by rw [hsame]⟩
        rw [hsame]
        exact hfresh id (hnames ▸ hid)
    · rw [if_neg hcap]
      have hfew : ¬ settings.maxActiveOverlaps < (activeGapJobs s.view assetId start stop).length := by
        omega
      have hall : active.map (·.1) = activeGapJobs s.view assetId start stop := by
        rw [hkeys, List.take_of_length_le]
        omega
      have hwindows : active.map (fun r => (r.2.startTime, r.2.endTime)) =
          overlappingWindows s.view assetId start stop := by
        refine locked_windows (fun e he => ?_) hall hfound
        exact List.mem_of_mem_filter ((List.mem_insertionSort _).mp he)
      have hpieces : uncoveredPieces settings s.view assetId start stop = uncoveredIntervals start stop
          (active.map fun r => (r.2.startTime, r.2.endTime)) := by
        rw [hwindows]
        exact if_neg hfew
      have hfree := uncovered_free hlt hall hfound
      have hvalid : ∀ e ∈ active.map fun r => (r.2.startTime, r.2.endTime), e.1 < e.2 := by
        intro e he
        obtain ⟨r, -, rfl⟩ := List.mem_map.mp he
        exact r.2.valid
      have hcreated : Yields ans _ s₂ _ := yields_insertGapJobs (upper asset.symbol) maxRetries
        (fun w hw => (uncoveredIntervals_bounds hlt hw).2.1)
        (uncoveredIntervals_pairwise hlt hvalid) (fun w hw => by
          rw [hsame]
          exact hfree w hw)
      refine hcreated.bind fun created s₃ ⟨hlength, hplaced⟩ =>
        yields_pure ⟨?_, fun _ hfresh hapart => ?_, fun hfresh => ?_⟩
      · -- without an overlap the window itself is a piece
        have hone : created = [] → activeGapJobs s.view assetId start stop ≠ [] := by
          intro hempty hnil
          rw [hnil, List.map_eq_nil_iff] at hall
          rw [hempty, hall, List.map_nil, uncoveredIntervals_nil hlt] at hlength
          cases hlength
        unfold returnedJobs
        rw [hpieces, ← hlength]
        cases created with
        | nil =>
          have hpos := List.length_pos_of_ne_nil (hone rfl)
          refine ⟨?_, ?_⟩
          · rw [List.isEmpty_nil, if_pos rfl, ← List.length_pos_iff, hfirst]
            omega
          · rw [List.isEmpty_nil, if_pos rfl, hfirst, List.length_nil, Nat.zero_max]
        | cons job jobs =>
          refine ⟨List.cons_ne_nil _ _, ?_⟩
          rw [List.isEmpty_cons, if_neg Bool.false_ne_true, List.length_cons]
          omega
      · rw [hsame, hnames] at hplaced
        obtain ⟨⟨hnow, hothers⟩, -⟩ := hplaced hfresh
        refine ⟨?_, hothers⟩
        rw [hnow]
        refine placed_completes hlt (fun id hid => ?_) (fun id w hw => ?_) hapart fun e => ?_
        · unfold Database.gapWindows
          rw [hfresh id hid]
          rfl
        · obtain ⟨job, -, -, rfl⟩ := gapWindows_some.mp hw
          exact job.valid
        · rw [List.mem_map]
          constructor
          · rintro ⟨r, hr, rfl⟩
            have hmem : r.1 ∈ activeGapJobs s.view assetId start stop := by
              rw [← hall]
              exact List.mem_map_of_mem hr
            obtain ⟨job, hjob, hmeets⟩ := mem_activeGapJobs.mp hmem
            obtain rfl : r.2 = job := Option.some.inj ((hfound r hr).symm.trans hjob)
            simp only [GapRepairJob.meets, Bool.and_eq_true, decide_eq_true_eq] at hmeets
            exact ⟨r.1, gapWindows_some.mpr ⟨r.2, hjob, hmeets.1.1, rfl⟩, hmeets.1.2, hmeets.2⟩
          · rintro ⟨id, hid, hbefore, hafter⟩
            obtain ⟨job, hjob, hactive, rfl⟩ := gapWindows_some.mp hid
            have hmeets : GapRepairJob.meets assetId start stop job = true := by
              simp only [GapRepairJob.meets, Bool.and_eq_true, decide_eq_true_eq]
              exact ⟨⟨hactive, hbefore⟩, hafter⟩
            have hmem := mem_activeGapJobs.mpr ⟨job, hjob, hmeets⟩
            rw [← hall] at hmem
            obtain ⟨r, hr, rfl⟩ := List.mem_map.mp hmem
            obtain rfl : r.2 = job := Option.some.inj ((hfound r hr).symm.trans hjob)
            exact ⟨r, hr, rfl⟩
      · rw [hpieces]
        have hadded := (hplaced fun id hid => by rw [hsame]; exact hfresh id (hnames ▸ hid)).2
        obtain ⟨new, hentries, hin⟩ := hadded.entries
        exact ⟨hadded.fresh, ⟨new, by rw [hentries, hsame], hin⟩,
          by rw [hadded.others.1, hsame], by rw [hadded.others.2, hsame]⟩

/-- Alone, and with the asset active, scheduling a window finds or creates a job; below the cap on
overlaps the active jobs then cover the window. -/
theorem yields_scheduleRepairJobs (hans : Calm ans) (settings : GapRepairSettings) {assetId : ℕ}
    {start stop : ℤ} (maxRetries : ℕ) (hlt : start < stop) (hactive : s.view.Active assetId) :
    Yields ans (scheduleRepairJobs settings assetId start stop maxRetries) s
      fun jobs s' => (jobs ≠ [] ∧
        ((activeGapJobs s.view assetId start stop).length ≤ settings.maxActiveOverlaps →
          (∀ id, s.names ≤ id → s.view.gapJobs.lookup id = none) →
          Separate (s.view.gapWindows assetId) →
          Completes start stop (s.view.gapWindows assetId) (s'.db.gapWindows assetId) ∧
          ∀ a, a ≠ assetId → s'.db.gapWindows a = s.view.gapWindows a)) ∧ s'.view = s'.db := by
  obtain ⟨body, hbody, hdoes⟩ := @scheduleRepairJobs_body ans settings assetId start stop maxRetries hlt
  rw [hbody]
  refine (yields_inTransaction (B := fun jobs d => jobs ≠ [] ∧
    ((activeGapJobs s.view assetId start stop).length ≤ settings.maxActiveOverlaps →
      (∀ id, s.names ≤ id → s.view.gapJobs.lookup id = none) →
      Separate (s.view.gapWindows assetId) →
      Completes start stop (s.view.gapWindows assetId) (d.gapWindows assetId) ∧
      ∀ a, a ≠ assetId → d.gapWindows a = s.view.gapWindows a)) hans ?_)
  exact (hdoes (s := s.answered) hactive).mono fun _ _ h => ⟨h.1.1, h.2.1⟩

end

/-! ### The chain of messages -/

/-- `datetime(year, 1, 1)`; `none` is its ValueError. -/
def yearStart (year : ℤ) : Option ℤ :=
  if 1 ≤ year ∧ year ≤ 9999 then
    let past := year - 1
    some ((365 * past + past / 4 - past / 100 + past / 400 - 719162) * day)
  else none

inductive SyncMessage where
  | fullHistoricalSync (startYear : ℤ) (cursor : Option ℤ)
  | syncAsset (startTime endTime : ℤ) (continuationStartYear : Option ℤ)

/-- What a message meets when it is delivered. -/
structure Delivery where
  now : ℤ
  state : Alone Database Write Lock
  answers : ℕ → (q : Question) → Answer q

section
variable (settings : GapRepairSettings) (assetId : ℕ) (addMonth : ℤ → ℤ)

/-- `full_historical_sync_job`, `tasks.py:121-142`: the message it sends. `addMonth` adds
`relativedelta(months=1)`. -/
def fullHistoricalSyncJob (startYear : ℤ) (cursor : Option ℤ) (now : ℤ) : Option SyncMessage :=
  match cursor <|> yearStart startYear with
  | none => none
  | some current =>
    if now ≤ current then none
    else some (.syncAsset current (min (addMonth current) now) (some startYear))

/-- `sync_asset_job`, `tasks.py:146-164`: the continuation it sends. -/
def syncAssetJob (startTime endTime : ℤ) (continuationStartYear : Option ℤ) (v : Delivery) :
    Option SyncMessage :=
  match run v.answers (scheduleRepairJobs settings assetId startTime endTime 5) v.state with
  | some (.ok (_ :: _), _) =>
    continuationStartYear.map fun year => .fullHistoricalSync year (some endTime)
  | _ => none

def deliver (v : Delivery) : SyncMessage → Option SyncMessage
  | .fullHistoricalSync startYear cursor => fullHistoricalSyncJob addMonth startYear cursor v.now
  | .syncAsset startTime endTime year => syncAssetJob settings assetId startTime endTime year v

/-- The messages of a full sync, one after the other; `none` once a delivery sends no successor. -/
def chain (startYear : ℤ) (deliveries : ℕ → Delivery) : ℕ → Option SyncMessage
  | 0 => some (.fullHistoricalSync startYear none)
  | n + 1 => (chain startYear deliveries n).bind (deliver settings assetId addMonth (deliveries n))

end

/-- The database answers, and the asset is active. -/
structure Delivery.Steady (assetId : ℕ) (v : Delivery) : Prop where
  calm : Calm v.answers
  active : v.state.view.Active assetId

/-- A message that will have a successor at `now`. -/
inductive Continues (startYear now : ℤ) : SyncMessage → Prop
  | full {cursor : Option ℤ} {current : ℤ} (hcurrent : (cursor <|> yearStart startYear) = some current)
      (hlt : current < now) : Continues startYear now (.fullHistoricalSync startYear cursor)
  | chunk {startTime endTime : ℤ} (hlt : startTime < endTime) (hpast : endTime < now) :
      Continues startYear now (.syncAsset startTime endTime (some startYear))

section
variable {settings : GapRepairSettings} {assetId : ℕ} {addMonth : ℤ → ℤ} {startYear : ℤ}

/-- A chunk whose asset is active always continues. -/
theorem syncAssetJob_continues {v : Delivery} (hv : v.Steady assetId) {startTime endTime : ℤ}
    (hlt : startTime < endTime) (year : ℤ) :
    syncAssetJob settings assetId startTime endTime (some year) v =
      some (.fullHistoricalSync year (some endTime)) := by
  obtain ⟨jobs, s, hrun, hjobs⟩ :=
    (yields_scheduleRepairJobs hv.calm settings 5 hlt hv.active).mono fun _ _ h => h.1.1
  unfold syncAssetJob
  rw [hrun]
  cases jobs with
  | nil => exact absurd rfl hjobs
  | cons job jobs => rfl

theorem deliver_continues (hmonth : ∀ t, t < addMonth t) {v : Delivery} (hv : v.Steady assetId)
    {later : ℤ} (hlater : v.now < later) {m : SyncMessage} (hm : Continues startYear v.now m) :
    ∃ m', deliver settings assetId addMonth v m = some m' ∧ Continues startYear later m' := by
  cases hm with
  | @full cursor current hcurrent hlt =>
    refine ⟨.syncAsset current (min (addMonth current) v.now) (some startYear), ?_, .chunk ?_ ?_⟩
    · show fullHistoricalSyncJob addMonth startYear cursor v.now = _
      unfold fullHistoricalSyncJob
      rw [hcurrent]
      exact if_neg (not_le.mpr hlt)
    · exact lt_min (hmonth current) hlt
    · exact lt_of_le_of_lt (min_le_right _ _) hlater
  | @chunk startTime endTime hlt hpast =>
    exact ⟨_, syncAssetJob_continues hv hlt startYear, .full rfl (hpast.trans hlater)⟩

/-- The chain ends exactly when its first message finds the start of the year not in the past. -/
theorem chain_ends_iff (hmonth : ∀ t, t < addMonth t) {deliveries : ℕ → Delivery}
    (hclock : ∀ n, (deliveries n).now < (deliveries (n + 1)).now)
    (hsteady : ∀ n, (deliveries n).Steady assetId) :
    (∃ n, chain settings assetId addMonth startYear deliveries n = none) ↔
      ∀ start ∈ yearStart startYear, (deliveries 0).now ≤ start := by
  constructor
  · rintro ⟨n, hend⟩ start hstart
    by_contra hpast
    have hgoing : ∀ n, ∃ m, chain settings assetId addMonth startYear deliveries n = some m ∧
        Continues startYear (deliveries n).now m := by
      intro n
      induction n with
      | zero => exact ⟨_, rfl, .full hstart (not_le.mp hpast)⟩
      | succ n ih =>
        obtain ⟨m, hchain, hm⟩ := ih
        obtain ⟨m', hsent, hm'⟩ := deliver_continues hmonth (hsteady n)
          (hclock n) hm
        refine ⟨m', ?_, hm'⟩
        rw [chain, hchain]
        exact hsent
    obtain ⟨m, hchain, -⟩ := hgoing n
    rw [hend] at hchain
    cases hchain
  · intro hfuture
    refine ⟨1, ?_⟩
    show fullHistoricalSyncJob addMonth startYear none (deliveries 0).now = none
    unfold fullHistoricalSyncJob
    cases hstart : yearStart startYear with
    | none => rfl
    | some start => exact if_pos (hfuture start hstart)

end

/-- Asset 1 is active; the `n`-th delivery comes `n + 1` microseconds after 1970 began. -/
def firstMoments (n : ℕ) : Delivery :=
  { now := n + 1
    state := { db := { assets := (∅ : Table ℕ AssetRegistry).insert 1 { symbol := "BTCUSDT" } } }
    answers := fun _ => steady (n + 1) }

theorem firstMoments_steady (n : ℕ) : (firstMoments n).Steady 1 :=
  ⟨calm_steady _, { symbol := "BTCUSDT" }, AList.lookup_insert _, rfl, rfl⟩

theorem firstMoments_lt (n : ℕ) : (firstMoments n).now < (firstMoments (n + 1)).now := by
  show (n : ℤ) + 1 < (n + 1 : ℕ) + 1
  omega

/-- A sync that asks for a year to come ends at once. -/
theorem future_sync_ends :
    ∃ n, chain {} 1 (fun t => t + 31 * day) 2024 firstMoments n = none := by
  refine (chain_ends_iff (fun t => by unfold day hour minute second; omega) firstMoments_lt
    firstMoments_steady).mpr fun start hstart => ?_
  obtain rfl : 1704067200000000 = start := Option.some.inj hstart
  decide

/-- A sync of the year in progress never ends, whatever a month is. -/
theorem current_sync_never_ends : ¬ ∃ addMonth : ℤ → ℤ, (∀ t, t < addMonth t) ∧
    ∃ n, chain {} 1 addMonth 1970 firstMoments n = none := by
  rintro ⟨addMonth, hmonth, hends⟩
  have hpast := (chain_ends_iff hmonth firstMoments_lt firstMoments_steady).mp hends 0 rfl
  exact absurd hpast (by decide)

end Quantive.Candles
