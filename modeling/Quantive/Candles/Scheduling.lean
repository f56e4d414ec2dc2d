import Quantive.Candles.HistoricalSync

/-!
# Scheduling

`schedule_repair_jobs` and `schedule_cagg_refresh_jobs` add what the active jobs leave uncovered,
and nothing that meets one of them.
-/

namespace Quantive.Candles
open Quantive.ReadCommitted Prog

/-- The windows of the active refresh jobs, by the job's id. -/
def Database.caggWindows (d : Database) (id : ℕ) : Option (ℤ × ℤ) :=
  ((d.caggJobs.lookup id).filter fun job => job.status.isActive).map
    fun job => (job.windowStart, job.windowEnd)

theorem caggWindows_some {d : Database} {id : ℕ} {w : ℤ × ℤ} :
    d.caggWindows id = some w ↔ ∃ job, d.caggJobs.lookup id = some job ∧
      job.status.isActive = true ∧ (job.windowStart, job.windowEnd) = w := by
  unfold Database.caggWindows
  simp only [Option.map_eq_some_iff, Option.filter_eq_some_iff, and_assoc]

theorem mem_activeCaggJobs {d : Database} {id : ℕ} {start stop : ℤ} :
    id ∈ activeCaggJobs d start stop ↔
      ∃ w, d.caggWindows id = some w ∧ w.1 < stop ∧ start < w.2 := by
  rw [activeCaggJobs, List.mem_map]
  constructor
  · rintro ⟨e, he, rfl⟩
    rw [List.mem_insertionSort] at he
    obtain ⟨hmem, hmeets⟩ := List.mem_filter.mp he
    simp only [CaggRefreshJob.meets, Bool.and_eq_true, decide_eq_true_eq] at hmeets
    exact ⟨_, caggWindows_some.mpr ⟨e.2, AList.mem_lookup_iff.mpr hmem, hmeets.1.1, rfl⟩, hmeets.1.2,
      hmeets.2⟩
  · rintro ⟨w, hw, hbefore, hafter⟩
    obtain ⟨job, hjob, hactive, rfl⟩ := caggWindows_some.mp hw
    refine ⟨⟨id, job⟩, ?_, rfl⟩
    rw [List.mem_insertionSort]
    refine List.mem_filter.mpr ⟨AList.mem_lookup_iff.mp hjob, ?_⟩
    simp only [CaggRefreshJob.meets, Bool.and_eq_true, decide_eq_true_eq]
    exact ⟨⟨hactive, hbefore⟩, hafter⟩

/-- An aligned window is not empty. -/
theorem computeCaggBucketAlignment_lt {startTime endTime : ℤ} {timeframe : Option String}
    {endInclusive : Bool} {window : ℤ × ℤ}
    (h : computeCaggBucketAlignment startTime endTime timeframe endInclusive = .ok window) :
    window.1 < window.2 := by
  have hwidth : 0 < bucketWidth timeframe := by
    unfold bucketWidth
    split
    · decide
    · split
      · decide
      · split
        · decide
        · split <;> decide
  have hwindow : ∀ stop, startTime < stop → floorTo (bucketWidth timeframe) startTime <
      if floorTo (bucketWidth timeframe) stop < stop then
        floorTo (bucketWidth timeframe) stop + bucketWidth timeframe
      else floorTo (bucketWidth timeframe) stop := by
    intro stop hlt
    have hstart := floorTo_le (t := startTime) hwidth
    have hstop := lt_floorTo_add (t := stop) hwidth
    split <;> omega
  unfold computeCaggBucketAlignment at h
  cases endInclusive with
  | true =>
    by_cases hle : endTime < startTime
    · rw [if_pos rfl, if_pos hle] at h
      cases h
    · rw [if_pos rfl, if_neg hle] at h
      obtain rfl := Except.ok.inj h
      exact hwindow (endTime + 1) (by omega)
  | false =>
    by_cases hle : endTime ≤ startTime
    · rw [if_neg Bool.false_ne_true, if_pos hle] at h
      cases h
    · rw [if_neg Bool.false_ne_true, if_neg hle] at h
      obtain rfl := Except.ok.inj h
      exact hwindow endTime (not_le.mp hle)

section
variable {ans : ℕ → (q : Question) → Answer q} {s : Alone Database Write Lock}

theorem yields_insertCaggJob {start stop : ℤ} (hlt : start < stop)
    (hfree : activeCaggJobs s.view start stop = []) :
    Yields ans (insertCaggJob start stop) s fun _ s' => s'.names = s.names + 1 ∧
      s'.view.caggWindows = Function.update s.view.caggWindows s.names (some (start, stop)) := by
  unfold insertCaggJob
  refine yields_draw (yields_query (yields_view ?_))
  have hnone : (activeCaggJobs s.drawn.answered.view start stop).isEmpty = true := by
    rw [Alone.answered_view, Alone.drawn_view, hfree]
    rfl
  rw [dif_pos hlt, if_pos hnone]
  obtain ⟨job, hjob⟩ : ∃ job : CaggRefreshJob, job =
      { windowStart := start, windowEnd := stop, createdAt := ans s.drawn.asked .now, valid := hlt } :=
    ⟨_, rfl⟩
  rw [← hjob]
  refine ⟨(), s.drawn.answered.push (.putCaggJob s.names job), rfl, rfl, ?_⟩
  have hjobs : (s.drawn.answered.push (.putCaggJob s.names job)).view.caggJobs =
      s.view.caggJobs.insert s.names job := by
    rw [Alone.push_view]
    rfl
  funext j
  unfold Database.caggWindows
  by_cases hj : j = s.names
  · rw [hj, Function.update_self]
    rw [hjobs, AList.lookup_insert, hjob]
    rfl
  · rw [Function.update_of_ne hj]
    rw [hjobs, AList.lookup_insert_ne hj]

/-- The jobs of disjoint free windows are all created, under the next ids. -/
theorem yields_insertCaggJobs {windows : List (ℤ × ℤ)} (hlt : ∀ w ∈ windows, w.1 < w.2)
    (hpairs : windows.Pairwise fun v w => v.2 ≤ w.1)
    (hfree : ∀ w ∈ windows, activeCaggJobs s.view w.1 w.2 = []) :
    Yields ans (forEach (fun w => insertCaggJob w.1 w.2) windows) s fun _ s' =>
      s'.view.caggWindows = placed s.view.caggWindows s.names windows := by
  induction windows generalizing s with
  | nil => exact yields_pure rfl
  | cons w windows ih =>
    obtain ⟨hfirst, hpairs⟩ := List.pairwise_cons.mp hpairs
    refine (yields_insertCaggJob (hlt w List.mem_cons_self) (hfree w List.mem_cons_self)).bind
      fun _ s' ⟨hnames, hwindows⟩ => ?_
    have hrest := ih (s := s') (fun v hv => hlt v (List.mem_cons_of_mem _ hv)) hpairs ?_
    · refine hrest.mono fun _ s'' hplaced => ?_
      rw [hplaced, hwindows, hnames]
      rfl
    · intro v hv
      rw [List.eq_nil_iff_forall_not_mem]
      intro id hid
      obtain ⟨x, hx, hbefore, hafter⟩ := mem_activeCaggJobs.mp hid
      rw [hwindows] at hx
      by_cases hne : id = s.names
      · rw [hne, Function.update_self] at hx
        obtain rfl := Option.some.inj hx
        have hle := hfirst v hv
        dsimp only at hbefore hafter
        omega
      · rw [Function.update_of_ne hne] at hx
        have hold := mem_activeCaggJobs.mpr ⟨x, hx, hbefore, hafter⟩
        rw [hfree v (List.mem_cons_of_mem _ hv)] at hold
        cases hold

theorem yields_scheduleCaggRefreshJobs {startTime endTime : ℤ} {timeframe : Option String}
    {endInclusive : Bool} {window : ℤ × ℤ}
    (hwindow : computeCaggBucketAlignment startTime endTime timeframe endInclusive = .ok window)
    (hfresh : ∀ id, s.names ≤ id → s.view.caggJobs.lookup id = none)
    (hapart : Separate s.view.caggWindows) :
    Yields ans (scheduleCaggRefreshJobs startTime endTime timeframe endInclusive) s fun _ s' =>
      Completes window.1 window.2 s.view.caggWindows s'.view.caggWindows := by
  obtain ⟨start, stop⟩ := window
  have hlt : start < stop := computeCaggBucketAlignment_lt hwindow
  unfold scheduleCaggRefreshJobs
  rw [hwindow]
  refine yields_acquire (yields_view ?_)
  have hlocked : Yields ans _ (s.hold .caggScheduler) _ := yields_lockRows Lock.caggJob
    (fun d id => (d.caggJobs.lookup id).filter (CaggRefreshJob.meets start stop))
    (activeCaggJobs s.view start stop) (activeCaggJobs s.view start stop).length rfl
    fun id hid => by
      obtain ⟨w, hw, hbefore, hafter⟩ := mem_activeCaggJobs.mp hid
      obtain ⟨job, hjob, hactive, rfl⟩ := caggWindows_some.mp hw
      have hview : (s.hold Lock.caggScheduler).view = s.view := rfl
      simp [hview, hjob, CaggRefreshJob.meets, hactive, hbefore, hafter]
  refine hlocked.bind fun active s₁ ⟨hkeys, hrows, hsame, hnames⟩ => ?_
  rw [List.take_length] at hkeys
  rw [Alone.hold_view] at hrows hsame
  have hmeets : ∀ r ∈ active, s.view.caggWindows r.1 = some (r.2.windowStart, r.2.windowEnd) ∧
      r.2.windowStart < stop ∧ start < r.2.windowEnd := by
    intro r hr
    obtain ⟨hjob, hmeets⟩ := Option.filter_eq_some_iff.mp (hrows r hr)
    simp only [CaggRefreshJob.meets, Bool.and_eq_true, decide_eq_true_eq] at hmeets
    exact ⟨caggWindows_some.mpr ⟨r.2, hjob, hmeets.1.1, rfl⟩, hmeets.1.2, hmeets.2⟩
  -- the locked rows are the active jobs that meet the window
  have hexisting : ∀ e, e ∈ active.map (fun r => (r.2.windowStart, r.2.windowEnd)) ↔
      ∃ id, s.view.caggWindows id = some e ∧ e.1 < stop ∧ start < e.2 := by
    intro e
    rw [List.mem_map]
    constructor
    · rintro ⟨r, hr, rfl⟩
      exact ⟨r.1, hmeets r hr⟩
    · rintro ⟨id, hid, hin⟩
      have hmem := mem_activeCaggJobs.mpr ⟨e, hid, hin⟩
      rw [← hkeys] at hmem
      obtain ⟨r, hr, rfl⟩ := List.mem_map.mp hmem
      exact ⟨r, hr, Option.some.inj ((hmeets r hr).1.symm.trans hid)⟩
  have hvalid : ∀ e ∈ active.map (fun r => (r.2.windowStart, r.2.windowEnd)), e.1 < e.2 := by
    intro e he
    obtain ⟨r, -, rfl⟩ := List.mem_map.mp he
    exact r.2.valid
  have hfree : ∀ w ∈ uncoveredIntervals start stop
      (active.map fun r => (r.2.windowStart, r.2.windowEnd)), activeCaggJobs s₁.view w.1 w.2 = [] := by
    intro w hw
    rw [hsame, List.eq_nil_iff_forall_not_mem]
    intro id hid
    obtain ⟨e, he, hbefore, hafter⟩ := mem_activeCaggJobs.mp hid
    obtain ⟨hlow, -, hhigh⟩ := uncoveredIntervals_bounds hlt hw
    have hmem := (hexisting e).mpr ⟨id, he, by omega, by omega⟩
    have hdisjoint := uncoveredIntervals_apart hlt hvalid hw hmem
    omega
  have hcreated : Yields ans _ s₁ _ := yields_insertCaggJobs
    (fun w hw => (uncoveredIntervals_bounds hlt hw).2.1) (uncoveredIntervals_pairwise hlt hvalid) hfree
  refine hcreated.bind fun _ s₂ hplaced => ?_
  have hnote : ∀ e, (s₂.push (.note e)).view.caggWindows = s₂.view.caggWindows := by
    intro e
    rw [Alone.push_view]
    rfl
  refine ⟨(), _, rfl, ?_⟩
  dsimp only
  rw [hnote, hplaced, hsame, hnames]
  refine placed_completes hlt (fun id hid => ?_) (fun id w hw => ?_) hapart hexisting
  · unfold Database.caggWindows
    rw [hfresh id hid]
    rfl
  · obtain ⟨job, -, -, rfl⟩ := caggWindows_some.mp hw
    exact job.valid

/-- The active jobs of both tables stay disjoint, and those of the window cover it: for repair jobs
of an active asset below the cap on overlaps, for refresh jobs on the aligned window. -/
theorem scheduled_jobs_complete (hans : Calm ans)
    (hgap : ∀ id, s.names ≤ id → s.view.gapJobs.lookup id = none)
    (hcagg : ∀ id, s.names ≤ id → s.view.caggJobs.lookup id = none) :
    (∀ (settings : GapRepairSettings) (assetId : ℕ) (start stop : ℤ) (maxRetries : ℕ),
      Separate (s.view.gapWindows assetId) → s.view.Active assetId →
      (activeGapJobs s.view assetId start stop).length ≤ settings.maxActiveOverlaps →
      Yields ans (scheduleRepairJobs settings assetId start stop maxRetries) s fun _ s' =>
        Completes start stop (s.view.gapWindows assetId) (s'.view.gapWindows assetId) ∧
        ∀ a, a ≠ assetId → s'.view.gapWindows a = s.view.gapWindows a) ∧
    ∀ startTime endTime timeframe endInclusive window,
      Separate s.view.caggWindows →
      computeCaggBucketAlignment startTime endTime timeframe endInclusive = .ok window →
      Yields ans (scheduleCaggRefreshJobs startTime endTime timeframe endInclusive) s fun _ s' =>
        Completes window.1 window.2 s.view.caggWindows s'.view.caggWindows := by
  constructor
  · intro settings assetId start stop maxRetries hapart hactive hfew
    by_cases hlt : start < stop
    · refine (yields_scheduleRepairJobs hans settings maxRetries hlt hactive).mono ?_
      rintro jobs s' ⟨⟨-, hcompletes⟩, hview⟩
      rw [hview]
      exact hcompletes hfew hgap hapart
    · unfold scheduleRepairJobs
      rw [if_pos (not_lt.mp hlt)]
      exact yields_pure ⟨Completes.refl (not_lt.mp hlt) hapart, fun _ _ => rfl⟩
  · intro startTime endTime timeframe endInclusive window hapart hwindow
    exact yields_scheduleCaggRefreshJobs hwindow hcagg hapart

/-- An active asset with one active repair job. -/
def oneJob : Database :=
  { assets := AList.insert 1 { symbol := "BTCUSDT" } ∅
    gapJobs := AList.insert 0
      { assetId := 1, symbol := "BTCUSDT", startTime := 10, endTime := 20, createdAt := 0 } ∅ }

theorem oneJob_fresh (id : ℕ) (hid : 1 ≤ id) : oneJob.gapJobs.lookup id = none := by
  have hne : id ≠ 0 := by omega
  exact (AList.lookup_insert_ne hne).trans rfl

theorem scheduled_jobs_around_one :
    (Yields (fun _ => steady 0) (scheduleRepairJobs {} 1 0 30 5) { db := oneJob, names := 1 }
      fun _ s' => Completes 0 30 (oneJob.gapWindows 1) (s'.view.gapWindows 1) ∧
        ∀ a, a ≠ 1 → s'.view.gapWindows a = oneJob.gapWindows a) ∧
    Yields (fun _ => steady 0) (scheduleCaggRefreshJobs 0 30 none false) { db := oneJob, names := 1 }
      fun _ s' => Completes 0 day oneJob.caggWindows s'.view.caggWindows := by
  have hcalm := calm_steady 0
  obtain ⟨hgap, hcagg⟩ := scheduled_jobs_complete (s := { db := oneJob, names := 1 }) hcalm oneJob_fresh
    fun _ _ => rfl
  constructor
  · refine hgap {} 1 0 30 5 (fun i j v w hv hw hne => ?_) ⟨_, rfl, rfl, rfl⟩ (by decide)
    have hzero : ∀ {i v}, oneJob.gapWindows 1 i = some v → i = 0 := by
      intro i v hv
      by_contra hi
      obtain ⟨job, hjob, -⟩ := gapWindows_some.mp hv
      rw [oneJob_fresh i (by omega)] at hjob
      cases hjob
    exact absurd ((hzero hv).trans (hzero hw).symm) hne
  · exact hcagg 0 30 none false (0, day) (fun i j v w hv => by cases hv) (by decide +kernel)

end
end Quantive.Candles
